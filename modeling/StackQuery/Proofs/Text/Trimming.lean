import Mathlib.Data.List.TakeWhile
import StackQuery.Text.Blank

/-!
# White space around a text

Trimming takes white space away on both sides of a text, and as much of it as
there is: what is left neither begins nor ends with white space.
-/

namespace StackQuery.Text

/-- A form with nothing but white space around it, and none at its ends. -/
structure Trimmed (cs form : List Char) : Prop where
  around : ∃ before after, (∀ c ∈ before, isBlank c = true) ∧ (∀ c ∈ after, isBlank c = true) ∧
    cs = before ++ form ++ after
  first : ∀ c ∈ form.head?, isBlank c = false
  last : ∀ c ∈ form.getLast?, isBlank c = false

theorem exists_before_dropWhile (cs : List Char) :
    ∃ before, (∀ c ∈ before, isBlank c = true) ∧ cs = before ++ cs.dropWhile isBlank := by
  refine ⟨cs.takeWhile isBlank, fun c hc => List.mem_takeWhile_imp hc, ?_⟩
  rw [List.takeWhile_append_dropWhile]

theorem not_isBlank_of_dropWhile {cs : List Char} {c : Char}
    (h : c ∈ (cs.dropWhile isBlank).head?) : isBlank c = false := by
  have hfirst := List.head?_dropWhile_not isBlank cs
  rwa [Option.mem_def.mp h] at hfirst

theorem trimmed_trim (cs : List Char) : Trimmed cs (trim cs) := by
  obtain ⟨before, hbefore, hcs⟩ := exists_before_dropWhile cs
  obtain ⟨after, hafter, hrest⟩ := exists_before_dropWhile (cs.dropWhile isBlank).reverse
  have hsplit : cs.dropWhile isBlank = trim cs ++ after.reverse := by
    rw [trim, ← List.reverse_append, ← hrest, List.reverse_reverse]
  refine ⟨⟨before, after.reverse, hbefore, by simpa using hafter, ?_⟩, fun c hc => ?_,
    fun c hc => ?_⟩
  · rw [List.append_assoc, ← hsplit]
    exact hcs
  · have hfirst : c ∈ (cs.dropWhile isBlank).head? := by
      rw [hsplit, List.head?_append, Option.mem_def.mp hc]
      rfl
    exact not_isBlank_of_dropWhile hfirst
  · rw [trim, List.getLast?_reverse] at hc
    exact not_isBlank_of_dropWhile hc

end StackQuery.Text
