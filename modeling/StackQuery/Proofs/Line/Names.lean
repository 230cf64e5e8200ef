import Mathlib.Tactic.SplitIfs
import StackQuery.Line.Statement
import StackQuery.Proofs.Line.Endings

/-!
# Names as they are read

A definition may have any name without white space.  Alone on a line such a
name is read as a call of itself if it is one word, and that word is neither a
number nor an identifier between angle brackets nor the full stop that is
dropped at the end.
-/

namespace StackQuery

open Lexeme (isWordChar EndsWord WordBefore)
open Phrase (Reads Spelled)

/-! ## Words that are called -/

namespace Phrase

variable {cs rest : List Char} {phrases : List Phrase} {name : String}

theorem Reads.word_of_mem (h : Reads cs phrases rest) (hmem : .word name ∈ phrases) :
    (∀ c ∈ name.toList, isWordChar c = true) ∧ (∀ n, ¬ Numeral name.toList n) ∧
      ∀ identifier, name.toList ≠ '<' :: (identifier ++ ['>']) := by
  induction h with
  | ended | closed => cases hmem
  | blank _ _ ih => exact ih hmem
  | word hw hphrase _ ih =>
      obtain rfl | hmem := List.mem_cons.mp hmem
      · cases hphrase with
        | word hnumber hiri =>
            rw [String.toList_ofList]
            exact ⟨hw.chars, hnumber, hiri⟩
      · exact ih hmem
  | string _ _ ih | group _ _ _ ih =>
      obtain h | hmem := List.mem_cons.mp hmem
      · cases h
      · exact ih hmem

theorem word_mem_of_call_mem (h : .call name ∈ tokens phrases) : .word name ∈ phrases := by
  have hcall : Token.call name ∈ phrases.map token := by
    unfold tokens at h
    split at h
    next => exact List.map_subset token (List.dropLast_subset phrases) h
    next => exact h
  obtain ⟨phrase, hmem, htoken⟩ := List.mem_map.mp hcall
  cases phrase with
  | word other =>
      cases htoken
      exact hmem
  | _ => cases htoken

end Phrase

theorem Token.read_eq_call_iff {name : String} (hnonempty : name.toList ≠ [])
    (hblank : ∀ c ∈ name.toList, Text.isBlank c = false) :
    read name = .ok [.call name] ↔
      (∀ c ∈ name.toList, c ≠ '(' ∧ c ≠ ')' ∧ c ≠ '"') ∧ (∀ n, ¬ Numeral name.toList n) ∧
        (∀ identifier, name.toList ≠ '<' :: (identifier ++ ['>'])) ∧ name ≠ "." := by
  constructor
  · intro hread
    obtain ⟨phrases, hreads, htokens⟩ := read_eq_ok_iff.mp hread
    have hmem : .word name ∈ phrases := by
      refine Phrase.word_mem_of_call_mem ?_
      rw [htokens]
      exact List.mem_cons_self
    obtain ⟨hchars, hnumber, hiri⟩ := hreads.word_of_mem hmem
    have hstop : name ≠ "." := by
      rintro rfl
      cases hread
    exact ⟨fun c hc => (Lexeme.isWordChar_iff.mp (hchars c hc)).2, hnumber, hiri, hstop⟩
  · rintro ⟨hchars, hnumber, hiri, hstop⟩
    have hw : WordBefore name.toList [] :=
      ⟨hnonempty, fun c hc => Lexeme.isWordChar_iff.mpr ⟨hblank c hc, hchars c hc⟩, by simp [EndsWord]⟩
    have hspelled : Spelled name.toList (.word name) := by
      have h := Spelled.word hnumber hiri
      rwa [String.ofList_toList] at h
    have hreads : Reads (name.toList ++ []) [.word name] [] := .word hw hspelled .ended
    rw [List.append_nil] at hreads
    rw [read_of_reads hreads]
    unfold Phrase.tokens
    split
    next hlast =>
      simp only [List.getLast?_singleton, Option.some.injEq, Phrase.word.injEq] at hlast
      exact absurd hlast hstop
    next => rfl

/-! ## Names of definitions -/

theorem exists_of_bind_eq_ok {ε α β : Type} {x : Except ε α} {f : α → Except ε β} {b : β}
    (h : x >>= f = .ok b) : ∃ a, x = .ok a ∧ f a = .ok b := by
  cases x with
  | error error => cases h
  | ok a => exact ⟨a, rfl, h⟩

namespace Statement

variable {keyword line name : String} {cs : List Char} {tokens : List Token}

theorem singleName_eq_ok (h : singleName keyword cs = .ok name) :
    name.toList ≠ [] ∧ ∀ c ∈ name.toList, Text.isBlank c = false := by
  unfold singleName at h
  split at h
  next => cases h
  next hname =>
    cases h
    simpa using hname

theorem readDefinition_eq_ok (h : readDefinition cs = .ok (.define name tokens)) :
    ∃ before, singleName "define" before = .ok name := by
  unfold readDefinition at h
  split at h
  next => cases h
  next before body _ =>
    obtain ⟨other, hother, hrest⟩ := exists_of_bind_eq_ok h
    obtain ⟨_, _, hdefine⟩ := exists_of_bind_eq_ok hrest
    cases hdefine
    exact ⟨_, hother⟩

theorem readDirective_eq_define (h : readDirective cs = .ok (.define name tokens)) :
    ∃ rest, readDefinition rest = .ok (.define name tokens) := by
  rcases hsplit : splitKeyword cs with ⟨keyword, rest⟩
  simp only [readDirective, hsplit] at h
  split_ifs at h with hquit hlist hhelp hundefine hdefine
  · cases h
  · cases h
  · generalize singleName _ _ = result at h
    cases result <;> cases h
  · generalize singleName _ _ = result at h
    cases result <;> cases h
  · exact ⟨rest, h⟩

/-- The name of a definition is not empty and has no white space in it. -/
theorem name_of_read_define (h : read line = .ok (.define name tokens)) :
    name.toList ≠ [] ∧ ∀ c ∈ name.toList, Text.isBlank c = false := by
  unfold read at h
  split at h
  next => cases h
  next rest _ =>
    obtain ⟨rest, hrest⟩ := readDirective_eq_define h
    obtain ⟨before, hbefore⟩ := readDefinition_eq_ok hrest
    exact singleName_eq_ok hbefore
  next =>
    generalize Token.ofLexemes _ = result at h
    cases result <;> cases h

end Statement

end StackQuery
