import StackQuery.Proofs.Line.Endings
import StackQuery.Proofs.Number.Text
import StackQuery.Proofs.Operator.DepthFirst
import StackQuery.Value.Printer

/-!
# Written forms are read back

The written form of a value is a phrase of the grammar: an integer and a
resource are words, a text is a string whose escapes give it back, and a list is
a row of written forms with spaces between them.  A word is written where white
space, a parenthesis or nothing comes next, so it runs on into nothing.  The
phrases of a stack are pushed one after another, bottom first.
-/

namespace StackQuery

open Lexeme (isWordChar EndsWord WordBefore)
open Phrase (Reads Spelled)

/-! ## Strings -/

theorem Text.quoted_escape (s : List Char) : Quoted (escape s) s := by
  fun_induction escape s with
  | case1 => exact .nil
  | case2 rest ih => exact .escaped (by decide) ih
  | case3 rest ih => exact .escaped (by decide) ih
  | case4 c rest hescape hquote ih => exact .plain hquote hescape ih

/-! ## Integers -/

theorem Lexeme.isWordChar_of_isDigit {c : Char} (h : c.isDigit = true) : isWordChar c = true := by
  have hrange : 48 ≤ c.toNat ∧ c.toNat ≤ 57 := by
    simpa [Char.isDigit, UInt32.le_iff_toNat_le] using h
  have hblank : Text.isBlank c = false := by
    simp [Text.isBlank, Text.blankRanges]
    omega
  refine isWordChar_iff.mpr ⟨hblank, ?_, ?_, ?_⟩ <;> (rintro rfl; revert h; decide)

theorem Number.wordBefore_integer (i : Int64) {cs : List Char} (h : EndsWord cs) :
    WordBefore (text (.integer i)).toList cs := by
  rw [integer_text_toList]
  have hdigits (n : Nat) : ∀ c ∈ Nat.toDigits 10 n, isWordChar c = true := fun c hc =>
    Lexeme.isWordChar_of_isDigit (Decimal.isDigit_of_mem_toDigits hc)
  split
  next => exact ⟨Nat.toDigits_ne_nil, hdigits _, h⟩
  next => exact ⟨by simp, List.forall_mem_cons.mpr ⟨by decide, hdigits _⟩, h⟩

namespace Value

/-- Values that are read back from their written form. -/
inductive Legible : Value → Prop where
  | integer (i : Int64) : Legible (.number (.integer i))
  | text (s : String) : Legible (.text s)
  | resource {identifier : String} (h : ∀ c ∈ identifier.toList, isWordChar c = true) :
      Legible (.resource identifier)
  | list {items : List Value} (h : ∀ v ∈ items, Legible v) : Legible (.list items)

/-- The written form of a value is a phrase, wherever no word runs on behind it. -/
structure Written (v : Value) (phrase : Phrase) : Prop where
  value : phrase.value = v
  token : phrase.token = .push v
  reads : ∀ {cs rest : List Char} {phrases : List Phrase}, EndsWord cs → Reads cs phrases rest →
    Reads (v.print.toList ++ cs) (phrase :: phrases) rest

theorem reads_spaced {items : List Value} (h : ∀ v ∈ items, ∃ phrase, Written v phrase) :
    ∃ phrases, Phrase.values phrases = items ∧ phrases.map Phrase.token = items.map Token.push ∧
      ∀ {cs rest : List Char}, EndsWord cs → Reads cs [] rest →
        Reads ((spaced (printAll items)).toList ++ cs) phrases rest := by
  induction items with
  | nil => exact ⟨[], rfl, rfl, fun _ hcs => by simpa [spaced, printAll] using hcs⟩
  | cons v items ih =>
      obtain ⟨⟨phrase, hv⟩, hitems⟩ := List.forall_mem_cons.mp h
      obtain ⟨phrases, hvalues, htokens, hreads⟩ := ih hitems
      refine ⟨phrase :: phrases, ?_, ?_, ?_⟩
      · rw [Phrase.values, hv.value, hvalues]
      · rw [List.map_cons, hv.token, htokens, List.map_cons]
      · intro cs rest hends hcs
        cases items with
        | nil =>
            obtain rfl : phrases = [] := by simpa using htokens
            simpa [spaced, printAll] using hv.reads hends hcs
        | cons w items =>
            have hspace : EndsWord (' ' :: ((spaced (printAll (w :: items))).toList ++ cs)) := by
              rintro c ⟨⟩
              rfl
            have htext : (spaced (printAll (v :: w :: items))).toList ++ cs =
                v.print.toList ++ ' ' :: ((spaced (printAll (w :: items))).toList ++ cs) := by
              simp [spaced, printAll]
            rw [htext]
            exact hv.reads hspace (.blank rfl (hreads hends hcs))

theorem Legible.written {v : Value} (h : Legible v) : ∃ phrase, Written v phrase := by
  induction h with
  | integer i =>
      refine ⟨.number (.integer i), by rw [Phrase.value], rfl, fun hends hcs => ?_⟩
      rw [print]
      exact .word (Number.wordBefore_integer i hends)
        (.number (.integer (Number.readInteger?_text i))) hcs
  | text s =>
      refine ⟨.string s, by rw [Phrase.value], rfl, fun {cs rest phrases} _ hcs => ?_⟩
      have htext : (print (.text s)).toList ++ cs =
          '"' :: (Text.escape s.toList ++ '"' :: cs) := by
        simp [print, Text.quote]
      rw [htext, ← String.ofList_toList (s := s), String.toList_ofList]
      exact .string (Text.quoted_escape s.toList) hcs
  | @resource identifier h =>
      refine ⟨.iri identifier, by rw [Phrase.value], rfl, fun {cs rest phrases} hends hcs => ?_⟩
      have hword : WordBefore ('<' :: (identifier.toList ++ ['>'])) cs := by
        refine ⟨by simp, ?_, hends⟩
        intro c hc
        simp only [List.mem_cons, List.mem_append, List.not_mem_nil, or_false] at hc
        obtain rfl | hc | rfl := hc
        · rfl
        · exact h c hc
        · rfl
      have htext : (print (.resource identifier)).toList = '<' :: (identifier.toList ++ ['>']) := by
        simp [print]
      rw [htext]
      have hspelled := Spelled.iri identifier.toList
      rw [String.ofList_toList] at hspelled
      exact .word hword hspelled hcs
  | @list items _ ih =>
      obtain ⟨members, hvalues, _, hreads⟩ := reads_spaced ih
      have hvalue : (Phrase.group members).value = .list items := by rw [Phrase.value, hvalues]
      refine ⟨.group members, hvalue, congrArg Token.push hvalue, fun {cs rest phrases} _ hcs => ?_⟩
      have htext : (print (.list items)).toList ++ cs =
          '(' :: ((spaced (printAll items)).toList ++ ')' :: cs) := by
        simp [print]
      have hclosing : EndsWord (')' :: cs) := by
        rintro c ⟨⟩
        rfl
      rw [htext]
      exact .group (hreads hclosing (.closed cs)) hcs

end Value

/-! ## Pushing -/

theorem Phrase.tokens_of_pushes {phrases : List Phrase} {items : List Value}
    (h : phrases.map token = items.map Token.push) : tokens phrases = items.map Token.push := by
  unfold tokens
  split
  next hlast =>
    have hcall := congrArg List.getLast? h
    rw [List.getLast?_map, hlast, List.getLast?_map] at hcall
    cases hitem : items.getLast? <;> simp [hitem, token] at hcall
  next => exact h

theorem Value.read_spaced {items : List Value} (h : ∀ v ∈ items, Legible v) :
    Token.read (spaced (printAll items)) = .ok (items.map Token.push) := by
  obtain ⟨phrases, _, htokens, hreads⟩ := reads_spaced fun v hv => (h v hv).written
  have hend := @hreads [] [] (by simp [EndsWord]) .ended
  rw [List.append_nil] at hend
  rw [Token.read_of_reads hend, Phrase.tokens_of_pushes htokens]

namespace Solutions

variable {l : Library}

theorem pushing_single_alike (v : Value) (stack : Stack) :
    Alike l (.pushing v (.single stack)) (.single (v :: stack)) := by
  let pushed (_ : Nat) (a b : Solutions) : Prop := ∃ others : List Stack,
    a = .pushing v (.ofStacks others) ∧ b = .ofStacks (others.map (v :: ·))
  refine alike_of_meets (R := pushed) ?_ 0 ⟨[stack], rfl, rfl⟩
  rintro _ _ _ ⟨others, rfl, rfl⟩ ask
  cases others with
  | nil => exact .ended rfl rfl
  | cons stack others => exact .item rfl rfl ⟨0, others, rfl, rfl⟩

theorem foldl_constant_alike (items : List Value) {live : Solutions} {stack : Stack}
    (h : Alike l live (.single stack)) :
    Alike l ((items.map Operator.constant).foldl (fun live op => op.onStream live) live)
      (.single (items.reverse ++ stack)) := by
  induction items generalizing live stack with
  | nil => exact h
  | cons v items ih =>
      rw [List.reverse_cons, List.append_assoc]
      refine ih ?_
      change Alike l ((Operator.constant v).onStream live) _
      rw [Operator.onStream]
      exact (AlikeOver.pushing v h).trans (pushing_single_alike v stack)

theorem evaluate_pushes (ask : Connection) (items : List Value) :
    ∃ live, evaluate (.calm l ask) (items.map Token.push) [] = .ok live ∧
      Alike l live (.single items.reverse) := by
  have hoperators : Token.operators l (items.map Token.push) = .ok (items.map Operator.constant) := by
    induction items with
    | nil => rfl
    | cons v items ih =>
        rw [Token.operators] at ih
        simp [Token.operators, Token.operator, ih]
        rfl
  obtain ⟨live, hlive, halike⟩ := Operator.evaluate_of_operators hoperators ask []
  have hempty : Alike l (single []) (single []) := .refl _
  have hpushed := foldl_constant_alike items hempty
  rw [List.append_nil] at hpushed
  exact ⟨live, hlive, halike.trans hpushed⟩

end Solutions

/-! ## Reading back -/

/--
The written form of a value is read as that value alone, and the written form
of a stack is a query that has the stack for its one solution.
-/
theorem Value.written_forms_read_back :
    (∀ v : Value, v.Legible → Token.read v.print = .ok [.push v]) ∧
      ∀ stack : Stack, (∀ v ∈ stack, v.Legible) →
        ∃ tokens, Token.read stack.print = .ok tokens ∧
          ∀ (l : Library) (ask : Connection), ∃ live, evaluate (.calm l ask) tokens [] = .ok live ∧
            Solutions.Alike l live (.single stack) := by
  constructor
  · intro v hv
    have hread := @read_spaced [v] (by simpa using hv)
    simpa [spaced, printAll] using hread
  · intro stack hstack
    refine ⟨_, read_spaced fun v hv => hstack v (List.mem_reverse.mp hv), fun l ask => ?_⟩
    obtain ⟨live, hlive, halike⟩ := Solutions.evaluate_pushes (l := l) ask stack.reverse
    exact ⟨live, hlive, by rwa [List.reverse_reverse] at halike⟩

/-- Quotes, escapes and parentheses in a text, and a resource that looks like a number. -/
theorem Value.tangled_forms_read_back :
    let tangle := .list [.text "a \"b\" (\\\n", .list [], .resource "-1", .number (.integer (-20))]
    (∀ v ∈ [tangle, .text ")"], Legible v) ∧
      Token.read "(\"a \\\"b\\\" (\\\\\n\" () <-1> -20)" = .ok [.push tangle] ∧
      ∃ tokens, Token.read "\")\" (\"a \\\"b\\\" (\\\\\n\" () <-1> -20)" = .ok tokens ∧
        ∀ (l : Library) (ask : Connection), ∃ live, evaluate (.calm l ask) tokens [] = .ok live ∧
          Solutions.Alike l live (.single [tangle, .text ")"]) := by
  intro tangle
  have htangle : Legible tangle := by
    refine .list ?_
    simp only [List.forall_mem_cons, List.not_mem_nil, false_imp_iff, implies_true, and_true]
    exact ⟨.text _, .list (by simp), .resource (List.all_eq_true.mp rfl), .integer _⟩
  have hstack : ∀ v ∈ [tangle, .text ")"], Legible v := by
    simpa using ⟨htangle, .text _⟩
  have htext : tangle.print = "(\"a \\\"b\\\" (\\\\\n\" () <-1> -20)" := by decide +kernel
  have hstackText : Stack.print [tangle, .text ")"] =
      "\")\" (\"a \\\"b\\\" (\\\\\n\" () <-1> -20)" := by decide +kernel
  rw [← htext, ← hstackText]
  exact ⟨hstack, written_forms_read_back.1 tangle htangle, written_forms_read_back.2 _ hstack⟩

end StackQuery
