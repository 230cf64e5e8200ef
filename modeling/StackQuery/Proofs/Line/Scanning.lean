import Mathlib.Data.List.TakeWhile
import StackQuery.Line.Token

/-!
# What the scan of a line goes by

A string runs from a quote to the next one without a backslash before it, and
what it contains stands for the text that unescaping gives.  Where no such
quote follows, the scan ends.  A word runs as long as no white space,
parenthesis or quote comes; the scan goes on behind it as if it began there.
-/

namespace StackQuery

/-! ## Strings -/

namespace Text

/-- What stands between two quotes, and the text that it stands for. -/
inductive Quoted : List Char → List Char → Prop where
  | nil : Quoted [] []
  | plain {c : Char} {body text : List Char} (hquote : c ≠ '"') (hescape : c ≠ '\\')
      (rest : Quoted body text) : Quoted (c :: body) (c :: text)
  | escaped {c : Char} {body text : List Char} (hline : c ≠ '\n') (rest : Quoted body text) :
      Quoted ('\\' :: c :: body)
        ((if c = 'n' then '\n' else if c = 't' then '\t' else c) :: text)

theorem Quoted.unescape_eq {body text : List Char} (h : Quoted body text) : unescape body = text := by
  induction h with
  | nil => rfl
  | plain _ hescape _ ih => simp [unescape, hescape, ih]
  | escaped _ _ ih => simp [unescape, ih]

end Text

open Text (Quoted isBlank)

/-! ## Words -/

namespace Lexeme

/-- White space, parentheses and quotes end a word. -/
def isWordChar (c : Char) : Bool := !(isBlank c || c == '(' || c == ')' || c == '"')

/-- A text at which a word comes to its end. -/
def EndsWord (rest : List Char) : Prop := ∀ c ∈ rest.head?, isWordChar c = false

/-- A word as long as it can be, before the rest of a text. -/
structure WordBefore (w rest : List Char) : Prop where
  nonempty : w ≠ []
  chars : ∀ c ∈ w, isWordChar c = true
  ends : EndsWord rest

variable {c : Char} {cs w body text rest read : List Char}

theorem isWordChar_iff : isWordChar c = true ↔
    isBlank c = false ∧ c ≠ '(' ∧ c ≠ ')' ∧ c ≠ '"' := by
  simp [isWordChar, and_assoc]

theorem isWordChar_eq_false_iff : isWordChar c = false ↔
    isBlank c = true ∨ c = '(' ∨ c = ')' ∨ c = '"' := by
  simp only [isWordChar, Bool.not_eq_false', Bool.or_eq_true, beq_iff_eq, or_assoc]

/-! ## Behind a lexeme -/

theorem scan_opening (cs : List Char) : scan ('(' :: cs) = .opening :: scan cs := rfl

theorem scan_closing (cs : List Char) : scan (')' :: cs) = .closing :: scan cs := rfl

theorem scan_quote (cs : List Char) : scan ('"' :: cs) = scanFrom (.string []) cs := rfl

theorem isBlank_facts (h : isBlank c = true) : c ≠ '"' ∧ c ≠ '(' ∧ c ≠ ')' := by
  refine ⟨?_, ?_, ?_⟩ <;> (rintro rfl; revert h; decide)

theorem scan_blank (h : isBlank c = true) (cs : List Char) : scan (c :: cs) = scan cs := by
  obtain ⟨hquote, hopening, hclosing⟩ := isBlank_facts h
  simp [scan, scanFrom, hquote, hopening, hclosing, h, Mode.finishWord]

theorem scanFrom_word_ends (read : List Char) (h : EndsWord cs) :
    scanFrom (.word read) cs = .word read.reverse :: scan cs := by
  cases cs with
  | nil => rfl
  | cons c cs =>
      obtain hblank | rfl | rfl | rfl := isWordChar_eq_false_iff.mp (h c rfl)
      · obtain ⟨hquote, hopening, hclosing⟩ := isBlank_facts hblank
        simp [scan, scanFrom, Mode.finishWord, hblank, hquote, hopening, hclosing]
      · rfl
      · rfl
      · rfl

theorem scanFrom_word_char (h : isWordChar c = true) (read cs : List Char) :
    scanFrom (.word read) (c :: cs) = scanFrom (.word (c :: read)) cs := by
  obtain ⟨hblank, hopening, hclosing, hquote⟩ := isWordChar_iff.mp h
  simp [scanFrom, hblank, hopening, hclosing, hquote, Mode.extendWord]

theorem scanFrom_word (hchars : ∀ c ∈ w, isWordChar c = true)
    (hends : EndsWord rest) (read : List Char) :
    scanFrom (.word read) (w ++ rest) = .word (read.reverse ++ w) :: scan rest := by
  induction w generalizing read with
  | nil => simpa using scanFrom_word_ends read hends
  | cons c w ih =>
      obtain ⟨hc, hw⟩ := List.forall_mem_cons.mp hchars
      rw [List.cons_append, scanFrom_word_char hc, ih hw]
      simp

theorem scan_word (h : WordBefore w rest) : scan (w ++ rest) = .word w :: scan rest := by
  cases w with
  | nil => exact absurd rfl h.nonempty
  | cons c w =>
      obtain ⟨hc, hw⟩ := List.forall_mem_cons.mp h.chars
      obtain ⟨hblank, hopening, hclosing, hquote⟩ := isWordChar_iff.mp hc
      have hbegins : scan (c :: w ++ rest) = scanFrom (.word [c]) (w ++ rest) := by
        simp [scan, scanFrom, hblank, hopening, hclosing, hquote, Mode.extendWord]
      rw [hbegins, scanFrom_word hw h.ends]
      rfl

theorem exists_wordBefore (h : isWordChar c = true) (cs : List Char) :
    ∃ w rest, c :: cs = w ++ rest ∧ WordBefore w rest := by
  refine ⟨(c :: cs).takeWhile isWordChar, (c :: cs).dropWhile isWordChar,
    List.takeWhile_append_dropWhile.symm, ?_, fun d hd => List.mem_takeWhile_imp hd, ?_⟩
  · simp [h]
  · intro d hd
    have hstop := List.head?_dropWhile_not isWordChar (c :: cs)
    rwa [Option.mem_def.mp hd] at hstop

theorem scanFrom_string (h : Quoted body text) (read rest : List Char) :
    scanFrom (.string read) (body ++ '"' :: rest) = .string (read.reverse ++ body) :: scan rest := by
  induction h generalizing read with
  | nil => simp [scanFrom, scan]
  | plain hquote hescape _ ih =>
      rw [List.cons_append, scanFrom, if_neg hquote, if_neg hescape, ih]
      simp
  | escaped hline _ ih =>
      simp [scanFrom, hline, ih]

theorem scan_string (h : Quoted body text) (rest : List Char) :
    scan ('"' :: (body ++ '"' :: rest)) = .string body :: scan rest :=
  scanFrom_string h [] rest

/-! ## Strings that do not end -/

/-- A quote answers, some way into the text. -/
def Answered (cs : List Char) : Prop := ∃ body text rest, Quoted body text ∧ cs = body ++ '"' :: rest

theorem scanFrom_unanswered (h : ¬ Answered cs) (read : List Char) :
    scanFrom (.string read) cs = [.unterminated] := by
  generalize hlength : cs.length = length
  induction length using Nat.strongRecOn generalizing cs read with
  | ind length ih =>
      cases cs with
      | nil => rfl
      | cons c cs =>
          have hquote : c ≠ '"' := fun hc => h ⟨[], [], cs, .nil, by simp [hc]⟩
          by_cases hescape : c = '\\'
          · cases cs with
            | nil => simp [scanFrom, hescape, Mode.finish]
            | cons d cs =>
                by_cases hline : d = '\n'
                · simp [scanFrom, hescape, hline]
                · have hrest : ¬ Answered cs := by
                    rintro ⟨body, text, rest, hbody, rfl⟩
                    exact h ⟨'\\' :: d :: body, _, rest, .escaped hline hbody, by simp [hescape]⟩
                  have hshorter : cs.length < length := by
                    simp only [List.length_cons] at hlength
                    omega
                  simpa [scanFrom, hescape, hline] using
                    ih cs.length hshorter hrest (d :: '\\' :: read) rfl
          · have hrest : ¬ Answered cs := by
              rintro ⟨body, text, rest, hbody, rfl⟩
              exact h ⟨c :: body, _, rest, .plain hquote hescape hbody, by simp⟩
            rw [scanFrom, if_neg hquote, if_neg hescape]
            exact ih cs.length (by simp [← hlength]) hrest (c :: read) rfl

end Lexeme

end StackQuery
