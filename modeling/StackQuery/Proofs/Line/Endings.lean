import StackQuery.Proofs.Line.Grammar

/-!
# How the scan of a query ends

The scan of a text comes to its end with some parentheses open, or stops at a
closing parenthesis that has no partner, or at a quote that has none, whichever
is met first.  A query is read just when it comes to the end with nothing open,
and then as the grammar reads it.
-/

namespace StackQuery

open Lexeme (WordBefore)
open Phrase (Reads)

/-- How the scan of a text ends, with how many parentheses open if it comes to the end. -/
inductive Ending where
  | level (parentheses : Nat)
  | unmatched
  | unterminated

inductive Scans : Nat → List Char → Ending → Prop where
  | done (n : Nat) : Scans n [] (.level n)
  | blank {n : Nat} {c : Char} {cs : List Char} {ending : Ending} (hc : Text.isBlank c = true)
      (h : Scans n cs ending) : Scans n (c :: cs) ending
  | word {n : Nat} {w cs : List Char} {ending : Ending} (hw : WordBefore w cs)
      (h : Scans n cs ending) : Scans n (w ++ cs) ending
  | string {n : Nat} {body text cs : List Char} {ending : Ending} (hbody : Text.Quoted body text)
      (h : Scans n cs ending) : Scans n ('"' :: (body ++ '"' :: cs)) ending
  | unterminated {n : Nat} {cs : List Char} (h : ¬ Lexeme.Answered cs) :
      Scans n ('"' :: cs) .unterminated
  | opening {n : Nat} {cs : List Char} {ending : Ending} (h : Scans (n + 1) cs ending) :
      Scans n ('(' :: cs) ending
  | closing {n : Nat} {cs : List Char} {ending : Ending} (h : Scans n cs ending) :
      Scans (n + 1) (')' :: cs) ending
  | unmatched (cs : List Char) : Scans 0 (')' :: cs) .unmatched

variable {n : Nat} {cs : List Char} {ending : Ending}

/-! ## What the reader makes of it -/

/-- What has been read when the scan ends so. -/
def Ending.Leaves : Ending → Except LineError Token.Assembly → Prop
  | .level n, result => ∃ a, result = .ok a ∧ a.lists.length = n
  | .unmatched, result => result = .error .unbalancedParentheses
  | .unterminated, result => result = .error .unterminatedString

theorem Token.Assembly.length_add (a : Assembly) (w : Word) :
    (a.add w).lists.length = a.lists.length := by
  unfold add
  split
  next h => simp [h]
  next h => simp [h]

theorem Scans.leaves (h : Scans n cs ending) (a : Token.Assembly) (ha : a.lists.length = n) :
    ending.Leaves ((Lexeme.scan cs).foldlM Token.Assembly.take a) := by
  induction h generalizing a with
  | done n => exact ⟨a, rfl, ha⟩
  | blank hc _ ih =>
      rw [Lexeme.scan_blank hc]
      exact ih a ha
  | word hw _ ih =>
      rw [Lexeme.scan_word hw]
      exact ih _ ((Token.Assembly.length_add _ _).trans ha)
  | string hbody _ ih =>
      rw [Lexeme.scan_string hbody]
      exact ih _ ((Token.Assembly.length_add _ _).trans ha)
  | unterminated h =>
      rw [Lexeme.scan_quote, Lexeme.scanFrom_unanswered h]
      rfl
  | opening _ ih =>
      rw [Lexeme.scan_opening]
      exact ih _ (by simp [ha])
  | @closing n cs ending _ ih =>
      rw [Lexeme.scan_closing]
      obtain ⟨lists, tokens⟩ := a
      cases lists with
      | nil => simp at ha
      | cons members outer =>
          exact ih _ ((Token.Assembly.length_add _ _).trans (by simpa using ha))
  | unmatched cs =>
      rw [Lexeme.scan_closing, List.foldlM_cons, Token.Assembly.take, List.length_eq_zero_iff.mp ha]
      rfl

/-! ## Every scan ends in one way -/

theorem exists_scans (n : Nat) (cs : List Char) : ∃ ending, Scans n cs ending := by
  generalize hlength : cs.length = length
  induction length using Nat.strongRecOn generalizing n cs with
  | ind length ih =>
      have hshorter (n : Nat) (rest : List Char) (hrest : rest.length < cs.length) :
          ∃ ending, Scans n rest ending := ih rest.length (hlength ▸ hrest) n rest rfl
      cases cs with
      | nil => exact ⟨_, .done n⟩
      | cons c cs =>
          by_cases hword : Lexeme.isWordChar c = true
          · obtain ⟨w, rest, hsplit, hw⟩ := Lexeme.exists_wordBefore hword cs
            obtain ⟨ending, h⟩ := hshorter n rest (by
              have := List.length_pos_iff.mpr hw.nonempty
              rw [hsplit, List.length_append]
              omega)
            rw [hsplit]
            exact ⟨ending, .word hw h⟩
          · rw [Bool.not_eq_true, Lexeme.isWordChar_eq_false_iff] at hword
            obtain hblank | rfl | rfl | rfl := hword
            · obtain ⟨ending, h⟩ := hshorter n cs (by simp)
              exact ⟨ending, .blank hblank h⟩
            · obtain ⟨ending, h⟩ := hshorter (n + 1) cs (by simp)
              exact ⟨ending, .opening h⟩
            · cases n with
              | zero => exact ⟨_, .unmatched cs⟩
              | succ n =>
                  obtain ⟨ending, h⟩ := hshorter n cs (by simp)
                  exact ⟨ending, .closing h⟩
            · by_cases hanswered : Lexeme.Answered cs
              · obtain ⟨body, text, rest, hbody, rfl⟩ := hanswered
                obtain ⟨ending, h⟩ := hshorter n rest (by
                  simp only [List.length_cons, List.length_append]
                  omega)
                exact ⟨ending, .string hbody h⟩
              · exact ⟨_, .unterminated hanswered⟩

/-! ## A scan that closes everything is a reading -/

/-- What must follow the phrases of a level if all parentheses are to be closed. -/
def Closes : Nat → List Char → Prop
  | 0, rest => rest = []
  | n + 1, rest => ∃ after phrases rest', rest = ')' :: after ∧ Reads after phrases rest' ∧
      Closes n rest'

theorem Scans.reads (h : Scans n cs (.level 0)) :
    ∃ phrases rest, Reads cs phrases rest ∧ Closes n rest := by
  -- A closing parenthesis ends the phrases of its level; those after it belong to the one outside.
  generalize hending : Ending.level 0 = ending at h
  induction h with
  | done n =>
      cases hending
      exact ⟨[], [], .ended, rfl⟩
  | blank hc _ ih =>
      obtain ⟨phrases, rest, hreads, hcloses⟩ := ih hending
      exact ⟨phrases, rest, .blank hc hreads, hcloses⟩
  | @word _ w _ _ hw _ ih =>
      obtain ⟨phrases, rest, hreads, hcloses⟩ := ih hending
      obtain ⟨phrase, hphrase⟩ := Phrase.exists_spelled w
      exact ⟨phrase :: phrases, rest, .word hw hphrase hreads, hcloses⟩
  | string hbody _ ih =>
      obtain ⟨phrases, rest, hreads, hcloses⟩ := ih hending
      exact ⟨_ :: phrases, rest, .string hbody hreads, hcloses⟩
  | unterminated => cases hending
  | opening _ ih =>
      obtain ⟨members, _, hmembers, after, phrases, rest, rfl, hreads, hcloses⟩ := ih hending
      exact ⟨.group members :: phrases, rest, .group hmembers hreads, hcloses⟩
  | @closing n cs _ _ ih =>
      obtain ⟨phrases, rest, hreads, hcloses⟩ := ih hending
      exact ⟨[], ')' :: cs, .closed cs, cs, phrases, rest, rfl, hreads, hcloses⟩
  | unmatched => cases hending

/-! ## Reading -/

namespace Token

section Outcomes

variable {text : String} {phrases : List Phrase}

theorem read_of_reads (h : Reads text.toList phrases []) :
    read text = .ok (Phrase.tokens phrases) :=
  ofLexemes_of_reads h

theorem read_of_fold {a : Assembly}
    (h : (Lexeme.scan text.toList).foldlM Assembly.take ⟨[], []⟩ = .ok a) :
    read text = a.finish := by
  rw [read, ofLexemes, h]
  rfl

theorem read_of_fold_error {error : LineError}
    (h : (Lexeme.scan text.toList).foldlM Assembly.take ⟨[], []⟩ = .error error) :
    read text = .error error := by
  rw [read, ofLexemes, h]
  rfl

/-- A closing parenthesis too many, or one too few at the end. -/
def Unbalanced (cs : List Char) : Prop :=
  Scans 0 cs .unmatched ∨ ∃ n, Scans 0 cs (.level (n + 1))

theorem read_of_unterminated (h : Scans 0 text.toList .unterminated) :
    read text = .error .unterminatedString :=
  read_of_fold_error (h.leaves ⟨[], []⟩ rfl)

theorem read_of_unbalanced (h : Unbalanced text.toList) :
    read text = .error .unbalancedParentheses := by
  obtain h | ⟨n, h⟩ := h
  · exact read_of_fold_error (h.leaves ⟨[], []⟩ rfl)
  · obtain ⟨a, hfold, hopen⟩ := h.leaves ⟨[], []⟩ rfl
    have hnonempty : a.lists.isEmpty = false := by
      rw [List.isEmpty_eq_false_iff, ← List.length_pos_iff]
      omega
    rw [read_of_fold hfold, Assembly.finish, hnonempty]
    rfl

theorem scans_cases (cs : List Char) :
    (∃ phrases, Scans 0 cs (.level 0) ∧ Reads cs phrases []) ∨
      Scans 0 cs .unterminated ∨ Unbalanced cs := by
  obtain ⟨ending, h⟩ := exists_scans 0 cs
  cases ending with
  | level n =>
      cases n with
      | zero =>
          obtain ⟨phrases, _, hreads, rfl⟩ := h.reads
          exact .inl ⟨phrases, h, hreads⟩
      | succ n => exact .inr (.inr (.inr ⟨n, h⟩))
  | unmatched => exact .inr (.inr (.inl h))
  | unterminated => exact .inr (.inl h)

theorem read_eq_ok_iff {tokens : List Token} :
    read text = .ok tokens ↔
      ∃ phrases, Reads text.toList phrases [] ∧ Phrase.tokens phrases = tokens := by
  constructor
  · intro htokens
    obtain ⟨phrases, _, hreads⟩ | h | h := scans_cases text.toList
    · cases (read_of_reads hreads).symm.trans htokens
      exact ⟨phrases, hreads, rfl⟩
    · cases (read_of_unterminated h).symm.trans htokens
    · cases (read_of_unbalanced h).symm.trans htokens
  · rintro ⟨phrases, hreads, rfl⟩
    exact read_of_reads hreads

theorem read_eq_error_iff {error : LineError} :
    read text = .error error ↔
      Scans 0 text.toList .unterminated ∧ error = .unterminatedString ∨
        Unbalanced text.toList ∧ error = .unbalancedParentheses := by
  constructor
  · intro herror
    obtain ⟨phrases, _, hreads⟩ | h | h := scans_cases text.toList
    · cases (read_of_reads hreads).symm.trans herror
    · cases (read_of_unterminated h).symm.trans herror
      exact .inl ⟨h, rfl⟩
    · cases (read_of_unbalanced h).symm.trans herror
      exact .inr ⟨h, rfl⟩
  · rintro (⟨h, rfl⟩ | ⟨h, rfl⟩)
    · exact read_of_unterminated h
    · exact read_of_unbalanced h

end Outcomes

/--
Reading succeeds just when the scan closes every string and every parenthesis,
and brings the tokens of the phrases that the grammar reads.  It fails as the
scan does: by a string that does not end, or by a parenthesis without partner.
-/
theorem reading_by_grammar (text : String) :
    ((∃ tokens, read text = .ok tokens) ↔ Scans 0 text.toList (.level 0)) ∧
      (∀ tokens, read text = .ok tokens ↔
        ∃ phrases, Reads text.toList phrases [] ∧ Phrase.tokens phrases = tokens) ∧
      (∀ error, read text = .error error ↔
        Scans 0 text.toList .unterminated ∧ error = .unterminatedString ∨
          Unbalanced text.toList ∧ error = .unbalancedParentheses) := by
  refine ⟨⟨?_, ?_⟩, fun _ => read_eq_ok_iff, fun _ => read_eq_error_iff⟩
  · rintro ⟨tokens, htokens⟩
    obtain ⟨_, h, _⟩ | h | h := scans_cases text.toList
    · exact h
    · cases (read_of_unterminated h).symm.trans htokens
    · cases (read_of_unbalanced h).symm.trans htokens
  · intro h
    obtain ⟨phrases, _, hreads, rfl⟩ := h.reads
    exact ⟨_, read_of_reads hreads⟩

/-- The fault that the scan meets first is the one that is reported. -/
example : read "a) \"b" = .error .unbalancedParentheses ∧
    read "(a \"b" = .error .unterminatedString := ⟨rfl, rfl⟩

end Token

end StackQuery
