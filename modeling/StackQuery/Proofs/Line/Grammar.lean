import StackQuery.Proofs.Line.Scanning

/-!
# The grammar of a query

A query is a row of phrases: numbers, identifiers between angle brackets, words,
strings, and rows of phrases between parentheses.  A word within parentheses is
a resource and at the top level it is called, except for a full stop that
stands last.  The reader goes along the lexemes with a stack of open lists; on
a text that the grammar reads it brings the tokens of the phrases.
-/

namespace StackQuery

open Lexeme (WordBefore isWordChar)

/-- A word that stands for a number: an integer that fits, or else a decimal that begins as one. -/
inductive Numeral : List Char → Number → Prop where
  | integer {w : List Char} {i : Int64} (h : Number.readInteger? w = some i) :
      Numeral w (.integer i)
  | decimal {w : List Char} {d : Decimal} (hinteger : Number.readInteger? w = none)
      (hbegins : ∃ c ∈ w.head?, Word.startsDecimal c = true) (h : Decimal.read? w = some d) :
      Numeral w (.decimal d)

inductive Phrase where
  | number (value : Number)
  | iri (identifier : String)
  | word (name : String)
  | string (text : String)
  | group (members : List Phrase)

namespace Phrase

mutual

/-- Inside parentheses a word is a resource. -/
def value : Phrase → Value
  | .number n => .number n
  | .iri identifier => .resource identifier
  | .word name => .resource name
  | .string text => .text text
  | .group members => .list (values members)

def values : List Phrase → List Value
  | [] => []
  | phrase :: phrases => phrase.value :: values phrases

end

/-- At the top level a word is called. -/
def token : Phrase → Token
  | .word name => .call name
  | phrase => .push phrase.value

/-- A full stop that stands last means nothing. -/
def tokens (phrases : List Phrase) : List Token :=
  match phrases.getLast? with
  | some (.word ".") => phrases.dropLast.map token
  | _ => phrases.map token

/-- The phrase that a single word is. -/
inductive Spelled : List Char → Phrase → Prop where
  | number {w : List Char} {n : Number} (h : Numeral w n) : Spelled w (.number n)
  | iri (identifier : List Char) :
      Spelled ('<' :: (identifier ++ ['>'])) (.iri (String.ofList identifier))
  | word {w : List Char} (hnumber : ∀ n, ¬ Numeral w n)
      (hiri : ∀ identifier, w ≠ '<' :: (identifier ++ ['>'])) : Spelled w (.word (String.ofList w))

/-- The phrases at the head of a text, up to its end or to a closing parenthesis, and the rest. -/
inductive Reads : List Char → List Phrase → List Char → Prop where
  | ended : Reads [] [] []
  | closed (rest : List Char) : Reads (')' :: rest) [] (')' :: rest)
  | blank {c : Char} {cs rest : List Char} {phrases : List Phrase} (hc : Text.isBlank c = true)
      (h : Reads cs phrases rest) : Reads (c :: cs) phrases rest
  | word {w cs rest : List Char} {phrase : Phrase} {phrases : List Phrase}
      (hw : WordBefore w cs) (hphrase : Spelled w phrase) (h : Reads cs phrases rest) :
      Reads (w ++ cs) (phrase :: phrases) rest
  | string {body text cs rest : List Char} {phrases : List Phrase} (hbody : Text.Quoted body text)
      (h : Reads cs phrases rest) :
      Reads ('"' :: (body ++ '"' :: cs)) (.string (String.ofList text) :: phrases) rest
  | group {cs after rest : List Char} {members phrases : List Phrase}
      (hmembers : Reads cs members (')' :: after)) (h : Reads after phrases rest) :
      Reads ('(' :: cs) (.group members :: phrases) rest

end Phrase

/-! ## Words -/

theorem Word.bracketed?_eq_some_iff {w identifier : List Char} :
    Word.bracketed? w = some identifier ↔ w = '<' :: (identifier ++ ['>']) := by
  unfold bracketed?
  split
  next rest =>
    split
    next h =>
      obtain ⟨before, rfl⟩ := List.getLast?_eq_some_iff.mp h
      simp
    next h =>
      simp only [reduceCtorEq, List.cons.injEq, true_and, false_iff]
      rintro rfl
      simp at h
  next h =>
    simp only [reduceCtorEq, false_iff]
    rintro rfl
    exact h _ rfl

theorem Word.ofChars_of_numeral {w : List Char} {n : Number} (h : Numeral w n) :
    Word.ofChars w = .value (.number n) := by
  cases h with
  | integer h => simp [ofChars, h]
  | @decimal d hinteger hbegins h =>
      obtain ⟨c, hc, hbegins⟩ := hbegins
      have hread : readDecimal? w = some d := by
        rw [readDecimal?, Option.mem_def.mp hc, Option.any_some, if_pos hbegins, h]
      simp [ofChars, hinteger, hread]

theorem Word.readInteger?_of_no_numeral {w : List Char} (h : ∀ n, ¬ Numeral w n) :
    Number.readInteger? w = none := by
  cases hinteger : Number.readInteger? w with
  | none => rfl
  | some i => exact absurd (.integer hinteger) (h _)

theorem Word.readDecimal?_of_no_numeral {w : List Char} (h : ∀ n, ¬ Numeral w n) :
    readDecimal? w = none := by
  cases hdecimal : readDecimal? w with
  | none => rfl
  | some d =>
      obtain ⟨hbegins, hd⟩ := Option.ite_none_right_eq_some.mp hdecimal
      refine absurd (.decimal (readInteger?_of_no_numeral h) ?_ hd) (h _)
      exact (Option.any_eq_true _ _).mp hbegins

theorem not_numeral_of_bracket (w : List Char) (n : Number) : ¬ Numeral ('<' :: w) n := by
  intro h
  cases h with
  | integer h =>
      simp [Number.readInteger?, Decimal.splitSign, Decimal.isDigit, Decimal.digitValue?] at h
  | decimal _ hbegins _ =>
      simp [Word.startsDecimal, Decimal.isDigit, Decimal.digitValue?] at hbegins

namespace Phrase

/-- A phrase as what a reader of words would have read in its place. -/
def toWord : Phrase → Word
  | .word name => .name name
  | phrase => .value phrase.value

theorem toMember_toWord (phrase : Phrase) : phrase.toWord.toMember = phrase.value := by
  cases phrase <;> simp [toWord, Word.toMember, value]

theorem toToken_toWord (phrase : Phrase) : phrase.toWord.toToken = phrase.token := by
  cases phrase <;> rfl

theorem Spelled.ofChars_eq {w : List Char} {phrase : Phrase} (h : Spelled w phrase) :
    Word.ofChars w = phrase.toWord := by
  cases h with
  | number h => simpa [toWord, value] using Word.ofChars_of_numeral h
  | iri identifier =>
      have hno := not_numeral_of_bracket (identifier ++ ['>'])
      simp [Word.ofChars, Word.readInteger?_of_no_numeral hno, Word.readDecimal?_of_no_numeral hno,
        Word.bracketed?_eq_some_iff.mpr rfl, toWord, value]
  | word hnumber hiri =>
      have hbracket : Word.bracketed? w = none := by
        cases h : Word.bracketed? w with
        | none => rfl
        | some identifier => exact absurd (Word.bracketed?_eq_some_iff.mp h) (hiri identifier)
      simp [Word.ofChars, Word.readInteger?_of_no_numeral hnumber,
        Word.readDecimal?_of_no_numeral hnumber, hbracket, toWord]

theorem exists_spelled (w : List Char) : ∃ phrase, Spelled w phrase := by
  by_cases hnumber : ∃ n, Numeral w n
  · obtain ⟨n, hn⟩ := hnumber
    exact ⟨.number n, .number hn⟩
  · by_cases hiri : ∃ identifier, w = '<' :: (identifier ++ ['>'])
    · obtain ⟨identifier, rfl⟩ := hiri
      exact ⟨_, .iri identifier⟩
    · exact ⟨_, .word (not_exists.mp hnumber) (not_exists.mp hiri)⟩

end Phrase

/-! ## Assembling -/

namespace Token

open Phrase (Reads Spelled)

variable {phrases : List Phrase} {cs rest : List Char}

namespace Assembly

def addAll (a : Assembly) (phrases : List Phrase) : Assembly :=
  phrases.foldl (fun a phrase => a.add phrase.toWord) a

theorem addAll_cons (a : Assembly) (phrase : Phrase) (phrases : List Phrase) :
    a.addAll (phrase :: phrases) = (a.add phrase.toWord).addAll phrases := rfl

theorem addAll_inside (members : List Value) (outer : List (List Value)) (tokens : List Token)
    (phrases : List Phrase) :
    addAll ⟨members :: outer, tokens⟩ phrases =
      ⟨((Phrase.values phrases).reverse ++ members) :: outer, tokens⟩ := by
  induction phrases generalizing members with
  | nil => simp [addAll, Phrase.values]
  | cons phrase phrases ih =>
      rw [addAll_cons, add, ih]
      simp [Phrase.values, Phrase.toMember_toWord]

theorem addAll_outside (tokens : List Token) (phrases : List Phrase) :
    addAll ⟨[], tokens⟩ phrases = ⟨[], (phrases.map Phrase.token).reverse ++ tokens⟩ := by
  induction phrases generalizing tokens with
  | nil => simp [addAll]
  | cons phrase phrases ih =>
      rw [addAll_cons, add, ih]
      simp [Phrase.toToken_toWord]

theorem take_group (a : Assembly) (members : List Phrase) :
    (addAll { a with lists := [] :: a.lists } members).take .closing =
      .ok (a.add (Phrase.group members).toWord) := by
  rw [addAll_inside]
  simp [take, Phrase.toWord, Phrase.value]

end Assembly

/-- Reading some phrases adds them to what has been read. -/
theorem foldlM_of_reads (h : Reads cs phrases rest) (a : Assembly) :
    (Lexeme.scan cs).foldlM Assembly.take a =
      (Lexeme.scan rest).foldlM Assembly.take (a.addAll phrases) := by
  induction h generalizing a with
  | ended => rfl
  | closed rest => rfl
  | blank hc _ ih => rw [Lexeme.scan_blank hc, ih]
  | word hw hphrase _ ih =>
      rw [Lexeme.scan_word hw, List.foldlM_cons, Assembly.take, hphrase.ofChars_eq]
      exact ih _
  | string hbody _ ih =>
      rw [Lexeme.scan_string hbody, List.foldlM_cons, Assembly.take, hbody.unescape_eq]
      exact ih _
  | group _ _ ihmembers ih =>
      rw [Lexeme.scan_opening, List.foldlM_cons, Assembly.take]
      -- The members go into a list that the parenthesis has opened and that the next one closes.
      refine (ihmembers _).trans ?_
      rw [Lexeme.scan_closing, List.foldlM_cons, Assembly.take_group]
      exact ih _

theorem dropFullStop_reverse (phrases : List Phrase) :
    (dropFullStop (phrases.map Phrase.token).reverse).reverse = Phrase.tokens phrases := by
  obtain rfl | ⟨before, phrase, rfl⟩ := List.eq_nil_or_concat phrases
  · rfl
  · unfold Phrase.tokens
    rw [List.concat_eq_append, List.getLast?_concat, List.dropLast_concat, List.map_append, List.reverse_append]
    cases phrase with
    | word name =>
        by_cases hstop : name = "."
        · simp [hstop, Phrase.token, dropFullStop]
        · simp [hstop, Phrase.token, dropFullStop]
    | _ => simp [Phrase.token, dropFullStop]

theorem ofLexemes_of_reads (h : Reads cs phrases []) :
    ofLexemes (Lexeme.scan cs) = .ok (Phrase.tokens phrases) := by
  have hfold := foldlM_of_reads h ⟨[], []⟩
  rw [Assembly.addAll_outside, List.append_nil] at hfold
  rw [ofLexemes, hfold, ← dropFullStop_reverse]
  rfl

end Token

end StackQuery
