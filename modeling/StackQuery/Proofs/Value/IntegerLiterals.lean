import StackQuery.Proofs.Number.SignedDigits
import StackQuery.Proofs.Text.Trimming
import StackQuery.Proofs.Value.Order

/-!
# Literals of integer types

Between its white space a literal of an integer type has to hold signed digits
of an integer that fits, and then it denotes that integer.  All plus signs in
front are passed over, however many there are, and only then is a sign looked
for: so a plus sign before another sign is let through.
-/

namespace StackQuery

/-- A plus sign before another sign. -/
def SignedTwice (form : List Char) : Prop :=
  ∃ sign rest, form = '+' :: sign :: rest ∧ (sign = '+' ∨ sign = '-')

namespace Literal

variable {form digits : List Char} {m : Int} {n : Int64} {l : Literal} {name : String}

/-! ## Plus signs in front -/

theorem dropPlus_of_digit {c : Char} {rest : List Char} (h : c.isDigit = true) :
    (c :: rest).dropWhile (· == '+') = c :: rest := by
  have hplus : (c == '+') = false := by
    rw [beq_eq_false_iff_ne]
    rintro rfl
    exact absurd h (by decide)
  rw [List.dropWhile_cons, hplus]
  rfl

theorem dropPlus_of_digits (hdigits : ∀ c ∈ digits, c.isDigit = true) :
    digits.dropWhile (· == '+') = digits := by
  cases digits with
  | nil => rfl
  | cons c rest => exact dropPlus_of_digit (hdigits c List.mem_cons_self)

theorem signedDigits_dropPlus (h : SignedDigits form m) :
    SignedDigits (form.dropWhile (· == '+')) m := by
  cases h with
  | unsigned hne hdigits =>
      rw [dropPlus_of_digits hdigits]
      exact .unsigned hne hdigits
  | @plus digits hne hdigits =>
      have hdrop : ('+' :: digits).dropWhile (· == '+') = digits := dropPlus_of_digits hdigits
      rw [hdrop]
      exact .unsigned hne hdigits
  | minus hne hdigits => exact .minus hne hdigits

theorem dropPlus_replicate (pluses : Nat) (digits : List Char) :
    (List.replicate pluses '+' ++ digits).dropWhile (· == '+') = digits.dropWhile (· == '+') := by
  induction pluses with
  | zero => rfl
  | succ pluses ih => exact ih

theorem exists_pluses (form : List Char) :
    ∃ pluses, form = List.replicate pluses '+' ++ form.dropWhile (· == '+') := by
  have hpluses : ∀ c ∈ form.takeWhile (· == '+'), c = '+' :=
    fun c hc => eq_of_beq (List.mem_takeWhile_imp (p := (· == '+')) hc)
  refine ⟨(form.takeWhile (· == '+')).length, ?_⟩
  rw [← List.eq_replicate_of_mem hpluses, List.takeWhile_append_dropWhile]

theorem readInteger?_eq_some_iff :
    readInteger? form = some n ↔ ∃ pluses digits,
      form = List.replicate pluses '+' ++ digits ∧ SignedDigits digits n.toInt := by
  rw [readInteger?, Number.readInteger?_eq_some_iff]
  constructor
  · intro h
    obtain ⟨pluses, hform⟩ := exists_pluses form
    exact ⟨pluses, _, hform, h⟩
  · rintro ⟨pluses, digits, rfl, h⟩
    rw [dropPlus_replicate]
    exact signedDigits_dropPlus h

/-- Without a second sign the plus sign in front belongs to the digits. -/
theorem signedDigits_of_dropPlus (honce : ¬ SignedTwice form)
    (h : SignedDigits (form.dropWhile (· == '+')) m) : SignedDigits form m := by
  cases form with
  | nil => exact h
  | cons c rest =>
      by_cases hplus : c = '+'
      · subst hplus
        have hdrop : ('+' :: rest).dropWhile (· == '+') = rest.dropWhile (· == '+') := rfl
        rw [hdrop] at h
        cases rest with
        | nil =>
            cases h with
            | unsigned hne => exact absurd rfl hne
        | cons sign rest =>
            have hsign : sign ≠ '+' ∧ sign ≠ '-' := by
              constructor
              · rintro rfl
                exact honce ⟨_, _, rfl, .inl rfl⟩
              · rintro rfl
                exact honce ⟨_, _, rfl, .inr rfl⟩
            rw [List.dropWhile_cons, beq_eq_false_iff_ne.2 hsign.1] at h
            cases h with
            | unsigned hne hdigits => exact .plus hne hdigits
            | plus => exact absurd rfl hsign.1
            | minus => exact absurd rfl hsign.2
      · rw [List.dropWhile_cons, beq_eq_false_iff_ne.2 hplus] at h
        exact h

theorem readInteger?_eq_some_iff_of_signed_once (honce : ¬ SignedTwice form) :
    readInteger? form = some n ↔ SignedDigits form n.toInt := by
  rw [readInteger?, Number.readInteger?_eq_some_iff]
  exact ⟨signedDigits_of_dropPlus honce, signedDigits_dropPlus⟩

/-! ## What a literal denotes -/

theorem knownType?_append (name : String) :
    knownType? (Vocabulary.xsd ++ name) = some name := by
  have hprefix : Vocabulary.xsd.toList.isPrefixOf (Vocabulary.xsd ++ name).toList = true := by
    rw [List.isPrefixOf_iff_prefix, String.toList_append]
    exact List.prefix_append _ _
  rw [knownType?, if_pos hprefix, String.toList_append, List.drop_left, String.ofList_toList]

theorem native?_eq_of_integerType (hlanguage : l.language = none)
    (hdatatype : l.datatype = some (Vocabulary.xsd ++ name))
    (hname : name ∈ Vocabulary.integerTypes) :
    l.native? = (readInteger? (Text.trim l.lexical.toList)).map (.number ∘ .integer) := by
  have hstring : name ≠ "string" := by
    rintro rfl
    exact absurd hname (by decide)
  have hboolean : name ≠ "boolean" := by
    rintro rfl
    exact absurd hname (by decide)
  have hcontains : Vocabulary.integerTypes.contains name = true := List.contains_iff_mem.2 hname
  simp only [native?, hlanguage, hdatatype, knownType?_append, Option.bind_eq_bind,
    Option.bind_some, if_neg hstring, if_neg hboolean, if_pos hcontains]

end Literal

/-! ## How a literal without a native value compares -/

theorem Value.order_of_native?_eq_none {l : Literal} (h : l.native? = none) (w : Value) :
    (∀ l', w.canonical = .literal l' → (Value.literal l).order w =
      (compare l.lexical l'.lexical).then ((compareOptional l.datatype l'.datatype).then
        (compareOptional l.language l'.language))) ∧
    ((∀ l', w.canonical ≠ .literal l') →
      (Value.literal l).order w = compare (Value.literal l).rank w.canonical.rank) := by
  have hcanonical : (Value.literal l).canonical = .literal l := by
    rw [Value.canonical, h]
  rw [Value.order_eq_orderCanonical, hcanonical]
  refine ⟨fun l' hw => ?_, fun hw => ?_⟩
  · rw [hw]
    rfl
  · cases hkind : w.canonical with
    | literal l' => exact absurd hkind (hw l')
    | _ => rfl

/-! ## Integer literals -/

namespace Literal

variable {l : Literal} {name : String}

/--
A literal of an integer type denotes an integer if its form, without the white
space around it, is that integer's signed digits after any number of plus
signs, and else it denotes nothing.  Unless the form is signed twice, these are
just the signed digits.  A literal that denotes nothing compares by its form.
-/
theorem integer_literal_denotes (hlanguage : l.language = none)
    (hdatatype : l.datatype = some (Vocabulary.xsd ++ name))
    (hname : name ∈ Vocabulary.integerTypes) :
    let form := Text.trim l.lexical.toList
    Text.Trimmed l.lexical.toList form ∧
    (¬ SignedTwice form → ∀ native, l.native? = some native ↔
      ∃ n : Int64, native = .number (.integer n) ∧ SignedDigits form n.toInt) ∧
    (∀ native, l.native? = some native ↔
      ∃ n : Int64, native = .number (.integer n) ∧ ∃ pluses digits,
        form = List.replicate pluses '+' ++ digits ∧ SignedDigits digits n.toInt) ∧
    (l.native? = none → ∀ w,
      (∀ l', w.canonical = .literal l' → (Value.literal l).order w =
        (compare l.lexical l'.lexical).then ((compareOptional l.datatype l'.datatype).then
          (compareOptional l.language l'.language))) ∧
      ((∀ l', w.canonical ≠ .literal l') →
        (Value.literal l).order w = compare (Value.literal l).rank w.canonical.rank)) := by
  intro form
  have hnative : ∀ native, l.native? = some native ↔
      ∃ n : Int64, native = .number (.integer n) ∧ readInteger? form = some n := by
    intro native
    rw [native?_eq_of_integerType hlanguage hdatatype hname, Option.map_eq_some_iff]
    constructor
    · rintro ⟨n, hn, rfl⟩
      exact ⟨n, rfl, hn⟩
    · rintro ⟨n, rfl, hn⟩
      exact ⟨n, hn, rfl⟩
  refine ⟨Text.trimmed_trim _, fun honce native => ?_, fun native => ?_,
    Value.order_of_native?_eq_none⟩
  · simp only [hnative, readInteger?_eq_some_iff_of_signed_once honce]
  · simp only [hnative, readInteger?_eq_some_iff]

/-- White space, a plus sign and leading zeros do not count. -/
theorem padded_literal_denotes :
    let l : Literal := .typed " +042\t" (Vocabulary.xsd ++ "unsignedByte")
    let form : List Char := Text.trim l.lexical.toList
    l.language = none ∧ l.datatype = some (Vocabulary.xsd ++ "unsignedByte") ∧
      "unsignedByte" ∈ Vocabulary.integerTypes ∧ ¬ SignedTwice form ∧
      SignedDigits form (42 : Int64).toInt ∧ l.native? = some (.number (.integer 42)) := by
  intro l form
  have hname : "unsignedByte" ∈ Vocabulary.integerTypes := by decide
  have hform : form = ['+', '0', '4', '2'] := by decide +kernel
  have honce : ¬ SignedTwice form := by
    rintro ⟨sign, rest, htwice, hsign⟩
    rw [hform] at htwice
    cases htwice
    exact absurd hsign (by decide)
  have hdigits : SignedDigits form (42 : Int64).toInt := by
    rw [hform]
    exact .plus (by decide) (List.all_eq_true.1 (by decide))
  obtain ⟨_, hdenotes, _⟩ := integer_literal_denotes (l := l) rfl rfl hname
  exact ⟨rfl, rfl, hname, honce, hdigits, (hdenotes honce _).2 ⟨42, rfl, hdigits⟩⟩

/-- A form that is signed twice is no integer, and the literal is the same as one all the same. -/
theorem twice_signed_literal_denotes :
    let l : Literal := .typed "++5" (Vocabulary.xsd ++ "integer")
    let l' : Literal := .typed "+-5" (Vocabulary.xsd ++ "integer")
    (∀ m, ¬ SignedDigits (Text.trim l.lexical.toList) m) ∧
      (∀ m, ¬ SignedDigits (Text.trim l'.lexical.toList) m) ∧
      l.native? = some (.number (.integer 5)) ∧ l'.native? = some (.number (.integer (-5))) ∧
      (Value.literal l).same (.integer 5) = true := by
  intro l l'
  have hform : Text.trim l.lexical.toList = ['+', '+', '5'] := by decide +kernel
  have hform' : Text.trim l'.lexical.toList = ['+', '-', '5'] := by decide +kernel
  refine ⟨fun m h => ?_, fun m h => ?_, by decide +kernel, by decide +kernel, by decide +kernel⟩
  · rw [hform] at h
    cases h with
    | unsigned _ hdigits => exact absurd (hdigits '+' List.mem_cons_self) (by decide)
    | plus _ hdigits => exact absurd (hdigits '+' List.mem_cons_self) (by decide)
  · rw [hform'] at h
    cases h with
    | unsigned _ hdigits => exact absurd (hdigits '+' List.mem_cons_self) (by decide)
    | plus _ hdigits => exact absurd (hdigits '-' List.mem_cons_self) (by decide)

end Literal

end StackQuery
