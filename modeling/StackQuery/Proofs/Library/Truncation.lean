import StackQuery.Proofs.Library.Conversions
import StackQuery.Proofs.Number.SignedDigits
import StackQuery.Proofs.Number.Truncation

/-!
# Cutting to integers

The word that converts to integers cuts a number exactly where the integer
fits.  Where it does not, a text that spells the integer has no solution, but a
number is given the nearer limit instead.
-/

namespace StackQuery

namespace Number

variable {q : ℚ}

theorem towardZero_of_nonneg (h : 0 ≤ q) : 0 ≤ towardZero q := by
  rw [towardZero, if_pos h]
  exact Int.floor_nonneg.2 h

theorem towardZero_of_neg (h : q < 0) : towardZero q ≤ 0 := by
  rw [towardZero, if_neg (not_le.2 h), Int.ceil_le, Int.cast_zero]
  exact h.le

end Number

namespace Standard

open Number (Fits towardZero)

theorem gives_toInteger {v : Value} {i? : Option Int64} (rest : Stack)
    (h : v.toInteger? = .ok i?) :
    Gives "to-integer" (v :: rest)
      (i?.toList.map fun i => .ok (.number (.integer i) :: rest)) := by
  refine at_toInteger.gives rfl rfl fun l => ?_
  rw [Action.perform, h]
  cases i? with
  | none => rfl
  | some i => rfl

theorem gives_toInteger_of_number {v : Value} {n : Number} (rest : Stack)
    (hread : v.readNumber = .ok n) :
    Gives "to-integer" (v :: rest)
      (n.truncate?.toList.map fun i => .ok (.number (.integer i) :: rest)) := by
  have hnumber : ¬ v.IsText := by
    rintro ⟨s, rfl⟩
    cases hread
  refine gives_toInteger rest ?_
  rw [Value.toInteger?_of_not_isText hnumber, hread]
  rfl

/--
A finite number, or a literal that denotes one, is cut to the integer towards
zero if that fits, and to the nearer limit if not; what is not finite has no
solution.  A text that spells an integer is converted to it if it fits, and has
no solution if not.
-/
theorem toInteger_cuts {v : Value} {n : Number} (hread : v.readNumber = .ok n) (rest : Stack) :
    (∀ q, n.value? = some q → ∃ i : Int64,
      Gives "to-integer" (v :: rest) [.ok (.number (.integer i) :: rest)] ∧
      (Fits (towardZero q) → i.toInt = towardZero q) ∧
      (¬ Fits (towardZero q) → i.toInt = if q < 0 then -2 ^ 63 else 2 ^ 63 - 1)) ∧
    (n.value? = none → Gives "to-integer" (v :: rest) []) ∧
    ∀ s m, SignedDigits (Text.trim s.toList) m →
      (∀ i : Int64, i.toInt = m →
        Gives "to-integer" (.text s :: rest) [.ok (.number (.integer i) :: rest)]) ∧
      (¬ Fits m → Gives "to-integer" (.text s :: rest) []) := by
  have hgives := gives_toInteger_of_number rest hread
  refine ⟨fun q hq => ?_, fun hnone => ?_, fun s m hdigits => ⟨fun i hi => ?_, fun hfits => ?_⟩⟩
  · obtain ⟨i, hi, hcut⟩ := Number.truncate?_of_value? hq
    rw [hi] at hgives
    refine ⟨i, hgives, fun hfits => ?_, fun hfits => ?_⟩
    · unfold Fits at hfits
      omega
    · unfold Fits at hfits
      split_ifs with hneg
      · have hle := Number.towardZero_of_neg hneg
        omega
      · have hge := Number.towardZero_of_nonneg (not_lt.1 hneg)
        omega
  · rw [Number.truncate?_of_value?_eq_none hnone] at hgives
    exact hgives
  · have hread : (Value.text s).toInteger? = .ok (some i) :=
      congrArg Except.ok (Number.readInteger?_eq_some_iff.2 (hi ▸ hdigits))
    exact gives_toInteger rest hread
  · have hread : (Value.text s).toInteger? = .ok none :=
      congrArg Except.ok (Number.readInteger?_of_not_fits hdigits hfits)
    exact gives_toInteger rest hread

/-- A decimal literal loses its fraction; a text with the first integer above the limit has none. -/
theorem negative_literal_cut :
    let x : Value := .literal (.typed "-4.9" (Vocabulary.xsd ++ "double"))
    let d : Decimal := ⟨0xC01399999999999A⟩
    x.readNumber = .ok (.decimal d) ∧
      (Number.decimal d).value? = some d.value ∧ towardZero d.value = -4 ∧
      (∃ i : Int64, i.toInt = -4 ∧ Gives "to-integer" [x] [.ok [.number (.integer i)]]) ∧
      SignedDigits (Text.trim "9223372036854775808".toList) (2 ^ 63) ∧
      Gives "to-integer" [.text "9223372036854775808"] [] := by
  intro x d
  have hread : x.readNumber = .ok (.decimal d) := by decide +kernel
  have hvalue : (Number.decimal d).value? = some d.value := if_pos (by decide)
  have hcut : towardZero d.value = -4 := by
    rw [← Decimal.truncated_eq_towardZero]
    decide +kernel
  have hdigits : SignedDigits (Text.trim "9223372036854775808".toList) (2 ^ 63) :=
    .unsigned (by decide +kernel) (List.all_eq_true.1 (by decide +kernel))
  obtain ⟨hnumber, _, htext⟩ := toInteger_cuts hread []
  obtain ⟨i, hgives, hexact, _⟩ := hnumber _ hvalue
  obtain ⟨_, hnothing⟩ := htext _ _ hdigits
  refine ⟨hread, hvalue, hcut, ⟨i, ?_, hgives⟩, hdigits, hnothing (by simp [Fits])⟩
  rw [hexact (by simp [hcut, Fits]), hcut]

/-- The first integer above the limit is a decimal, and is cut to the limit below it. -/
theorem decimal_above_limit_cut_to_limit :
    let d : Decimal := ⟨0x43E0000000000000⟩
    (Value.decimal d).readNumber = .ok (.decimal d) ∧ d.isFinite = true ∧
      towardZero d.value = 2 ^ 63 ∧ ¬ Fits (2 ^ 63) ∧
      Gives "to-integer" [.decimal d] [.ok [.number (.integer Int64.maxValue)]] ∧
      ¬ Gives "to-integer" [.decimal d] [] := by
  intro d
  have hcut : towardZero d.value = 2 ^ 63 := by
    rw [← Decimal.truncated_eq_towardZero]
    decide +kernel
  have hlimit : (Number.decimal d).truncate? = some Int64.maxValue := by decide +kernel
  have hgives := gives_toInteger_of_number (v := .decimal d) [] rfl
  rw [hlimit] at hgives
  refine ⟨rfl, by decide, hcut, by simp [Fits], hgives, fun hnothing => ?_⟩
  cases hnothing.unique hgives

end Standard

end StackQuery
