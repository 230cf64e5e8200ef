import Mathlib.Algebra.Order.Ring.Cast
import Mathlib.Algebra.Order.Field.Rat
import Mathlib.Tactic.Ring
import StackQuery.Proofs.Number.Order

/-!
# Integers and decimals compare by their exact values

A finite decimal stands for a rational number: its significand, counted by a
power of two, with its sign.  The order of an integer and a decimal compares the
integer with that number itself, and puts the infinities and the values that are
not numbers beyond all integers.
-/

namespace StackQuery

/-- The rational number that a finite decimal stands for. -/
def Decimal.value (d : Decimal) : ℚ :=
  (if d.isNegative then -1 else 1) * d.significand * 2 ^ ((d.exponent : ℤ) - 1074)

theorem Decimal.value_mul_unit (d : Decimal) : d.value * (Decimal.unit : ℚ) = d.numerator := by
  obtain ⟨exponent, hexponent⟩ : ∃ exponent, exponent = 1074 := ⟨_, rfl⟩
  have hscaled : (d.scaled : ℚ) = d.significand * 2 ^ d.exponent := by
    rw [Decimal.scaled, Nat.cast_mul, Nat.pow_eq, Nat.cast_pow, Nat.cast_ofNat]
  have hpower : (2 : ℚ) ^ ((d.exponent : ℤ) - 1074) * 2 ^ exponent = 2 ^ d.exponent := by
    rw [← zpow_natCast, ← zpow_natCast, ← zpow_add₀ (by norm_num), hexponent]
    congr 1
    omega
  rw [Decimal.unit_eq hexponent, Nat.cast_pow, Nat.cast_ofNat, Decimal.value, mul_assoc, hpower,
    Decimal.numerator]
  split_ifs <;> push_cast <;> rw [hscaled] <;> ring

namespace Number

theorem compare_key_of_finite (i : Int64) (d : Decimal) :
    compare (integer i).key (decimal d).key = compare (i.toInt : ℚ) d.value := by
  have hunit : (0 : ℚ) < Decimal.unit := Nat.cast_pos.2 Decimal.unit_pos
  have hmono : StrictMono fun x : ℚ => x * Decimal.unit := fun _ _ h =>
    mul_lt_mul_of_pos_right h hunit
  have hcast : StrictMono fun x : ℤ => (x : ℚ) := Int.cast_strictMono
  have hinteger : ((integer i).key : ℚ) = i.toInt * Decimal.unit := by
    rw [key, Int.cast_mul, Int.cast_natCast]
  have hdecimal : ((decimal d).key : ℚ) = d.value * Decimal.unit := d.value_mul_unit.symm
  rw [← cmp_eq_compare, ← cmp_eq_compare, ← hmono.cmp_map_eq, ← hcast.cmp_map_eq, hinteger,
    hdecimal]

theorem order_integer_decimal (i : Int64) (d : Decimal) :
    (integer i).order (decimal d) =
        (if d.isFinite then compare (i.toInt : ℚ) d.value
        else if d.isNegative then .gt else .lt) ∧
      (decimal d).order (integer i) = ((integer i).order (decimal d)).swap ∧
      ((integer i).order (decimal d) = .eq ↔ d.isFinite = true ∧ (i.toInt : ℚ) = d.value) := by
  have horder : (integer i).order (decimal d) =
      if d.isFinite then compare (i.toInt : ℚ) d.value
      else if d.isNegative then .gt else .lt := by
    rw [order_eq_compare_key]
    cases hfinite : d.isFinite with
    | true => exact compare_key_of_finite i d
    | false => exact compare_key_of_not_finite i hfinite
  refine ⟨horder, rfl, ?_⟩
  rw [horder]
  split_ifs with hfinite <;> simp [hfinite]

end Number

end StackQuery
