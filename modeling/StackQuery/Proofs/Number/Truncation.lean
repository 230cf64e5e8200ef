import Mathlib.Data.Rat.Floor
import StackQuery.Proofs.Number.Arithmetic
import StackQuery.Proofs.Number.Conversions
import StackQuery.Proofs.Number.ExactValue

/-!
# Numbers cut to integers

A number that is finite stands for a rational number, and cutting it drops the
fraction of that number exactly: the decimal is not rounded on the way.  What
does not fit is not refused, though, but held at the nearer limit.
-/

namespace StackQuery

namespace Number

/-- What is left of a rational number when its fraction is dropped. -/
def towardZero (q : ℚ) : ℤ := if 0 ≤ q then ⌊q⌋ else ⌈q⌉

theorem towardZero_intCast (i : ℤ) : towardZero i = i := by
  unfold towardZero
  split_ifs
  · exact Int.floor_intCast i
  · exact Int.ceil_intCast i

theorem towardZero_div (n : ℤ) {d : ℕ} (hd : 0 < d) : towardZero ((n : ℚ) / d) = n.tdiv d := by
  have hsign : 0 ≤ (n : ℚ) / d ↔ 0 ≤ n := by
    rw [le_div_iff₀ (Nat.cast_pos.2 hd), zero_mul]
    exact Int.cast_nonneg_iff
  unfold towardZero
  by_cases hn : 0 ≤ n
  · rw [if_pos (hsign.2 hn), Rat.floor_intCast_div_natCast, Int.tdiv_eq_ediv_of_nonneg hn]
  · have hneg : 0 ≤ -n := by omega
    rw [if_neg (mt hsign.1 hn), Rat.ceil_intCast_div_natCast, ← Int.tdiv_eq_ediv_of_nonneg hneg,
      Int.neg_tdiv, neg_neg]

end Number

theorem Decimal.truncated_eq_towardZero (d : Decimal) :
    d.truncated = Number.towardZero d.value := by
  have hunit : (Decimal.unit : ℚ) ≠ 0 := Nat.cast_ne_zero.2 Decimal.unit_pos.ne'
  have hvalue : d.value = (d.numerator : ℚ) / Decimal.unit :=
    eq_div_of_mul_eq hunit d.value_mul_unit
  rw [hvalue, Number.towardZero_div _ Decimal.unit_pos, Decimal.truncated_eq_tdiv]

namespace Number

/-- The exact number that a number stands for; only finite ones stand for one. -/
def value? : Number → Option ℚ
  | .integer i => some i.toInt
  | .decimal d => if d.isFinite then some d.value else none

variable {n : Number} {q : ℚ}

theorem truncate?_of_value?_eq_none (h : n.value? = none) : n.truncate? = none := by
  cases n with
  | integer i => cases h
  | decimal d =>
      have hinfinite : ¬ d.isFinite = true := by simpa [value?] using h
      rw [truncate?, if_neg hinfinite]

/-- Cutting a finite number gives its integer, or the limit that the integer is beyond. -/
theorem truncate?_of_value? (h : n.value? = some q) :
    ∃ i, n.truncate? = some i ∧ i.toInt = max (-2 ^ 63) (min (2 ^ 63 - 1) (towardZero q)) := by
  cases n with
  | integer i =>
      obtain rfl : (i.toInt : ℚ) = q := Option.some.inj h
      have hfits := fits_toInt i
      unfold Fits at hfits
      refine ⟨i, rfl, ?_⟩
      rw [towardZero_intCast]
      omega
  | decimal d =>
      obtain ⟨hfinite, hq⟩ := Option.ite_none_right_eq_some.mp h
      obtain rfl : d.value = q := Option.some.inj hq
      have hmin : Int64.minValue.toInt = -2 ^ 63 := rfl
      have hmax : Int64.maxValue.toInt = 2 ^ 63 - 1 := rfl
      rw [truncate?_decimal hfinite, Decimal.truncated_eq_towardZero, hmin, hmax]
      refine ⟨_, rfl, ?_⟩
      rw [Int64.toInt_ofInt_of_le (by omega) (by omega)]

end Number

end StackQuery
