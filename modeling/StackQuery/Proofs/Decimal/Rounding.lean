import StackQuery.Proofs.Decimal.Truncation

/-!
# Rounding leaves what a decimal can hold

A quotient that is exactly the magnitude of a finite payload is rounded to that
payload.  So the decimal of an integer is the integer itself where any decimal
is, and it is zero for the integer zero alone.
-/

namespace StackQuery

namespace Decimal

theorem roundHalfEven_mul (quotient : Nat) {den : Nat} (h : 0 < den) :
    roundHalfEven (quotient * den) den = quotient := by
  simp [roundHalfEven, Nat.mul_div_cancel _ h, h]

/-- The exponent that is found for the magnitude of a normal payload is its own. -/
theorem found_exponent (exponent : Nat) {remainder : Nat} (h : remainder < leadingBit) :
    (if (leadingBit + remainder) * 2 ^ exponent < 2 * leadingBit then 0
      else ((leadingBit + remainder) * 2 ^ exponent).log2 - 52) = exponent := by
  have hleading : leadingBit = 2 ^ 52 := by decide
  have hpow := Nat.two_pow_pos exponent
  have hlower : 2 ^ (52 + exponent) ≤ (leadingBit + remainder) * 2 ^ exponent := by
    rw [Nat.pow_add, ← hleading]
    exact Nat.mul_le_mul_right _ (by omega)
  have hupper : (leadingBit + remainder) * 2 ^ exponent < 2 ^ (52 + exponent + 1) := by
    rw [show 52 + exponent + 1 = 53 + exponent by omega, Nat.pow_add]
    exact Nat.mul_lt_mul_of_pos_right (by omega) hpow
  have hlog : ((leadingBit + remainder) * 2 ^ exponent).log2 = 52 + exponent :=
    (Nat.log2_eq_iff (by omega)).2 ⟨hlower, hupper⟩
  rw [hlog, Nat.add_sub_cancel_left]
  split_ifs with hsmall
  · -- A significand below twice the leading bit has not been doubled.
    have hdouble : 2 ^ (52 + exponent) < 2 ^ 53 := hlower.trans_lt (by simpa [hleading] using hsmall)
    have := (Nat.pow_lt_pow_iff_right (by decide)).1 hdouble
    omega
  · rfl

/-- What is exactly the magnitude of a payload up to infinity is rounded to that payload. -/
theorem nearestPayload_of_eq {payload num den : Nat} (hden : 0 < den)
    (hfinite : payload ≤ infinitePayload) (h : num * unit = magnitude payload * den) :
    nearestPayload num den = payload := by
  have hremainder : payload % leadingBit < leadingBit := Nat.mod_lt _ (by decide)
  rw [← Nat.div_add_mod payload leadingBit] at h hfinite ⊢
  simp only [nearestPayload, h, Nat.mul_div_cancel _ hden]
  generalize payload % leadingBit = remainder at hremainder hfinite ⊢
  generalize payload / leadingBit = field at hfinite ⊢
  cases field with
  | zero =>
      rw [Nat.mul_zero, Nat.zero_add] at hfinite ⊢
      rw [magnitude_subnormal hremainder, if_pos (by omega), Nat.zero_mul, Nat.zero_add,
        Nat.pow_eq, Nat.pow_zero, Nat.mul_one, roundHalfEven_mul _ hden, Nat.min_eq_left hfinite]
  | succ exponent =>
      have hpos : 0 < den * 2 ^ exponent := Nat.mul_pos hden (Nat.two_pow_pos exponent)
      have hrounded : exponent * leadingBit + (leadingBit + remainder) =
          leadingBit * (exponent + 1) + remainder := by
        rw [Nat.mul_succ, Nat.mul_comm]
        omega
      rw [magnitude_normal exponent hremainder, found_exponent exponent hremainder, Nat.pow_eq,
        Nat.mul_assoc, Nat.mul_comm (2 ^ exponent) den, roundHalfEven_mul _ hpos, hrounded,
        Nat.min_eq_left hfinite]

/-! ## Decimals of integers -/

theorem nearestPayload_le (num den : Nat) : nearestPayload num den ≤ infinitePayload :=
  Nat.min_le_right _ _

theorem payload_ofInt (i : Int) : (ofInt i).payload = nearestPayload i.natAbs 1 :=
  payload_ofPayload _ ((nearestPayload_le _ _).trans_lt (by decide))

theorem isNegative_ofInt (i : Int) : (ofInt i).isNegative = decide (i < 0) :=
  isNegative_ofPayload _ ((nearestPayload_le _ _).trans_lt (by decide))

/-- The decimal of an integer that some decimal is has the value of that decimal. -/
theorem numerator_ofInt {i : Int} {d : Decimal} (hfinite : d.isFinite = true)
    (h : i * unit = d.numerator) : (ofInt i).numerator = d.numerator := by
  have hmagnitude : i.natAbs * unit = magnitude d.payload * 1 := by
    rw [Nat.mul_one, ← natAbs_numerator, ← h, Int.natAbs_mul, Int.natAbs_natCast]
  have hpayload : (ofInt i).payload = d.payload := by
    rw [payload_ofInt, nearestPayload_of_eq Nat.one_pos _ hmagnitude]
    simp only [isFinite, decide_eq_true_eq] at hfinite
    exact hfinite.le
  have hscaled : ((ofInt i).scaled : Int) = i.natAbs * unit := by
    rw [scaled_eq_magnitude, hpayload, ← Nat.mul_one (magnitude _), ← hmagnitude]
    push_cast
    rfl
  rw [← h, numerator, isNegative_ofInt, hscaled]
  split_ifs with hneg
  · have habs : -(i.natAbs : Int) = i := by
      rw [decide_eq_true_eq] at hneg
      omega
    rw [← Int.neg_mul, habs]
  · have habs : (i.natAbs : Int) = i := by
      rw [decide_eq_true_eq] at hneg
      omega
    rw [habs]

theorem two_mul_leadingBit_le_unit : 2 * leadingBit ≤ unit := by
  obtain ⟨exponent, hexponent⟩ : ∃ exponent, exponent = 1074 := ⟨_, rfl⟩
  have hdouble : 2 * leadingBit = 2 ^ 53 := by decide
  rw [unit_eq hexponent, hdouble]
  exact Nat.pow_le_pow_right (by decide) (by omega)

/-- What is one or more is not rounded to zero. -/
theorem nearestPayload_pos {num : Nat} (h : 0 < num) : 0 < nearestPayload num 1 := by
  have hdouble : 2 * leadingBit = 2 ^ 53 := by decide
  have hquotient : 2 * leadingBit ≤ num * unit / 1 := by
    rw [Nat.div_one]
    exact two_mul_leadingBit_le_unit.trans (Nat.le_mul_of_pos_left _ h)
  have hlog : 53 ≤ (num * unit / 1).log2 := by
    rw [hdouble] at hquotient
    exact (Nat.le_log2 (lt_of_lt_of_le (by decide) hquotient).ne').2 hquotient
  simp only [nearestPayload]
  rw [if_neg (Nat.not_lt.2 hquotient), Nat.lt_min]
  refine ⟨Nat.add_pos_left (Nat.mul_pos (by omega) (by decide)) _, by decide⟩

/-- Only the integer zero is rounded to zero. -/
theorem isZero_ofInt (i : Int) : (ofInt i).isZero = decide (i = 0) := by
  rw [isZero, payload_ofInt]
  apply Bool.decide_congr
  constructor
  · intro hzero
    have hpos := mt (@nearestPayload_pos i.natAbs) hzero.not_gt
    omega
  · rintro rfl
    simp [nearestPayload, roundHalfEven]

end Decimal

end StackQuery
