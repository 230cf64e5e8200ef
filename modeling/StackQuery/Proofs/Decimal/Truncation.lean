import StackQuery.Proofs.Decimal.Magnitude

/-!
# Dropping the fraction

Truncation works on the bits of a decimal.  Its result is the whole number of
units in the magnitude, with the sign left as it is.
-/

namespace StackQuery

namespace Decimal

/-! ## Decimals put together from a sign and a payload -/

theorem payload_lt (d : Decimal) : d.payload < signBit := Nat.mod_lt _ (by decide)

theorem toNat_ofPayload (negative : Bool) {payload : Nat} (h : payload < signBit) :
    (ofPayload negative payload).bits.toNat = (if negative then signBit else 0) + payload := by
  unfold signBit at h
  cases negative <;> simp [ofPayload, signBit] <;> omega

@[simp] theorem payload_ofPayload (negative : Bool) {payload : Nat} (h : payload < signBit) :
    (ofPayload negative payload).payload = payload := by
  rw [Decimal.payload, toNat_ofPayload negative h]
  cases negative <;> simp [Nat.mod_eq_of_lt h]

@[simp] theorem isNegative_ofPayload (negative : Bool) {payload : Nat} (h : payload < signBit) :
    (ofPayload negative payload).isNegative = negative := by
  rw [isNegative, toNat_ofPayload negative h]
  cases negative <;> simp [h]

/-! ## The whole part -/

private theorem unit_split {exponent : Nat} (h : exponent ≤ 1074) :
    unit = 2 ^ exponent * 2 ^ (1074 - exponent) := by
  obtain ⟨whole, hwhole⟩ : ∃ whole, whole = 1074 := ⟨_, rfl⟩
  rw [unit_eq hwhole, ← Nat.pow_add]
  congr 1
  omega

theorem magnitude_one : magnitude (leadingBit * 1023) = unit := by
  obtain ⟨exponent, hexponent⟩ : ∃ exponent, exponent = 1022 := ⟨_, rfl⟩
  have hpayload : leadingBit * 1023 = leadingBit * (exponent + 1) + 0 := by
    rw [hexponent, Nat.add_zero]
  have hleading : leadingBit = 2 ^ (1074 - exponent) := by
    rw [hexponent]
    decide
  rw [hpayload, magnitude_normal exponent (by decide), Nat.add_zero, hleading, Nat.mul_comm,
    ← unit_split (by omega)]

/-- Clearing the low bits of a payload clears them in the significand alone. -/
theorem clear_payload (field remainder : Nat) {low : Nat} (h : low ≤ 52) :
    (leadingBit * field + remainder) / 2 ^ low * 2 ^ low =
      leadingBit * field + remainder / 2 ^ low * 2 ^ low := by
  obtain ⟨high, hhigh⟩ : ∃ high, leadingBit = 2 ^ low * high :=
    ⟨2 ^ (52 - low), by
      rw [← Nat.pow_add, Nat.add_sub_cancel' h]
      decide⟩
  rw [hhigh, Nat.mul_assoc, Nat.mul_add_div (Nat.two_pow_pos low), Nat.add_mul,
    Nat.mul_comm (high * field)]

theorem magnitude_trunc {payload : Nat} (h : 1023 ≤ payload / leadingBit) :
    magnitude (payload / 2 ^ (1075 - payload / leadingBit) * 2 ^ (1075 - payload / leadingBit)) =
      magnitude payload / unit * unit := by
  have hremainder : payload % leadingBit < leadingBit := Nat.mod_lt _ (by decide)
  obtain ⟨exponent, hexponent⟩ : ∃ exponent, payload / leadingBit = exponent + 1 :=
    ⟨payload / leadingBit - 1, by omega⟩
  have hpayload := Nat.div_add_mod payload leadingBit
  rw [hexponent] at hpayload h ⊢
  generalize payload % leadingBit = remainder at hremainder hpayload
  subst hpayload
  have hlow : 1075 - (exponent + 1) ≤ 52 := by omega
  have hcleared : remainder / 2 ^ (1075 - (exponent + 1)) * 2 ^ (1075 - (exponent + 1)) <
      leadingBit := lt_of_le_of_lt (Nat.div_mul_le_self _ _) hremainder
  rw [clear_payload _ _ hlow, magnitude_normal exponent hcleared,
    magnitude_normal exponent hremainder]
  by_cases hwhole : exponent + 1 ≤ 1075
  · -- The unit is a power of two within the significand.
    have hclear := clear_payload 1 remainder hlow
    rw [Nat.mul_one] at hclear
    have hunit := unit_split (show exponent ≤ 1074 by omega)
    have hsame : 1075 - (exponent + 1) = 1074 - exponent := by omega
    rw [hsame] at hclear ⊢
    rw [hunit, Nat.mul_comm (2 ^ exponent) (2 ^ _),
      Nat.mul_div_mul_right _ _ (Nat.two_pow_pos exponent), ← hclear, Nat.mul_assoc]
  · -- The magnitude is a multiple of the unit already.
    obtain ⟨more, hmore⟩ : ∃ more, 2 ^ exponent = unit * 2 ^ more := by
      obtain ⟨low, hlow⟩ : ∃ low, low = 1074 := ⟨_, rfl⟩
      refine ⟨exponent - low, ?_⟩
      rw [unit_eq hlow, ← Nat.pow_add]
      congr 1
      omega
    have hnone : 1075 - (exponent + 1) = 0 := by omega
    have hdvd : unit ∣ (leadingBit + remainder) * 2 ^ exponent := by
      rw [hmore]
      exact Dvd.dvd.mul_left (Nat.dvd_mul_right _ _) _
    rw [hnone, Nat.div_mul_cancel hdvd, Nat.pow_zero, Nat.div_one, Nat.mul_one]

/-- The magnitude of a truncated decimal is the whole number of units in it. -/
theorem scaled_trunc (d : Decimal) : d.trunc.scaled = d.scaled / unit * unit := by
  have hsign := payload_lt d
  simp only [scaled_eq_magnitude, trunc]
  split_ifs with hfield
  · have hlt : magnitude d.payload < unit := by
      rw [← magnitude_one]
      exact magnitude_strictMono ((Nat.div_lt_iff_lt_mul (by decide)).1 hfield |>.trans_eq
        (Nat.mul_comm _ _))
    rw [payload_ofPayload _ (by decide), magnitude_zero, Nat.div_eq_of_lt hlt, Nat.zero_mul]
  · rw [payload_ofPayload _ (lt_of_le_of_lt (Nat.div_mul_le_self _ _) hsign)]
    exact magnitude_trunc (Nat.le_of_not_lt hfield)

@[simp] theorem isNegative_trunc (d : Decimal) : d.trunc.isNegative = d.isNegative := by
  have hsign := payload_lt d
  simp only [trunc]
  split_ifs
  · exact isNegative_ofPayload _ (by decide)
  · exact isNegative_ofPayload _ (lt_of_le_of_lt (Nat.div_mul_le_self _ _) hsign)

theorem payload_trunc_le (d : Decimal) : d.trunc.payload ≤ d.payload := by
  have hsign := payload_lt d
  simp only [trunc]
  split_ifs
  · simp [payload_ofPayload _ (show 0 < signBit by decide)]
  · rw [payload_ofPayload _ (lt_of_le_of_lt (Nat.div_mul_le_self _ _) hsign)]
    exact Nat.div_mul_le_self _ _

theorem isNaN_trunc {d : Decimal} (h : d.isNaN = false) : d.trunc.isNaN = false := by
  have hle := payload_trunc_le d
  simp only [isNaN, decide_eq_false_iff_not] at h ⊢
  omega

theorem isFinite_trunc {d : Decimal} (h : d.isFinite = true) : d.trunc.isFinite = true := by
  have hle := payload_trunc_le d
  simp only [isFinite, decide_eq_true_eq] at h ⊢
  omega

theorem truncated_trunc (d : Decimal) : d.trunc.truncated = d.truncated := by
  have hunit := unit_pos
  simp only [truncated, scaled_trunc, isNegative_trunc, Nat.mul_div_cancel _ hunit]

/-- A truncated decimal is the integer that truncation leaves. -/
theorem numerator_trunc (d : Decimal) : d.trunc.numerator = d.truncated * unit := by
  simp only [numerator, truncated, scaled_trunc, isNegative_trunc]
  split_ifs
  · rw [Int.natCast_mul, Int.neg_mul]
  · rw [Int.natCast_mul]

/-! ## Integers on either side -/

theorem truncated_eq_tdiv (d : Decimal) : d.truncated = d.numerator.tdiv unit := by
  unfold truncated numerator
  split_ifs
  · rw [Int.neg_tdiv, Int.ofNat_tdiv]
  · rw [Int.ofNat_tdiv]

/-- Dropping the fraction moves a decimal by less than one. -/
theorem numerator_bounds (d : Decimal) :
    (d.truncated - 1) * unit < d.numerator ∧ d.numerator < (d.truncated + 1) * unit := by
  have hunit : (0 : Int) < unit := Int.natCast_pos.2 unit_pos
  have hdivision := Int.tmod_add_tdiv_mul d.numerator unit
  have hhigh := Int.tmod_lt_of_pos d.numerator hunit
  have hlow := Int.lt_tmod_of_pos d.numerator hunit
  rw [Int.sub_mul, Int.add_mul, Int.one_mul, truncated_eq_tdiv]
  omega

theorem mul_unit_lt_numerator {i : Int} {d : Decimal} (h : i < d.truncated) :
    i * unit < d.numerator := by
  have hunit : (0 : Int) ≤ unit := Int.natCast_nonneg unit
  exact (Int.mul_le_mul_of_nonneg_right (by omega) hunit).trans_lt (numerator_bounds d).1

theorem numerator_lt_mul_unit {i : Int} {d : Decimal} (h : d.truncated < i) :
    d.numerator < i * unit := by
  have hunit : (0 : Int) ≤ unit := Int.natCast_nonneg unit
  exact (numerator_bounds d).2.trans_le (Int.mul_le_mul_of_nonneg_right (by omega) hunit)

/-- What is not finite is cut to an integer beyond sixty-four bits. -/
theorem lt_natAbs_truncated {d : Decimal} (h : d.isFinite = false) :
    2 ^ 63 < d.truncated.natAbs := by
  have hpayload : infinitePayload ≤ d.payload := by simpa [isFinite] using h
  have hbeyond := integer_lt_magnitude hpayload
  rw [← scaled_eq_magnitude] at hbeyond
  have habs : d.truncated.natAbs = d.scaled / unit := by
    unfold truncated
    split_ifs
    · rw [Int.natAbs_neg, Int.natAbs_natCast]
    · rw [Int.natAbs_natCast]
  rw [habs]
  exact lt_of_lt_of_le (by decide) ((Nat.le_div_iff_mul_le unit_pos).2 hbeyond.le)

end Decimal

end StackQuery
