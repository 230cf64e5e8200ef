import StackQuery.Proofs.Decimal.Packing

/-!
# The sign of a difference

The machine rounds a difference of two finite decimals, but never a difference
that is not zero to zero, and never across it.  So the sign of the rounded
difference tells how the two compare.
-/

namespace StackQuery

namespace Decimal

open Float.Model
open Float.Model.UnpackedFloat

/-! ## Rounding keeps what is not zero -/

private theorem targetExponent_eq (total : Int) :
    Format.binary64.targetExponent total = max (total - 53) (-1074) := by
  simp only [Format.targetExponent]
  rfl

theorem mantissa_shiftRight (em : ExtendedMantissa) (count : Nat) :
    (em >>> count).mantissa = em.mantissa / 2 ^ count := by
  induction count with
  | zero => simp [HShiftRight.hShiftRight, Nat.repeat]
  | succ count ih =>
      change (ExtendedMantissa.shiftRightOne (em >>> count)).mantissa = _
      rw [ExtendedMantissa.shiftRightOne, ih, Nat.div_div_eq_div_mul, ← Nat.pow_succ]

theorem mantissa_ofMantissaAndAccuracy (mantissa : Nat) (accuracy : Accuracy) :
    (ExtendedMantissa.ofMantissaAndAccuracy mantissa accuracy).mantissa = mantissa := by
  cases accuracy with
  | exact => rfl
  | inexact o => cases o <;> rfl

theorem le_roundedMantissa (em : ExtendedMantissa) : em.mantissa ≤ em.roundedMantissa := by
  unfold ExtendedMantissa.roundedMantissa
  cases em.accuracy with
  | exact => exact Nat.le_refl _
  | inexact o => cases o <;> simp [Accuracy.roundToNearestEven]

/-- Moved to its target exponent, a significand is not zero and has at most fifty-three bits. -/
theorem shiftToTargetExponent_bounds {mantissa : Nat} (hpos : 0 < mantissa) {exponent : Int}
    (hexponent : -1074 ≤ exponent) (accuracy : Accuracy) :
    let shifted := shiftToTargetExponent Format.binary64 mantissa exponent accuracy
    0 < shifted.1.mantissa ∧ shifted.1.mantissa < 2 * leadingBit ∧ -1074 ≤ shifted.2 := by
  have hlower := Nat.log2_self_le hpos.ne'
  have hupper := @Nat.lt_log2_self mantissa
  have hdouble : 2 * leadingBit = 2 ^ 53 := by decide
  simp only [shiftToTargetExponent, shiftToExponent, mantissa_shiftRight,
    mantissa_ofMantissaAndAccuracy, targetExponent_eq, totalExponent, hdouble]
  generalize mantissa.log2 = length at hlower hupper ⊢
  by_cases hlength : 52 ≤ length
  · -- The bits below the leading fifty-three are dropped.
    obtain ⟨low, rfl⟩ := Nat.exists_eq_add_of_le hlength
    have hshift : (max (((52 + low : Nat) : Int) + 1 + exponent - 53) (-1074) - exponent).toNat =
        low := by omega
    rw [hshift]
    refine ⟨Nat.div_pos ?_ (Nat.two_pow_pos low), ?_, by omega⟩
    · exact (Nat.pow_le_pow_right (by decide) (by omega)).trans hlower
    · rw [Nat.div_lt_iff_lt_mul (Nat.two_pow_pos low), ← Nat.pow_add]
      exact hupper.trans_eq (by congr 1; omega)
  · have hshift : (max ((length : Int) + 1 + exponent - 53) (-1074) - exponent).toNat = 0 := by
      omega
    rw [hshift, Nat.pow_zero, Nat.div_one]
    exact ⟨hpos, hupper.trans_le (Nat.pow_le_pow_right (by decide) (by omega)), by omega⟩

theorem roundWithAccuracy_of_pos (s : Sign) {mantissa : Nat} (hpos : 0 < mantissa)
    {exponent : Int} (hexponent : -1074 ≤ exponent) (accuracy : Accuracy) :
    ∃ rounded target hrounded,
      roundWithAccuracy Format.binary64 s mantissa exponent accuracy =
          .finite s rounded target hrounded ∧
        rounded < 2 * leadingBit ∧ -1074 ≤ target := by
  have hfirst := shiftToTargetExponent_bounds hpos hexponent accuracy
  unfold roundWithAccuracy
  generalize shiftToTargetExponent Format.binary64 mantissa exponent accuracy = first at hfirst ⊢
  obtain ⟨hkept, -, hraised⟩ := hfirst
  -- Rounding may carry into another bit, which is shifted out once more.
  have hsecond := shiftToTargetExponent_bounds (hkept.trans_le (le_roundedMantissa first.1))
    hraised .exact
  obtain ⟨hrounded, hlt, htarget⟩ := hsecond
  exact ⟨_, _, hrounded, dif_neg hrounded.ne', hlt, htarget⟩

theorem round_of_pos (s : Sign) {mantissa : Nat} (hpos : 0 < mantissa) {exponent : Int}
    (hexponent : -1074 ≤ exponent) :
    ∃ rounded target hrounded,
      round Format.binary64 s mantissa exponent = .finite s rounded target hrounded ∧
        rounded < 2 * leadingBit ∧ -1074 ≤ target := by
  rw [UnpackedFloat.round, targetExponent_eq]
  apply roundWithAccuracy_of_pos
  · rw [Nat.shiftLeft_eq]
    exact Nat.mul_pos hpos (Nat.two_pow_pos _)
  · omega

/-! ## Unpacked floats that have the sign of an integer -/

/-- Zero for zero, and otherwise a significand with the sign of the integer, that can be packed. -/
inductive Signs : UnpackedFloat → Int → Prop
  | zero (negative : Bool) : Signs (.zero (sign negative)) 0
  | finite {negative : Bool} {significand : Nat} {exponent x : Int} {hpos : 0 < significand}
      (hlt : significand < 2 * leadingBit) (hexponent : -1074 ≤ exponent)
      (hsign : if negative then x < 0 else 0 < x) :
      Signs (.finite (sign negative) significand exponent hpos) x

theorem Signs.of_mul {u : UnpackedFloat} {x c : Int} (hc : 0 < c) (h : Signs u x) :
    Signs u (x * c) := by
  cases h with
  | zero negative =>
      rw [Int.zero_mul]
      exact .zero negative
  | finite hlt hexponent hsign =>
      refine .finite hlt hexponent ?_
      split_ifs at hsign ⊢
      · exact Int.mul_neg_of_neg_of_pos hsign hc
      · exact Int.mul_pos hsign hc

theorem signs_normalize (x : Int) {exponent : Int} (hexponent : -1074 ≤ exponent) :
    Signs (UnpackedFloat.normalize Format.binary64 x exponent .positive) x := by
  unfold UnpackedFloat.normalize
  split
  · rename_i hneg
    have hlt : x < 0 := compare_lt_iff_lt.1 hneg
    obtain ⟨_, _, _, hround, hbound, htarget⟩ :=
      round_of_pos .negative (show 0 < (-x).toNat by omega) hexponent
    rw [hround]
    exact @Signs.finite true _ _ _ _ hbound htarget hlt
  · rename_i hzero
    have heq : x = 0 := compare_eq_iff_eq.1 hzero
    subst heq
    exact .zero false
  · rename_i hpos
    have hgt : 0 < x := compare_gt_iff_gt.1 hpos
    obtain ⟨_, _, _, hround, hbound, htarget⟩ :=
      round_of_pos .positive (show 0 < x.toNat by omega) hexponent
    rw [hround]
    exact @Signs.finite false _ _ _ _ hbound htarget hgt

theorem sign_ofPayload (negative : Bool) {payload : Nat} (h : payload ≤ infinitePayload) :
    (ofPayload negative payload).isNaN = false ∧
      (ofPayload negative payload).isPositive = (!negative && decide (0 < payload)) ∧
      (ofPayload negative payload).isBelowZero = (negative && decide (0 < payload)) := by
  have hlt : payload < signBit := h.trans_lt (by decide)
  have hnan : (ofPayload negative payload).isNaN = false := by
    simpa [isNaN, payload_ofPayload negative hlt] using h
  simp [isPositive, isBelowZero, hnan, isZero, payload_ofPayload negative hlt,
    isNegative_ofPayload negative hlt, Nat.pos_iff_ne_zero]

/-- A packed decimal has the sign of the integer. -/
theorem Signs.packed {u : UnpackedFloat} {x : Int} (h : Signs u x) :
    (packed u).isNaN = false ∧ (packed u).isPositive = decide (0 < x) ∧
      (packed u).isBelowZero = decide (x < 0) := by
  cases h with
  | zero negative =>
      rw [packed_zero]
      simpa using sign_ofPayload negative (Nat.zero_le infinitePayload)
  | @finite negative significand exponent _ hpos hlt hexponent hsign =>
      obtain ⟨payload, hpayload, hle, hnonzero⟩ : ∃ payload,
          Decimal.packed (.finite (sign negative) significand exponent hpos) =
            ofPayload negative payload ∧ payload ≤ infinitePayload ∧ 0 < payload := by
        refine ⟨_, packed_finite negative hpos hlt hexponent, ?_, ?_⟩
        · have hfraction : significand % leadingBit < leadingBit := Nat.mod_lt _ (by decide)
          split_ifs <;> simp only [infinitePayload, leadingBit] at * <;> omega
        · split_ifs <;> simp only [infinitePayload, leadingBit] at * <;> omega
      rw [hpayload]
      have hofPayload := sign_ofPayload negative hle
      cases negative with
      | true =>
          have hneg : x < 0 := hsign
          simpa [hnonzero, hneg, hneg.not_gt] using hofPayload
      | false =>
          have hgt : 0 < x := hsign
          simpa [hnonzero, hgt, hgt.not_gt] using hofPayload

/-! ## Differences -/

theorem numerator_zero {d : Decimal} (h : d.payload = 0) : d.numerator = 0 := by
  simp [numerator, scaled_eq_magnitude, h]

theorem signs_unpacked {d : Decimal} (h : d.isFinite = true) : Signs d.unpacked d.numerator := by
  rcases Nat.eq_zero_or_pos d.payload with hzero | hpos
  · rw [unpacked_zero hzero, numerator_zero hzero]
    exact .zero _
  · have hscaled : 0 < d.scaled := by
      rw [scaled_eq_magnitude, ← magnitude_zero]
      exact magnitude_strictMono hpos
    rw [unpacked_finite h (significand_pos hpos)]
    refine .finite (significand_lt d) (by omega) ?_
    unfold numerator
    split_ifs <;> omega

theorem Signs.neg {u : UnpackedFloat} {x : Int} (h : Signs u x) : Signs u.neg (-x) := by
  have hsign (negative : Bool) : -sign negative = sign (!negative) := by
    cases negative <;> rfl
  cases h with
  | zero negative =>
      change Signs (.zero (-sign negative)) _
      rw [hsign]
      exact .zero _
  | @finite negative _ _ _ _ hlt hexponent hx =>
      change Signs (.finite (-sign negative) _ _ _) _
      rw [hsign]
      refine .finite hlt hexponent ?_
      cases negative
      · have hpos : 0 < x := hx
        exact Int.neg_neg_of_pos hpos
      · have hneg : x < 0 := hx
        exact Int.neg_pos_of_neg hneg

/-- The significand brought to a lower exponent counts the same magnitude. -/
theorem apply_shiftLeft (d : Decimal) {low : Nat} (h : low ≤ d.exponent) :
    (sign d.isNegative).apply ((d.significand <<< (d.exponent - low) : Nat) : Int) *
      ((2 ^ low : Nat) : Int) = d.numerator := by
  have hscaled : d.significand <<< (d.exponent - low) * 2 ^ low = d.scaled := by
    rw [Nat.shiftLeft_eq, Nat.mul_assoc, ← Nat.pow_add, Nat.sub_add_cancel h]
    rfl
  rw [numerator, ← hscaled]
  cases d.isNegative <;> simp [sign, Sign.apply]

/-- Both significands are brought to the lower exponent, where the difference is exact. -/
theorem signs_sub {a b : Decimal} (ha : a.isFinite = true) (hb : b.isFinite = true) :
    Signs (UnpackedFloat.sub Format.binary64 a.unpacked b.unpacked)
      (a.numerator - b.numerator) := by
  have hsigna := signs_unpacked ha
  have hsignb := signs_unpacked hb
  rcases Nat.eq_zero_or_pos a.payload with ha0 | ha0
  · rw [numerator_zero ha0, unpacked_zero ha0, Int.zero_sub]
    rcases Nat.eq_zero_or_pos b.payload with hb0 | hb0
    · rw [numerator_zero hb0, unpacked_zero hb0]
      delta UnpackedFloat.sub
      dsimp only
      split_ifs
      · exact .zero _
      · exact .zero false
    · have hneg := hsignb.neg
      rw [unpacked_finite hb (significand_pos hb0)] at hneg ⊢
      exact hneg
  · rcases Nat.eq_zero_or_pos b.payload with hb0 | hb0
    · rw [unpacked_finite ha (significand_pos ha0)] at hsigna ⊢
      rw [numerator_zero hb0, Int.sub_zero, unpacked_zero hb0]
      exact hsigna
    · obtain ⟨low, hlow⟩ : ∃ low, min a.exponent b.exponent = low := ⟨_, rfl⟩
      have hmin : min ((a.exponent : Int) - 1074) ((b.exponent : Int) - 1074) =
          (low : Int) - 1074 := by omega
      have hshifta : ((a.exponent : Int) - 1074 - ((low : Int) - 1074)).toNat =
          a.exponent - low := by omega
      have hshiftb : ((b.exponent : Int) - 1074 - ((low : Int) - 1074)).toNat =
          b.exponent - low := by omega
      rw [← apply_shiftLeft a (by omega : low ≤ a.exponent),
        ← apply_shiftLeft b (by omega : low ≤ b.exponent), ← Int.sub_mul,
        unpacked_finite ha (significand_pos ha0), unpacked_finite hb (significand_pos hb0)]
      delta UnpackedFloat.sub
      dsimp only
      simp only [decreaseExponent, hmin, hshifta, hshiftb]
      exact (signs_normalize _ (by omega)).of_mul
        (Int.natCast_pos.2 (Nat.two_pow_pos low))

theorem ofFloat_pack (u : UnpackedFloat) :
    ofFloat ⟨Float.Model.pack u⟩ = if (packed u).isNaN then nan true else packed u := by
  rw [← isNaN_unpacked]
  rfl

theorem unpack_toFloat {d : Decimal} (h : d.isFinite = true) :
    d.toFloat.toModel.unpack = d.unpacked := by
  change (packed d.unpacked).unpacked = d.unpacked
  rw [packed_unpacked h]

theorem isNaN_eq_false {d : Decimal} (h : d.isFinite = true) : d.isNaN = false := by
  simp only [isFinite, isNaN, decide_eq_true_eq, decide_eq_false_iff_not] at h ⊢
  omega

theorem sub_eq_packed {a b : Decimal} (ha : a.isFinite = true) (hb : b.isFinite = true) :
    a.sub b = packed (UnpackedFloat.sub Format.binary64 a.unpacked b.unpacked) := by
  have hsub : a.toFloat - b.toFloat =
      ⟨Float.Model.pack (UnpackedFloat.sub Format.binary64 a.unpacked b.unpacked)⟩ := by
    rw [← unpack_toFloat ha, ← unpack_toFloat hb]
    rfl
  rw [sub, binary, isNaN_eq_false ha, isNaN_eq_false hb, if_neg (by decide), if_neg (by decide),
    hsub, ofFloat_pack, (signs_sub ha hb).packed.1, if_neg (by decide)]

/-- The difference of two finite decimals is positive exactly for a greater first one. -/
theorem isPositive_sub {a b : Decimal} (ha : a.isFinite = true) (hb : b.isFinite = true) :
    (a.sub b).isPositive = decide (b.numerator < a.numerator) := by
  rw [sub_eq_packed ha hb, (signs_sub ha hb).packed.2.1, Bool.decide_congr sub_pos]

/-- The difference of two finite decimals is below zero exactly for a lesser first one. -/
theorem isBelowZero_sub {a b : Decimal} (ha : a.isFinite = true) (hb : b.isFinite = true) :
    (a.sub b).isBelowZero = decide (a.numerator < b.numerator) := by
  rw [sub_eq_packed ha hb, (signs_sub ha hb).packed.2.2, Bool.decide_congr sub_neg]

end Decimal

end StackQuery
