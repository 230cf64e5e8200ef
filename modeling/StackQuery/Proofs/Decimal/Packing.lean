import StackQuery.Decimal.Arithmetic
import StackQuery.Proofs.Decimal.Truncation

/-!
# Decimals as unpacked floats

The machine computes on floats that are unpacked into a sign, a significand and
an exponent.  For finite decimals these are the parts that the payload is read
as, and packing an unpacked float gives the sign and a payload again.
-/

namespace StackQuery

namespace Decimal

open Float.Model
open Float.Model.UnpackedFloat

def sign (negative : Bool) : Sign := if negative then .negative else .positive

/-- The bits of a decimal as the machine takes them. -/
def word (d : Decimal) : BitVec Format.binary64.numBits := d.bits.toBitVec

def unpacked (d : Decimal) : UnpackedFloat := unpack Format.binary64 d.word

def packed (u : UnpackedFloat) : Decimal := ⟨⟨pack Format.binary64 u⟩⟩

/-! ## The fields of the word -/

theorem toNat_unpackMantissa (d : Decimal) :
    (unpackMantissa d.word).toNat = d.payload % leadingBit := by
  simp only [unpackMantissa, BitVec.toNat_cast, BitVec.extractLsb_toNat, word, payload, signBit,
    leadingBit, UInt64.toNat_toBitVec]
  omega

theorem toNat_unpackExponent (d : Decimal) :
    (unpackExponent d.word).toNat = d.payload / leadingBit := by
  have hlt := d.bits.toNat_lt
  simp only [unpackExponent, BitVec.toNat_cast, BitVec.extractLsb_toNat, word, payload, signBit,
    leadingBit, UInt64.toNat_toBitVec, Nat.shiftRight_eq_div_pow]
  omega

theorem ofBitVec_unpackSign (d : Decimal) :
    Sign.ofBitVec (unpackSign d.word) = sign d.isNegative := by
  have hlt := d.bits.toNat_lt
  have hsign : (unpackSign d.word).toNat = d.bits.toNat / 2 ^ 63 := by
    delta unpackSign
    simp only [BitVec.toNat_cast, BitVec.extractLsb_toNat, word, UInt64.toNat_toBitVec,
      Nat.shiftRight_eq_div_pow]
    omega
  have hzero : unpackSign d.word = 0#1 ↔ ¬ signBit ≤ d.bits.toNat := by
    rw [BitVec.toNat_eq, hsign]
    simp [signBit]
  by_cases h : signBit ≤ d.bits.toNat <;>
    simp [Sign.ofBitVec, hzero, isNegative, sign, h]

theorem ofPayload_eq (d : Decimal) : ofPayload d.isNegative d.payload = d := by
  have hlt := d.bits.toNat_lt
  apply congrArg Decimal.mk
  apply UInt64.toNat_inj.1
  change (ofPayload d.isNegative d.payload).bits.toNat = d.bits.toNat
  rw [toNat_ofPayload _ (payload_lt d)]
  by_cases h : signBit ≤ d.bits.toNat
  · simp only [isNegative, payload, h, decide_true, if_true]
    simp only [signBit] at h ⊢
    omega
  · simp [isNegative, payload, h, Nat.mod_eq_of_lt (Nat.lt_of_not_le h)]

/-- A word that is put together from its fields. -/
theorem packComponents_eq (negative : Bool) (exponent : BitVec 11) (fraction : BitVec 52) :
    (⟨⟨packComponents Format.binary64 (sign negative) exponent fraction⟩⟩ : Decimal) =
      ofPayload negative (leadingBit * exponent.toNat + fraction.toNat) := by
  have hexponent := exponent.isLt
  have hfraction := fraction.isLt
  have hpayload : leadingBit * exponent.toNat + fraction.toNat < signBit := by
    simp only [leadingBit, signBit]
    omega
  apply congrArg Decimal.mk
  apply UInt64.toNat_inj.1
  change _ = (ofPayload negative _).bits.toNat
  rw [toNat_ofPayload _ hpayload]
  change ((sign negative).toBitVec ++ exponent ++ fraction).toNat = _
  rw [BitVec.toNat_append, ← Nat.shiftLeft_add_eq_or_of_lt hfraction, BitVec.toNat_append,
    ← Nat.shiftLeft_add_eq_or_of_lt hexponent]
  cases negative <;> simp [sign, Sign.toBitVec, Nat.shiftLeft_eq, leadingBit, signBit] <;> omega

/-! ## Unpacking -/

theorem unpackExponent_eq_ones (d : Decimal) :
    unpackExponent d.word = -1#11 ↔ d.payload / leadingBit = 2047 := by
  rw [← toNat_unpackExponent, BitVec.toNat_eq]
  rfl

theorem unpackExponent_eq_zero (d : Decimal) :
    unpackExponent d.word = 0#11 ↔ d.payload / leadingBit = 0 := by
  rw [← toNat_unpackExponent, BitVec.toNat_eq]
  rfl

theorem unpackMantissa_eq_zero (d : Decimal) :
    unpackMantissa d.word = 0#52 ↔ d.payload % leadingBit = 0 := by
  rw [← toNat_unpackMantissa, BitVec.toNat_eq]
  rfl

theorem isNaN_iff (d : Decimal) :
    d.isNaN = true ↔ d.payload / leadingBit = 2047 ∧ d.payload % leadingBit ≠ 0 := by
  have hlt := payload_lt d
  rw [isNaN, decide_eq_true_eq]
  simp only [infinitePayload, leadingBit, signBit] at hlt ⊢
  omega

theorem isFinite_iff (d : Decimal) : d.isFinite = true ↔ d.payload / leadingBit < 2047 := by
  rw [isFinite, decide_eq_true_eq]
  simp only [infinitePayload, leadingBit]
  omega

private theorem finite_congr {s s' : Sign} {m m' : Nat} {e e' : Int} {hm : 0 < m} {hm' : 0 < m'}
    (hsign : s = s') (hmantissa : m = m') (hexponent : e = e') :
    UnpackedFloat.finite s m e hm = .finite s' m' e' hm' := by
  subst hsign hmantissa hexponent
  rfl

theorem isNaN_unpacked (d : Decimal) : d.unpacked.isNaN = d.isNaN := by
  rw [Bool.eq_iff_iff, isNaN_iff, unpacked]
  -- The machine's definitions are opened in place, so that no equations of them are kept here.
  delta UnpackedFloat.unpack
  dsimp only
  by_cases hexponent : d.payload / leadingBit = 2047
  · rw [if_pos ((unpackExponent_eq_ones d).2 hexponent)]
    by_cases hfraction : d.payload % leadingBit = 0
    · rw [if_pos ((unpackMantissa_eq_zero d).2 hfraction)]
      exact iff_of_false Bool.false_ne_true fun h => h.2 hfraction
    · rw [if_neg (mt (unpackMantissa_eq_zero d).1 hfraction)]
      exact iff_of_true rfl ⟨hexponent, hfraction⟩
  · rw [if_neg (mt (unpackExponent_eq_ones d).1 hexponent)]
    refine iff_of_false ?_ fun h => hexponent h.1
    by_cases hsubnormal : unpackExponent d.word = 0#11
    · rw [if_pos hsubnormal]
      by_cases hfraction : unpackMantissa d.word = 0#52
      · rw [dif_pos hfraction]
        exact Bool.false_ne_true
      · rw [dif_neg hfraction]
        exact Bool.false_ne_true
    · rw [if_neg hsubnormal]
      exact Bool.false_ne_true

theorem unpacked_zero {d : Decimal} (h : d.payload = 0) :
    d.unpacked = .zero (sign d.isNegative) := by
  have hones := mt (unpackExponent_eq_ones d).1 (by simp [h])
  have hexponent := (unpackExponent_eq_zero d).2 (by simp [h])
  have hfraction := (unpackMantissa_eq_zero d).2 (by simp [h])
  rw [unpacked]
  delta UnpackedFloat.unpack
  dsimp only
  rw [if_neg hones, if_pos hexponent, dif_pos hfraction, ofBitVec_unpackSign]

theorem unpacked_finite {d : Decimal} (h : d.isFinite = true) (hpos : 0 < d.significand) :
    d.unpacked = .finite (sign d.isNegative) d.significand ((d.exponent : Int) - 1074) hpos := by
  have hbias : ((Format.binary64.exponentBias : Nat) : Int) = 1023 := rfl
  have hbits : ((Format.binary64.mantissaBitsWithoutImplicit : Nat) : Int) = 52 := rfl
  have hones := mt (unpackExponent_eq_ones d).1 (by have := (isFinite_iff d).1 h; omega)
  rw [unpacked]
  delta UnpackedFloat.unpack
  dsimp only
  rw [if_neg hones]
  by_cases hsubnormal : d.payload < leadingBit
  · have hsignificand : d.significand = d.payload := if_pos hsubnormal
    have hfield := Nat.div_eq_of_lt hsubnormal
    have hfraction := mt (unpackMantissa_eq_zero d).1
      (by rw [Nat.mod_eq_of_lt hsubnormal]; omega)
    rw [if_pos ((unpackExponent_eq_zero d).2 hfield), dif_neg hfraction]
    refine finite_congr (ofBitVec_unpackSign d) ?_ ?_
    · rw [toNat_unpackMantissa, hsignificand, Nat.mod_eq_of_lt hsubnormal]
    · rw [toNat_unpackExponent, exponent, hfield]
      omega
  · have hsignificand : d.significand = leadingBit + d.payload % leadingBit := if_neg hsubnormal
    have hfield : 0 < d.payload / leadingBit :=
      Nat.div_pos (Nat.le_of_not_lt hsubnormal) (by decide)
    have hone : (1#1 ++ unpackMantissa d.word).toNat = leadingBit + d.payload % leadingBit := by
      rw [BitVec.toNat_append, ← Nat.shiftLeft_add_eq_or_of_lt (unpackMantissa d.word).isLt,
        toNat_unpackMantissa]
      rfl
    rw [if_neg (mt (unpackExponent_eq_zero d).1 (by omega))]
    refine finite_congr (ofBitVec_unpackSign d) (hone.trans hsignificand.symm) ?_
    rw [toNat_unpackExponent, exponent]
    omega

/-! ## Packing -/

theorem packed_zero (negative : Bool) : packed (.zero (sign negative)) = ofPayload negative 0 :=
  packComponents_eq negative 0 0

/-- What is packed without its leading bit, or is infinity if the exponent is too great. -/
theorem packed_finite (negative : Bool) {significand : Nat} {exponent : Int}
    (hpos : 0 < significand) (hlt : significand < 2 * leadingBit) (hexponent : -1074 ≤ exponent) :
    packed (.finite (sign negative) significand exponent hpos) =
      ofPayload negative
        (if 2047 ≤ (exponent + 1075).toNat then infinitePayload
        else if significand < leadingBit then significand
        else leadingBit * (exponent + 1075).toNat + significand % leadingBit) := by
  have hfield : (exponent + (Format.binary64.exponentBias : Int) +
      (Format.binary64.mantissaBitsWithoutImplicit : Int)).toNat = (exponent + 1075).toNat := by
    change (exponent + 1023 + 52).toNat = _
    omega
  have hlog : significand.log2 + 1 = Format.binary64.mantissaBits ↔ leadingBit ≤ significand := by
    have hlower := Nat.le_log2 (n := significand) (k := 52) (by omega)
    have hupper := Nat.log2_lt (n := significand) (k := 53) (by omega)
    change significand.log2 + 1 = 53 ↔ _
    simp only [leadingBit] at hlt ⊢
    omega
  rw [packed]
  delta UnpackedFloat.pack
  dsimp only
  rw [hfield]
  generalize (exponent + 1075).toNat = field
  by_cases hinfinite : 2047 ≤ field
  · rw [if_pos hinfinite, if_pos (by change 2048 ≤ field + 1; omega)]
    exact packComponents_eq negative (-1#11) 0
  · rw [if_neg hinfinite, if_neg (by change ¬ 2048 ≤ field + 1; omega)]
    by_cases hsubnormal : significand < leadingBit
    · rw [if_pos hsubnormal, if_neg (mt hlog.1 (by omega))]
      refine (packComponents_eq negative 0 (BitVec.ofNat 52 significand)).trans ?_
      simp only [leadingBit] at hsubnormal
      simp [Nat.mod_eq_of_lt hsubnormal]
    · rw [if_neg hsubnormal, if_pos (hlog.2 (by omega))]
      refine (packComponents_eq negative (BitVec.ofNat 11 field)
        (BitVec.ofNat 52 significand)).trans ?_
      simp [Nat.mod_eq_of_lt (show field < 2048 by omega), leadingBit]

theorem significand_lt (d : Decimal) : d.significand < 2 * leadingBit := by
  have hlt : d.payload % leadingBit < leadingBit := Nat.mod_lt _ (by decide)
  unfold significand
  split_ifs <;> omega

theorem significand_pos {d : Decimal} (h : 0 < d.payload) : 0 < d.significand := by
  have hleading : 0 < leadingBit := by decide
  unfold significand
  split_ifs <;> omega

/-- A finite decimal is packed from its parts without loss. -/
theorem packed_unpacked {d : Decimal} (h : d.isFinite = true) : packed d.unpacked = d := by
  rcases Nat.eq_zero_or_pos d.payload with hzero | hpos
  · rw [unpacked_zero hzero, packed_zero, ← hzero, ofPayload_eq]
  · have hfield := (isFinite_iff d).1 h
    have hexponent : ((d.exponent : Int) - 1074 + 1075).toNat = d.exponent + 1 := by omega
    rw [unpacked_finite h (significand_pos hpos),
      packed_finite _ _ (significand_lt d) (by omega), hexponent, exponent, if_neg (by omega)]
    by_cases hsubnormal : d.payload < leadingBit
    · have hsignificand : d.significand = d.payload := if_pos hsubnormal
      rw [if_pos (by omega), hsignificand, ofPayload_eq]
    · have hsignificand : d.significand = leadingBit + d.payload % leadingBit :=
        if_neg hsubnormal
      have hnormal : 0 < d.payload / leadingBit :=
        Nat.div_pos (Nat.le_of_not_lt hsubnormal) (by decide)
      rw [if_neg (by omega), hsignificand, Nat.add_mod_left, Nat.mod_mod,
        Nat.sub_add_cancel hnormal, Nat.div_add_mod, ofPayload_eq]

end Decimal

end StackQuery
