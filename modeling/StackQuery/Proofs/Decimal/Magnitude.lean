import Mathlib.Order.Monotone.Basic
import Mathlib.Tactic.Ring
import StackQuery.Decimal.Basic

/-!
# Magnitudes of decimals

The magnitude is defined for every payload, those of the infinities and of the
values that are not numbers included, and it grows with the payload.  So
decimals are ordered by their numerators, and what is not finite lies beyond
every integer.
-/

namespace StackQuery

namespace Decimal

/-! ## Magnitudes grow with the payload -/

/-- The magnitude that a payload stands for, in multiples of `1 / unit`. -/
def magnitude (payload : Nat) : Nat :=
  (if payload < leadingBit then payload else leadingBit + payload % leadingBit) *
    2 ^ (payload / leadingBit - 1)

theorem scaled_eq_magnitude (d : Decimal) : d.scaled = magnitude d.payload := rfl

private theorem leadingBit_pos : 0 < leadingBit := by decide

theorem magnitude_subnormal {remainder : Nat} (h : remainder < leadingBit) :
    magnitude remainder = remainder := by
  simp [magnitude, h, Nat.div_eq_of_lt h]

theorem magnitude_normal (exponent : Nat) {remainder : Nat} (h : remainder < leadingBit) :
    magnitude (leadingBit * (exponent + 1) + remainder) =
      (leadingBit + remainder) * 2 ^ exponent := by
  have hge : ¬ leadingBit * (exponent + 1) + remainder < leadingBit := by
    rw [Nat.mul_succ]
    omega
  unfold magnitude
  rw [if_neg hge, Nat.mul_add_mod, Nat.mod_eq_of_lt h, Nat.mul_add_div leadingBit_pos,
    Nat.div_eq_of_lt h, Nat.add_zero, Nat.add_sub_cancel]

/-- The next payload has the next significand, or the first one of the next exponent. -/
theorem magnitude_lt_succ (payload : Nat) : magnitude payload < magnitude (payload + 1) := by
  have hpos := leadingBit_pos
  have hlt : payload % leadingBit < leadingBit := Nat.mod_lt _ hpos
  rw [← Nat.div_add_mod payload leadingBit]
  generalize payload % leadingBit = remainder at hlt ⊢
  cases payload / leadingBit with
  | zero =>
      rw [Nat.mul_zero, Nat.zero_add, magnitude_subnormal hlt]
      by_cases hcarry : remainder + 1 < leadingBit
      · rw [magnitude_subnormal hcarry]
        omega
      · have hnext : remainder + 1 = leadingBit * (0 + 1) + 0 := by omega
        rw [hnext, magnitude_normal 0 hpos]
        simpa using hlt
  | succ exponent =>
      rw [magnitude_normal exponent hlt]
      by_cases hcarry : remainder + 1 < leadingBit
      · rw [Nat.add_assoc, magnitude_normal exponent hcarry]
        exact Nat.mul_lt_mul_of_pos_right (by omega) (Nat.two_pow_pos exponent)
      · -- The significand is used up: it doubles into the next exponent.
        have hnext : leadingBit * (exponent + 1) + remainder + 1 =
            leadingBit * (exponent + 1 + 1) + 0 := by
          rw [Nat.mul_succ leadingBit (exponent + 1)]
          omega
        rw [hnext, magnitude_normal (exponent + 1) hpos]
        calc
          (leadingBit + remainder) * 2 ^ exponent < leadingBit * 2 * 2 ^ exponent :=
            Nat.mul_lt_mul_of_pos_right (by omega) (Nat.two_pow_pos exponent)
          _ = (leadingBit + 0) * 2 ^ (exponent + 1) := by ring

theorem magnitude_strictMono : StrictMono magnitude :=
  strictMono_nat_of_lt_succ magnitude_lt_succ

@[simp] theorem magnitude_zero : magnitude 0 = 0 := magnitude_subnormal leadingBit_pos

theorem natAbs_numerator (d : Decimal) : d.numerator.natAbs = magnitude d.payload := by
  rw [← scaled_eq_magnitude, numerator]
  split_ifs
  · rw [Int.natAbs_neg, Int.natAbs_natCast]
  · rw [Int.natAbs_natCast]

theorem payload_eq_of_numerator_eq {a b : Decimal} (h : a.numerator = b.numerator) :
    a.payload = b.payload :=
  magnitude_strictMono.injective (by rw [← natAbs_numerator, ← natAbs_numerator, h])

/-! ## Decimals are ordered by their numerators -/

/-- The magnitude with the sign of the payload. -/
def signedMagnitude (key : Int) : Int :=
  if key < 0 then -(magnitude key.natAbs : Int) else magnitude key.natAbs

theorem signedMagnitude_lt {x y : Int} (h : x < y) : signedMagnitude x < signedMagnitude y := by
  unfold signedMagnitude
  split_ifs with hx hy hy
  · have := magnitude_strictMono (show y.natAbs < x.natAbs by omega)
    omega
  · have := magnitude_strictMono (show 0 < x.natAbs by omega)
    omega
  · omega
  · have := magnitude_strictMono (show x.natAbs < y.natAbs by omega)
    omega

theorem signedMagnitude_orderKey (d : Decimal) : signedMagnitude d.orderKey = d.numerator := by
  unfold signedMagnitude orderKey numerator
  rw [scaled_eq_magnitude]
  by_cases hneg : d.isNegative = true
  · rw [if_pos hneg, if_pos hneg, Int.natAbs_neg, Int.natAbs_natCast]
    split_ifs with hkey
    · rfl
    · have hzero : d.payload = 0 := by omega
      simp [hzero]
  · rw [if_neg hneg, if_neg hneg, Int.natAbs_natCast, if_neg (by omega)]

theorem compare_orderKey (a b : Decimal) :
    compare a.orderKey b.orderKey = compare a.numerator b.numerator := by
  have hmono : StrictMono signedMagnitude := fun _ _ => signedMagnitude_lt
  rw [← signedMagnitude_orderKey a, ← signedMagnitude_orderKey b, ← cmp_eq_compare,
    ← cmp_eq_compare, hmono.cmp_map_eq]

/-! ## What is not finite lies beyond every integer -/

/-- The exponent is a variable here, so that no tactic writes the power out. -/
theorem unit_eq {exponent : Nat} (h : exponent = 1074) : unit = 2 ^ exponent := by
  rw [← Nat.pow_eq]
  unfold unit
  congr 1
  exact h.symm

theorem unit_pos : 0 < unit := by
  obtain ⟨exponent, hexponent⟩ : ∃ exponent, exponent = 1074 := ⟨_, rfl⟩
  rw [unit_eq hexponent]
  exact Nat.two_pow_pos exponent

/-- No integer of sixty-four bits reaches the magnitude of a payload that is not finite. -/
theorem integer_lt_magnitude {payload : Nat} (h : infinitePayload ≤ payload) :
    2 ^ 64 * unit < magnitude payload := by
  obtain ⟨exponent, hexponent⟩ : ∃ exponent, exponent = 1074 := ⟨_, rfl⟩
  obtain ⟨last, hlast⟩ : ∃ last, last = 2046 := ⟨_, rfl⟩
  have hinfinite : infinitePayload = leadingBit * (last + 1) + 0 := by
    rw [hlast]
    decide
  calc
    2 ^ 64 * unit = 2 ^ (64 + exponent) := by rw [unit_eq hexponent, Nat.pow_add]
    _ < 2 ^ last := Nat.pow_lt_pow_right (by decide) (by omega)
    _ ≤ (leadingBit + 0) * 2 ^ last := Nat.le_mul_of_pos_left _ leadingBit_pos
    _ = magnitude infinitePayload := by
      rw [hinfinite, magnitude_normal last leadingBit_pos]
    _ ≤ magnitude payload := magnitude_strictMono.monotone h

end Decimal

end StackQuery
