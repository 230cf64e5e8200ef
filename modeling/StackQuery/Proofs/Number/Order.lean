import StackQuery.Number
import StackQuery.Proofs.Decimal.Subtraction

/-!
# Numbers are ordered by one integer key

Every number has a key: an integer counts in multiples of `1 / unit`, and a
decimal has its numerator.  The numerator is defined for every payload, those
of the infinities and of the values that are not numbers included, and it grows
with the payload.  So the four cases of the order of numbers are one comparison
of keys.
-/

namespace StackQuery

namespace Number

/-- The value of a number in multiples of `1 / unit`, beyond all integers if it is not finite. -/
def key : Number → Int
  | .integer i => i.toInt * Decimal.unit
  | .decimal d => d.numerator

/-- The bounds do not touch what is compared with an integer. -/
theorem compare_clamped (i : Int64) {d : Decimal} (h : d.isNaN = false) :
    compare i.toInt (d.clamped wideBounds.1 wideBounds.2) = compare i.toInt d.truncated := by
  have hlow := i.le_toInt
  have hhigh := i.toInt_lt
  simp only [Decimal.clamped, h, wideBounds]
  rw [if_neg (by decide)]
  rcases lt_trichotomy i.toInt d.truncated with hlt | heq | hgt
  · rw [compare_lt_iff_lt.2 hlt, compare_lt_iff_lt]
    omega
  · rw [← heq, max_eq_right (by omega), min_eq_right (by omega)]
  · rw [compare_gt_iff_gt.2 hgt, compare_gt_iff_gt]
    omega

/-- What is not finite lies beyond every integer, on the side of its sign. -/
theorem compare_key_of_not_finite (i : Int64) {d : Decimal} (h : d.isFinite = false) :
    compare (integer i).key (decimal d).key = if d.isNegative then .gt else .lt := by
  have hlow := i.le_toInt
  have hhigh := i.toInt_lt
  have hbeyond := Decimal.lt_natAbs_truncated h
  have htruncated : d.truncated =
      if d.isNegative then -((d.scaled / Decimal.unit : Nat) : Int)
      else (d.scaled / Decimal.unit : Nat) := rfl
  generalize d.scaled / Decimal.unit = whole at htruncated
  simp only [key]
  split_ifs at htruncated ⊢
  · exact compare_gt_iff_gt.2 (Decimal.numerator_lt_mul_unit (by omega))
  · exact compare_lt_iff_lt.2 (Decimal.mul_unit_lt_numerator (by omega))

/-- The whole part decides unless it is the integer, and then the fraction does. -/
theorem compareMixed_eq (i : Int64) (d : Decimal) :
    compareMixed i d = compare (integer i).key (decimal d).key := by
  have hlow := i.le_toInt
  have hhigh := i.toInt_lt
  by_cases hnan : d.isNaN = true
  · have hfinite : d.isFinite = false := Bool.eq_false_iff.2 fun hfinite =>
      Bool.false_ne_true ((Decimal.isNaN_eq_false hfinite).symm.trans hnan)
    rw [compare_key_of_not_finite i hfinite, compareMixed, if_pos hnan]
  rw [Bool.not_eq_true] at hnan
  simp only [compareMixed, hnan, compare_clamped i (Decimal.isNaN_trunc hnan),
    Decimal.truncated_trunc, key]
  rw [if_neg (by decide)]
  rcases lt_trichotomy i.toInt d.truncated with hlt | heq | hgt
  · rw [compare_lt_iff_lt.2 hlt, compare_lt_iff_lt.2 (Decimal.mul_unit_lt_numerator hlt)]
    rfl
  · have hfinite : d.isFinite = true := by
      by_contra hinfinite
      have hbeyond := Decimal.lt_natAbs_truncated (Bool.not_eq_true _ ▸ hinfinite)
      omega
    rw [Decimal.isPositive_sub hfinite (Decimal.isFinite_trunc hfinite),
      Decimal.isBelowZero_sub hfinite (Decimal.isFinite_trunc hfinite), Decimal.numerator_trunc,
      ← heq, compare_eq_iff_eq.2 rfl]
    simp only [Ordering.eq_then, decide_eq_true_eq]
    split_ifs with hless hgreater
    · exact (compare_lt_iff_lt.2 hless).symm
    · exact (compare_gt_iff_gt.2 hgreater).symm
    · exact (compare_eq_iff_eq.2 (by omega)).symm
  · rw [compare_gt_iff_gt.2 hgt, compare_gt_iff_gt.2 (Decimal.numerator_lt_mul_unit hgt)]
    rfl

/-- The order of numbers is the order of their keys. -/
theorem order_eq_compare_key (a b : Number) : a.order b = compare a.key b.key := by
  cases a with
  | integer x =>
      cases b with
      | integer y =>
          have hunit : (0 : Int) < Decimal.unit := Int.natCast_pos.2 Decimal.unit_pos
          have hmono : StrictMono fun i : Int => i * Decimal.unit := fun _ _ h =>
            Int.mul_lt_mul_of_pos_right h hunit
          rw [order, ← cmp_eq_compare, ← cmp_eq_compare]
          exact (hmono.cmp_map_eq x.toInt y.toInt).symm
      | decimal e => exact compareMixed_eq x e
  | decimal d =>
      cases b with
      | integer y => rw [order, compareMixed_eq, ← Std.OrientedCmp.eq_swap]
      | decimal e => exact Decimal.compare_orderKey d e

instance : Std.TransCmp Number.order where
  eq_swap {a b} := by
    rw [order_eq_compare_key, order_eq_compare_key]
    exact Std.OrientedCmp.eq_swap
  isLE_trans {a b c} := by
    rw [order_eq_compare_key, order_eq_compare_key, order_eq_compare_key]
    exact Std.TransCmp.isLE_trans

end Number

end StackQuery
