import StackQuery.Proofs.Decimal.Rounding
import StackQuery.Proofs.Number.Order

/-!
# Equal numbers are converted alike

Two numbers are equal if their keys are.  Equal decimals have the same payload,
and a decimal that is equal to an integer is finite and has no fraction.  So the
integers that equal numbers are cut to are identical, and the decimals that they
are rounded to are equal.
-/

namespace StackQuery

namespace Number

variable {m n : Number}

theorem order_eq_iff (m n : Number) : m.order n = .eq ↔ m.key = n.key := by
  rw [order_eq_compare_key, compare_eq_iff_eq]

theorem integer_eq_of_key {i j : Int64} (h : (integer i).key = (integer j).key) : i = j := by
  have hunit : (Decimal.unit : Int) ≠ 0 := (Int.natCast_pos.2 Decimal.unit_pos).ne'
  exact Int64.toInt_inj.1 (mul_right_cancel₀ hunit h)

/-- A decimal that is equal to an integer is finite, and cut to that integer. -/
theorem isFinite_of_key {i : Int64} {d : Decimal} (h : (integer i).key = (decimal d).key) :
    d.isFinite = true ∧ d.truncated = i.toInt := by
  constructor
  · by_contra hinfinite
    have hbeyond := compare_key_of_not_finite i (Bool.not_eq_true _ ▸ hinfinite)
    rw [compare_eq_iff_eq.2 h] at hbeyond
    split_ifs at hbeyond
  · rw [Decimal.truncated_eq_tdiv]
    have hunit : (Decimal.unit : Int) ≠ 0 := (Int.natCast_pos.2 Decimal.unit_pos).ne'
    change (decimal d).key.tdiv _ = _
    rw [← h]
    exact Int.mul_tdiv_cancel _ hunit

theorem truncate?_decimal {d : Decimal} (h : d.isFinite = true) :
    truncate? (decimal d) = some (Int64.ofInt
      (max Int64.minValue.toInt (min Int64.maxValue.toInt d.truncated))) := by
  have hwhole := Decimal.isNaN_eq_false (Decimal.isFinite_trunc h)
  simp only [truncate?, h, if_true, Decimal.clamped, hwhole, Decimal.truncated_trunc]
  rfl

theorem truncate?_eq_of_key {i : Int64} {d : Decimal} (h : (integer i).key = (decimal d).key) :
    truncate? (decimal d) = some i := by
  obtain ⟨hfinite, htruncated⟩ := isFinite_of_key h
  have hlow := i.le_toInt
  have hhigh := i.toInt_lt
  have hmin : Int64.minValue.toInt = -2 ^ 63 := rfl
  have hmax : Int64.maxValue.toInt = 2 ^ 63 - 1 := rfl
  rw [truncate?_decimal hfinite, htruncated, min_eq_right (by omega), max_eq_right (by omega),
    Int64.ofInt_toInt]

/-- Equal numbers are cut to the same integer, or both to none. -/
theorem truncate?_eq_of_order (h : m.order n = .eq) : m.truncate? = n.truncate? := by
  rw [order_eq_iff] at h
  cases m with
  | integer i =>
      cases n with
      | integer j => rw [integer_eq_of_key h]
      | decimal e => rw [truncate?_eq_of_key h, truncate?]
  | decimal d =>
      cases n with
      | integer j => rw [truncate?_eq_of_key h.symm, truncate?]
      | decimal e =>
          have hnumerator : d.numerator = e.numerator := h
          have hfinite : d.isFinite = e.isFinite := by
            simp only [Decimal.isFinite, Decimal.payload_eq_of_numerator_eq hnumerator]
          have htruncated : d.truncated = e.truncated := by
            rw [Decimal.truncated_eq_tdiv, Decimal.truncated_eq_tdiv, hnumerator]
          cases he : e.isFinite with
          | true =>
              rw [truncate?_decimal (hfinite.trans he), truncate?_decimal he, htruncated]
          | false => simp [truncate?, hfinite, he]

/-- Equal numbers are rounded to equal decimals. -/
theorem toDecimal_eq_of_order (h : m.order n = .eq) :
    (decimal m.toDecimal).order (decimal n.toDecimal) = .eq := by
  rw [order_eq_iff] at h ⊢
  cases m with
  | integer i =>
      cases n with
      | integer j => rw [integer_eq_of_key h]
      | decimal e => exact Decimal.numerator_ofInt (isFinite_of_key h).1 h
  | decimal d =>
      cases n with
      | integer j => exact (Decimal.numerator_ofInt (isFinite_of_key h.symm).1 h.symm).symm
      | decimal e => exact h

end Number

end StackQuery
