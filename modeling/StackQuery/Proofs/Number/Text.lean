import Mathlib.Data.List.Basic
import StackQuery.Number

/-!
# Integers as they are written

The digits of a number have its value, so an integer is read back from its
written form.
-/

namespace StackQuery

namespace Decimal

variable {c : Char} {digits : List Char}

theorem digitValue?_of_isDigit (h : c.isDigit = true) : digitValue? c = some (c.toNat - '0'.toNat) := by
  have hrange : '0' ≤ c ∧ c ≤ '9' := by
    simpa [Char.isDigit, Char.le_def] using h
  rw [digitValue?, if_pos hrange]

theorem digitsValue_of_isDigit (h : ∀ c ∈ digits, c.isDigit = true) :
    digitsValue digits = Nat.ofDigitChars 10 digits 0 := by
  rw [digitsValue, Nat.ofDigitChars_eq_foldl]
  refine List.foldl_ext _ _ _ fun n c hc => ?_
  rw [digitValue?_of_isDigit (h c hc), Option.getD_some]

theorem isDigit_of_mem_toDigits {n : Nat} (h : c ∈ Nat.toDigits 10 n) : c.isDigit = true :=
  Nat.isDigit_of_mem_toDigits (by omega) (by omega) h

theorem digitsValue_toDigits (n : Nat) : digitsValue (Nat.toDigits 10 n) = n := by
  rw [digitsValue_of_isDigit fun c => isDigit_of_mem_toDigits, Nat.ofDigitChars_ten_toDigits]

end Decimal

namespace Number

theorem integer?_toInt (i : Int64) : integer? i.toInt = some i := by
  rw [integer?, if_pos ⟨Int64.minValue_le_toInt i, Int64.toInt_le i⟩, Int64.ofInt_toInt]

theorem integer_text_toList (i : Int64) :
    (text (.integer i)).toList =
      if 0 ≤ i.toInt then Nat.toDigits 10 i.toInt.toNat
      else '-' :: Nat.toDigits 10 (-i.toInt).toNat := by
  rw [text, Int.toString_eq_repr, Int.repr_eq_if]
  split <;> simp [Nat.toList_repr]

theorem readInteger?_of_split {cs digits : List Char} {negative : Bool} {n : Nat}
    (hsplit : Decimal.splitSign cs = (negative, digits)) (hdigits : digits = Nat.toDigits 10 n) :
    readInteger? cs = integer? (if negative then -(n : Int) else n) := by
  have hall : (Nat.toDigits 10 n).all Decimal.isDigit = true := by
    rw [List.all_eq_true]
    intro c hc
    rw [Decimal.isDigit, Decimal.digitValue?_of_isDigit (Decimal.isDigit_of_mem_toDigits hc)]
    rfl
  simp only [readInteger?, hsplit, hdigits, hall, Decimal.digitsValue_toDigits]
  simp [Nat.toDigits_ne_nil]

theorem splitSign_toDigits (n : Nat) :
    Decimal.splitSign (Nat.toDigits 10 n) = (false, Nat.toDigits 10 n) := by
  unfold Decimal.splitSign
  split
  next rest h =>
    have hdigit : '-' ∈ Nat.toDigits 10 n := h ▸ List.mem_cons_self
    exact absurd (Decimal.isDigit_of_mem_toDigits hdigit) (by decide)
  next rest h =>
    have hdigit : '+' ∈ Nat.toDigits 10 n := h ▸ List.mem_cons_self
    exact absurd (Decimal.isDigit_of_mem_toDigits hdigit) (by decide)
  next => rfl

theorem readInteger?_text (i : Int64) : readInteger? (text (.integer i)).toList = some i := by
  rw [integer_text_toList]
  split
  next h =>
    rw [readInteger?_of_split (splitSign_toDigits _) rfl, if_neg (by simp), Int.toNat_of_nonneg h,
      integer?_toInt]
  next h =>
    have hsplit (digits : List Char) : Decimal.splitSign ('-' :: digits) = (true, digits) := rfl
    rw [readInteger?_of_split (hsplit _) rfl, if_pos rfl, Int.toNat_of_nonneg (by omega), Int.neg_neg,
      integer?_toInt]

end Number

end StackQuery
