import StackQuery.Proofs.Number.Arithmetic
import StackQuery.Proofs.Number.Text

/-!
# Signed digits

An integer is read off an optional sign and digits, at least one, and off
nothing else.  It is the integer that the digits denote, provided that it fits.
-/

namespace StackQuery

/-- An optional sign and at least one digit, with the integer that they denote. -/
inductive SignedDigits : List Char → Int → Prop where
  | unsigned {digits : List Char} (hne : digits ≠ [])
      (hdigits : ∀ c ∈ digits, c.isDigit = true) :
      SignedDigits digits (Nat.ofDigitChars 10 digits 0)
  | plus {digits : List Char} (hne : digits ≠ []) (hdigits : ∀ c ∈ digits, c.isDigit = true) :
      SignedDigits ('+' :: digits) (Nat.ofDigitChars 10 digits 0)
  | minus {digits : List Char} (hne : digits ≠ []) (hdigits : ∀ c ∈ digits, c.isDigit = true) :
      SignedDigits ('-' :: digits) (-(Nat.ofDigitChars 10 digits 0 : Int))

namespace Decimal

theorem isDigit_eq (c : Char) : isDigit c = c.isDigit := by
  have hrange : ('0' ≤ c ∧ c ≤ '9') ↔ c.isDigit = true := by
    simp [Char.isDigit, Char.le_def]
  rw [isDigit, digitValue?]
  cases h : c.isDigit with
  | true =>
      rw [if_pos (hrange.2 h)]
      rfl
  | false =>
      have hno : ¬ ('0' ≤ c ∧ c ≤ '9') := by simp [hrange, h]
      rw [if_neg hno]
      rfl

theorem splitSign_of_digits {digits : List Char} (h : ∀ c ∈ digits, c.isDigit = true) :
    splitSign digits = (false, digits) := by
  unfold splitSign
  split
  next rest => exact absurd (h '-' List.mem_cons_self) (by decide)
  next rest => exact absurd (h '+' List.mem_cons_self) (by decide)
  next => rfl

end Decimal

theorem signedDigits_iff {cs : List Char} {m : Int} :
    SignedDigits cs m ↔ ∃ negative digits, Decimal.splitSign cs = (negative, digits) ∧
      digits ≠ [] ∧ (∀ c ∈ digits, c.isDigit = true) ∧
      m = if negative then -(Nat.ofDigitChars 10 digits 0 : Int)
        else Nat.ofDigitChars 10 digits 0 := by
  constructor
  · intro h
    cases h with
    | unsigned hne hdigits =>
        exact ⟨false, cs, Decimal.splitSign_of_digits hdigits, hne, hdigits, rfl⟩
    | plus hne hdigits => exact ⟨false, _, rfl, hne, hdigits, rfl⟩
    | minus hne hdigits => exact ⟨true, _, rfl, hne, hdigits, rfl⟩
  · rintro ⟨negative, digits, hsplit, hne, hdigits, rfl⟩
    unfold Decimal.splitSign at hsplit
    split at hsplit
    next =>
      cases hsplit
      exact .minus hne hdigits
    next =>
      cases hsplit
      exact .plus hne hdigits
    next =>
      cases hsplit
      exact .unsigned hne hdigits

namespace Number

theorem readInteger?_eq_some_iff {cs : List Char} {n : Int64} :
    readInteger? cs = some n ↔ SignedDigits cs n.toInt := by
  obtain ⟨negative, digits, hsplit⟩ :
      ∃ negative digits, Decimal.splitSign cs = (negative, digits) := ⟨_, _, rfl⟩
  have hread : readInteger? cs =
      if digits ≠ [] ∧ ∀ c ∈ digits, c.isDigit = true then
        integer? (if negative then -(Nat.ofDigitChars 10 digits 0 : Int)
          else Nat.ofDigitChars 10 digits 0)
      else none := by
    simp only [readInteger?, hsplit]
    by_cases hdigits : digits ≠ [] ∧ ∀ c ∈ digits, c.isDigit = true
    · rw [if_pos hdigits, Decimal.digitsValue_of_isDigit hdigits.2, if_neg]
      simpa [Decimal.isDigit_eq] using hdigits
    · rw [if_neg hdigits, if_pos]
      simpa [Decimal.isDigit_eq, or_iff_not_imp_left] using hdigits
  rw [hread, signedDigits_iff, hsplit]
  constructor
  · intro h
    obtain ⟨⟨hne, hdigits⟩, hfits⟩ := Option.ite_none_right_eq_some.mp h
    exact ⟨negative, digits, rfl, hne, hdigits, integer?_eq_some_iff.1 hfits⟩
  · rintro ⟨_, _, heq, hne, hdigits, hvalue⟩
    cases heq
    rw [if_pos ⟨hne, hdigits⟩]
    exact integer?_eq_some_iff.2 hvalue

/-- Signed digits whose integer does not fit are read as none. -/
theorem readInteger?_of_not_fits {cs : List Char} {m : Int} (h : SignedDigits cs m)
    (hfits : ¬ Fits m) : readInteger? cs = none := by
  cases hread : readInteger? cs with
  | none => rfl
  | some n =>
      have hn := readInteger?_eq_some_iff.1 hread
      rw [signedDigits_iff] at h hn
      obtain ⟨negative, digits, hsplit, _, _, hm⟩ := h
      obtain ⟨_, _, hsplit', _, _, hn⟩ := hn
      cases hsplit.symm.trans hsplit'
      rw [hm, ← hn] at hfits
      exact absurd (fits_toInt n) hfits

end Number

end StackQuery
