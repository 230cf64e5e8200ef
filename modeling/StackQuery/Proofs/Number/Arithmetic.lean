import StackQuery.Proofs.Decimal.Rounding
import StackQuery.Proofs.Library.Words
import StackQuery.Proofs.Reading.Canonical

/-!
# Integer arithmetic is exact

On integers, and on literals that denote them, the words of arithmetic give the
exact result as an integer wherever it is an integer of sixty-four bits, and a
decimal where it is not.  Only a divisor of zero has no quotient.
-/

namespace StackQuery

namespace Number

/-- An integer of sixty-four bits. -/
def Fits (i : Int) : Prop := -2 ^ 63 ≤ i ∧ i < 2 ^ 63

/-- An exact result is given as that integer, or as a decimal if the integer does not fit. -/
def StandsFor (result : Int) : Number → Prop
  | .integer i => i.toInt = result
  | .decimal _ => ¬ Fits result

theorem fits_toInt (i : Int64) : Fits i.toInt := ⟨i.le_toInt, i.toInt_lt⟩

theorem integer?_eq_some_iff {i : Int} {n : Int64} : integer? i = some n ↔ n.toInt = i := by
  have hmin : Int64.minValue.toInt = -2 ^ 63 := rfl
  have hmax : Int64.maxValue.toInt = 2 ^ 63 - 1 := rfl
  rw [integer?, hmin, hmax]
  split_ifs with hfits
  · rw [Option.some.injEq]
    constructor
    · rintro rfl
      exact Int64.toInt_ofInt_of_le (by omega) (by omega)
    · rintro rfl
      exact Int64.ofInt_toInt n
  · have hn := fits_toInt n
    unfold Fits at hn
    constructor
    · exact fun h => nomatch h
    · omega

theorem integer?_eq_none_iff {i : Int} : integer? i = none ↔ ¬ Fits i := by
  have hmin : Int64.minValue.toInt = -2 ^ 63 := rfl
  have hmax : Int64.maxValue.toInt = 2 ^ 63 - 1 := rfl
  rw [integer?, hmin, hmax, Fits]
  split_ifs with hfits <;> simp <;> omega

/-! ## Sums, differences, products and negation -/

theorem exactOr_standsFor (exact : Int → Int → Int) (approximate : Decimal → Decimal → Decimal)
    (x y : Int64) :
    StandsFor (exact x.toInt y.toInt) (exactOr exact approximate (.integer x) (.integer y)) := by
  rw [exactOr]
  cases h : integer? (exact x.toInt y.toInt) with
  | some n => exact integer?_eq_some_iff.1 h
  | none => exact integer?_eq_none_iff.1 h

theorem add_standsFor (x y : Int64) :
    StandsFor (x.toInt + y.toInt) (add (.integer x) (.integer y)) :=
  exactOr_standsFor (· + ·) Decimal.add x y

theorem sub_standsFor (x y : Int64) :
    StandsFor (x.toInt - y.toInt) (sub (.integer x) (.integer y)) :=
  exactOr_standsFor (· - ·) Decimal.sub x y

theorem mul_standsFor (x y : Int64) :
    StandsFor (x.toInt * y.toInt) (mul (.integer x) (.integer y)) :=
  exactOr_standsFor (· * ·) Decimal.mul x y

theorem neg_standsFor (x : Int64) : StandsFor (-x.toInt) (neg (.integer x)) := by
  rw [neg]
  cases h : integer? (-x.toInt) with
  | some n => exact integer?_eq_some_iff.1 h
  | none => exact integer?_eq_none_iff.1 h

/-! ## Quotients -/

theorem divApproximately?_integer (a : Number) (y : Int64) :
    divApproximately? a (.integer y) =
      if y.toInt = 0 then none
      else some (.decimal (a.toDecimal.div (Decimal.ofInt y.toInt))) := by
  simp only [divApproximately?, toDecimal, Decimal.isZero_ofInt, decide_eq_true_eq]

/-- The quotient is whole if the divisor divides, and is taken if it also fits. -/
theorem remainder?_eq_zero_iff (x y : Int64) :
    remainder? x y = some 0 ↔
      y.toInt ≠ 0 ∧ Fits (x.toInt.tdiv y.toInt) ∧ y.toInt ∣ x.toInt := by
  have hzero : (0 : Int64).toInt = 0 := rfl
  rw [remainder?, quotient?]
  by_cases hy : y.toInt = 0
  · simp [hy]
  · rw [if_neg hy]
    cases hquotient : integer? (x.toInt.tdiv y.toInt) with
    | none => simp [integer?_eq_none_iff.1 hquotient]
    | some q =>
        have hfits : Fits (x.toInt.tdiv y.toInt) := integer?_eq_some_iff.1 hquotient ▸ fits_toInt q
        rw [Option.bind_some, integer?_eq_some_iff, hzero, Int.dvd_iff_tmod_eq_zero]
        simp [hy, hfits, eq_comm]

theorem div?_zero {x y : Int64} (h : y.toInt = 0) : div? (.integer x) (.integer y) = none := by
  have hremainder : ¬ remainder? x y = some 0 := by simp [remainder?_eq_zero_iff, h]
  rw [div?, if_neg hremainder, divApproximately?_integer, if_pos h]

theorem div?_of_dvd {x y : Int64} (hy : y.toInt ≠ 0) (hdvd : y.toInt ∣ x.toInt) :
    ∃ n, div? (.integer x) (.integer y) = some n ∧ StandsFor (x.toInt / y.toInt) n := by
  have hwhole : x.toInt.tdiv y.toInt = x.toInt / y.toInt := Int.tdiv_eq_ediv_of_dvd hdvd
  have hremainder := remainder?_eq_zero_iff x y
  rw [hwhole] at hremainder
  rw [div?]
  by_cases hfits : Fits (x.toInt / y.toInt)
  · rw [if_pos (hremainder.2 ⟨hy, hfits, hdvd⟩), quotient?, if_neg hy, hwhole]
    cases hquotient : integer? (x.toInt / y.toInt) with
    | none => exact absurd hfits (integer?_eq_none_iff.1 hquotient)
    | some q => exact ⟨_, rfl, integer?_eq_some_iff.1 hquotient⟩
  · rw [if_neg fun h => hfits (hremainder.1 h).2.1, divApproximately?_integer, if_neg hy]
    exact ⟨_, rfl, hfits⟩

theorem div?_of_not_dvd {x y : Int64} (hy : y.toInt ≠ 0) (hdvd : ¬ y.toInt ∣ x.toInt) :
    ∃ d, div? (.integer x) (.integer y) = some (.decimal d) := by
  have hremainder : ¬ remainder? x y = some 0 := by simp [remainder?_eq_zero_iff, hdvd]
  rw [div?, if_neg hremainder, divApproximately?_integer, if_neg hy]
  exact ⟨_, rfl⟩

end Number

/-! ## The words of arithmetic -/

namespace Standard

open StackQuery.Action

variable {x y : Value} {a b : Int64} {rest : Stack}

theorem arithmetic_eq {f : Number → Number → Option Number} {result : Option Number}
    (hx : x.canonical = .number (.integer a)) (hy : y.canonical = .number (.integer b))
    (h : f (.integer a) (.integer b) = result) :
    arithmetic f x y rest = pushSome rest (result.map .number) := by
  rw [arithmetic, Value.readNumber_of_canonical hx, Value.readNumber_of_canonical hy, ← h]
  rfl

theorem at_add : At 21 "add" .add 2 := ⟨rfl, _, rfl, rfl, rfl⟩

theorem at_sub : At 22 "sub" .sub 2 := ⟨rfl, _, rfl, rfl, rfl⟩

theorem at_mul : At 23 "mul" .mul 2 := ⟨rfl, _, rfl, rfl, rfl⟩

theorem at_div : At 24 "div" .div 2 := ⟨rfl, _, rfl, rfl, rfl⟩

theorem at_neg : At 25 "neg" .neg 1 := ⟨rfl, _, rfl, rfl, rfl⟩

/--
On integers, and on literals that denote them, the words of arithmetic give one
number each.  It is the exact result if that fits and a decimal if it does not,
and a quotient that leaves something over is a decimal.  Only division by zero
gives nothing.
-/
theorem integer_arithmetic (hx : x.canonical = .number (.integer a))
    (hy : y.canonical = .number (.integer b)) :
    (∃ n, n.StandsFor (a.toInt + b.toInt) ∧
      Gives "add" (y :: x :: rest) [.ok (.number n :: rest)]) ∧
    (∃ n, n.StandsFor (a.toInt - b.toInt) ∧
      Gives "sub" (y :: x :: rest) [.ok (.number n :: rest)]) ∧
    (∃ n, n.StandsFor (a.toInt * b.toInt) ∧
      Gives "mul" (y :: x :: rest) [.ok (.number n :: rest)]) ∧
    (∃ n, n.StandsFor (-a.toInt) ∧ Gives "neg" (x :: rest) [.ok (.number n :: rest)]) ∧
    (b.toInt = 0 → Gives "div" (y :: x :: rest) []) ∧
    (b.toInt ≠ 0 → ∃ n,
      (if b.toInt ∣ a.toInt then n.StandsFor (a.toInt / b.toInt) else n.isInteger = false) ∧
        Gives "div" (y :: x :: rest) [.ok (.number n :: rest)]) := by
  refine ⟨⟨_, Number.add_standsFor a b, ?_⟩, ⟨_, Number.sub_standsFor a b, ?_⟩,
    ⟨_, Number.mul_standsFor a b, ?_⟩, ⟨_, Number.neg_standsFor a, ?_⟩, fun hzero => ?_,
    fun hzero => ?_⟩
  · exact at_add.gives rfl rfl fun l => arithmetic_eq hx hy rfl
  · exact at_sub.gives rfl rfl fun l => arithmetic_eq hx hy rfl
  · exact at_mul.gives rfl rfl fun l => arithmetic_eq hx hy rfl
  · have hperform (l : Library) :
        perform l rest .neg [x] = push rest (.number (Number.neg (.integer a))) := by
      rw [perform, Value.readNumber_of_canonical hx]
      rfl
    exact at_neg.gives rfl rfl hperform
  · exact at_div.gives rfl rfl fun l => arithmetic_eq hx hy (Number.div?_zero hzero)
  · by_cases hdvd : b.toInt ∣ a.toInt
    · obtain ⟨n, hn, hexact⟩ := Number.div?_of_dvd hzero hdvd
      simp only [if_pos hdvd]
      exact ⟨n, hexact, at_div.gives rfl rfl fun l => arithmetic_eq hx hy hn⟩
    · obtain ⟨d, hd⟩ := Number.div?_of_not_dvd hzero hdvd
      simp only [if_neg hdvd]
      exact ⟨.decimal d, rfl, at_div.gives rfl rfl fun l => arithmetic_eq hx hy hd⟩

/--
The quotient of the least integer and minus one does not fit, and comes as a
decimal; divided by zero, the least integer gives nothing.
-/
theorem least_by_minus_one_and_zero :
    let x : Value := .literal (.typed "-9223372036854775808" (Vocabulary.xsd ++ "integer"))
    let y : Value := .integer (-1)
    let z : Value := .integer 0
    x.canonical = .number (.integer Int64.minValue) ∧
      y.canonical = .number (.integer (Int64.ofInt (-1))) ∧
      z.canonical = .number (.integer (Int64.ofInt 0)) ∧
      (∃ d, Gives "div" [y, x] [.ok [.number (.decimal d)]]) ∧
      Gives "div" [z, x] [] := by
  intro x y z
  have hx : x.canonical = .number (.integer Int64.minValue) := rfl
  have hy : y.canonical = .number (.integer (Int64.ofInt (-1))) := rfl
  have hz : z.canonical = .number (.integer (Int64.ofInt 0)) := rfl
  obtain ⟨_, _, _, _, _, hquotient⟩ := @integer_arithmetic x y _ _ [] hx hy
  obtain ⟨_, _, _, _, hnothing, _⟩ := @integer_arithmetic x z _ _ [] hx hz
  obtain ⟨n, hn, hgives⟩ := hquotient (by decide)
  rw [if_pos (by decide)] at hn
  refine ⟨hx, hy, hz, ?_, hnothing (by decide)⟩
  cases n with
  | integer i =>
      have htoo : i.toInt = 2 ^ 63 := hn
      have hlt := i.toInt_lt
      omega
  | decimal d => exact ⟨d, hgives⟩

end Standard

end StackQuery
