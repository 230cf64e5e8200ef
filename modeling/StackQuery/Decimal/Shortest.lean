import StackQuery.Decimal.Basic

/-!
The fewest decimal digits that read back as the same decimal.

A decimal stands for all the numbers that round to it, an interval between the
midpoints to its two neighbours.  Grids of multiples of `10 ^ p` are tried from
the coarsest down; the first one with a point in the interval gives the digits,
and of two points the nearer is taken.
-/

namespace StackQuery

namespace Decimal

/-- The numbers that round to a decimal, in multiples of `1 / (4 * unit)`. -/
structure Neighbourhood where
  low : Nat
  value : Nat
  high : Nat
  /-- The two ends round to the decimal too. -/
  closed : Bool
  deriving DecidableEq, Repr

/-- Below a power of two the neighbours are twice as close as above it. -/
def neighbourhood (d : Decimal) : Neighbourhood :=
  let step := Nat.pow 2 d.exponent
  let below := if d.significand = leadingBit ∧ 0 < d.exponent then step else 2 * step
  { low := 4 * d.scaled - below
    value := 4 * d.scaled
    high := 4 * d.scaled + 2 * step
    closed := d.significand % 2 = 0 }

/-- Digits and the power of ten that the last of them counts. -/
structure Digits where
  digits : Nat
  power : Int
  deriving DecidableEq, Repr

/-- Whether `point * den`, on the scale of the interval times `num`, lies in it. -/
def Neighbourhood.holds (n : Neighbourhood) (num den point : Nat) : Bool :=
  if n.closed then decide (n.low * num ≤ point * den ∧ point * den ≤ n.high * num)
  else decide (n.low * num < point * den ∧ point * den < n.high * num)

/--
The multiple of `10 ^ power` nearest to the value among those in the interval;
a tie goes to the greater.
-/
def Neighbourhood.onGrid? (n : Neighbourhood) (power : Int) : Option Nat :=
  let num := if power < 0 then Nat.pow 10 power.natAbs else 1
  let den := if power < 0 then 4 * unit else 4 * unit * Nat.pow 10 power.natAbs
  let lower := n.value * num / den
  let upper := lower + 1
  match n.holds num den lower, n.holds num den upper with
  | true, true =>
      if n.value * num - lower * den < upper * den - n.value * num then some lower
      else some upper
  | true, false => some lower
  | false, true => some upper
  | false, false => none

/-- The first grid with a point in the interval, from `power` down. -/
def Neighbourhood.firstOnGrid (n : Neighbourhood) : Nat → Int → Digits
  | 0, power => ⟨0, power⟩
  | tries + 1, power =>
      match n.onGrid? power with
      | some digits => ⟨digits, power⟩
      | none => n.firstOnGrid tries (power - 1)

/-- How many zeros follow the point of a number below one before its first digit. -/
def zerosAfterPoint (scaled : Nat) : Nat → Nat
  | 0 => 0
  | tries + 1 => if unit ≤ scaled * 10 then 0 else zerosAfterPoint (scaled * 10) tries + 1

/-- The power of ten just above a positive finite decimal. -/
def decimalExponent (d : Decimal) : Int :=
  if unit ≤ d.scaled then (Nat.repr (d.scaled / unit)).length
  else -(zerosAfterPoint d.scaled 330 : Int)

/--
The shortest digits of a finite decimal other than zero; seventeen always do.
The power of ten just above the decimal may be nearest, so the search begins there.
-/
def shortest (d : Decimal) : Digits := d.neighbourhood.firstOnGrid 20 d.decimalExponent

end Decimal

end StackQuery
