import StackQuery.Decimal.Arithmetic
import StackQuery.Decimal.Text

/-!
Numbers: exact sixty-four-bit integers and double-precision decimals.

Integer arithmetic is exact while the result fits, and falls back to decimals
where it does not.  Numbers are ordered by their exact values, also an integer
against a decimal.
-/

namespace StackQuery

inductive Number where
  | integer (value : Int64)
  | decimal (value : Decimal)
  deriving DecidableEq, Repr

namespace Number

/-- The integers that fit into sixty-four bits. -/
def integer? (i : Int) : Option Int64 :=
  if Int64.minValue.toInt ≤ i ∧ i ≤ Int64.maxValue.toInt then some (Int64.ofInt i) else none

def isInteger : Number → Bool
  | .integer _ => true
  | .decimal _ => false

def toDecimal : Number → Decimal
  | .integer i => Decimal.ofInt i.toInt
  | .decimal d => d

/-! ## Order -/

/-- The least and the greatest integer of a hundred and twenty-eight bits. -/
def wideBounds : Int × Int :=
  (-0x80000000000000000000000000000000, 0x7FFFFFFFFFFFFFFFFFFFFFFFFFFFFFFF)

/--
An integer against a decimal, without rounding the integer: against the whole
part first, which is held within bounds that no integer reaches, and then by the
sign of the fraction.  The values that are not numbers lie beyond every integer,
on the side of their sign.
-/
def compareMixed (i : Int64) (d : Decimal) : Ordering :=
  if d.isNaN then
    if d.isNegative then .gt else .lt
  else
    let whole := d.trunc
    let fraction := d.sub whole
    (compare i.toInt (whole.clamped wideBounds.1 wideBounds.2)).then
      (if fraction.isPositive then .lt
      else if fraction.isBelowZero then .gt
      else .eq)

/-- The order of numbers by exact value, with the two zeros alike. -/
def order : Number → Number → Ordering
  | .integer a, .integer b => compare a.toInt b.toInt
  | .decimal a, .decimal b => compare a.orderKey b.orderKey
  | .integer i, .decimal d => compareMixed i d
  | .decimal d, .integer i => (compareMixed i d).swap

/-! ## Written form -/

def text : Number → String
  | .integer i => toString i.toInt
  | .decimal d => d.text

/-- An optional sign and digits, denoting a number that fits. -/
def readInteger? (cs : List Char) : Option Int64 :=
  let (negative, digits) := Decimal.splitSign cs
  if digits.isEmpty || !digits.all Decimal.isDigit then none
  else
    let n : Int := Decimal.digitsValue digits
    integer? (if negative then -n else n)

/-! ## Arithmetic -/

/-- Exact on integers whose result fits, by decimals otherwise. -/
def exactOr (exact : Int → Int → Int) (approximate : Decimal → Decimal → Decimal)
    (a b : Number) : Number :=
  match a, b with
  | .integer x, .integer y =>
      match integer? (exact x.toInt y.toInt) with
      | some n => .integer n
      | none => .decimal (approximate a.toDecimal b.toDecimal)
  | _, _ => .decimal (approximate a.toDecimal b.toDecimal)

def add : Number → Number → Number := exactOr (· + ·) Decimal.add

def sub : Number → Number → Number := exactOr (· - ·) Decimal.sub

def mul : Number → Number → Number := exactOr (· * ·) Decimal.mul

/-- The quotient without its fraction; there is none for a divisor of zero, or if it does not fit. -/
def quotient? (x y : Int64) : Option Int64 :=
  if y.toInt = 0 then none else integer? (x.toInt.tdiv y.toInt)

/-- What the quotient leaves over, if there is a quotient. -/
def remainder? (x y : Int64) : Option Int64 :=
  (quotient? x y).bind fun _ => integer? (x.toInt.tmod y.toInt)

/-- By decimals; there is no quotient for a divisor of zero. -/
def divApproximately? (a b : Number) : Option Number :=
  if b.toDecimal.isZero then none else some (.decimal (Decimal.div a.toDecimal b.toDecimal))

/-- Exact on integers that leave nothing over, by decimals otherwise. -/
def div? (a b : Number) : Option Number :=
  match a, b with
  | .integer x, .integer y =>
      if remainder? x y = some 0 then (quotient? x y).map .integer
      else divApproximately? a b
  | _, _ => divApproximately? a b

def neg : Number → Number
  | .integer i =>
      match integer? (-i.toInt) with
      | some n => .integer n
      | none => .decimal (Decimal.ofInt i.toInt).neg
  | .decimal d => .decimal d.neg

/-- The square roots of a number, the positive one first; a negative number has none. -/
def squareRoots (a : Number) : List Decimal :=
  let d := a.toDecimal
  if d.isPositive then [d.sqrt, d.sqrt.neg]
  else if d.isZero then [Decimal.zero]
  else []

/--
The integer without the fraction, clamped to what fits; only finite numbers
have one.
-/
def truncate? : Number → Option Int64
  | .integer i => some i
  | .decimal d =>
      if d.isFinite then
        some (Int64.ofInt (d.trunc.clamped Int64.minValue.toInt Int64.maxValue.toInt))
      else none

end Number

end StackQuery
