import StackQuery.Decimal.Basic

/-!
Arithmetic on decimals.

Each operation is the machine's, rounded to nearest.  An operand that is not a
number is the result, the first one first; a result that is not a number
although both operands are is the negative one.
-/

namespace StackQuery

namespace Decimal

def ofFloat (x : Float) : Decimal := if x.isNaN then nan true else ⟨x.toBits⟩

def toFloat (d : Decimal) : Float := Float.ofBits d.bits

def binary (f : Float → Float → Float) (a b : Decimal) : Decimal :=
  if a.isNaN then a
  else if b.isNaN then b
  else ofFloat (f a.toFloat b.toFloat)

def add : Decimal → Decimal → Decimal := binary (· + ·)

def sub : Decimal → Decimal → Decimal := binary (· - ·)

def mul : Decimal → Decimal → Decimal := binary (· * ·)

def div : Decimal → Decimal → Decimal := binary (· / ·)

def sqrt (d : Decimal) : Decimal := if d.isNaN then d else ofFloat d.toFloat.sqrt

/-- Functions of one decimal that are known to the nearest few bits only. -/
inductive Function where
  | sin
  | asin
  | cos
  | acos
  | cosh
  | tanh
  deriving DecidableEq, Repr

/-- The inverse sine and cosine are defined between minus one and one. -/
def Function.inDomain : Function → Decimal → Bool
  | .asin, d | .acos, d => d.inUnitRange
  | _, _ => true

def Function.value? (f : Function) (d : Decimal) : Option Decimal :=
  if d.isNaN || !f.inDomain d then none
  else
    let x := d.toFloat
    let y := match f with
      | .sin => x.sin
      | .asin => x.asin
      | .cos => x.cos
      | .acos => x.acos
      | .cosh => x.cosh
      | .tanh => x.tanh
    if y.isNaN then none else some ⟨y.toBits⟩

end Decimal

end StackQuery
