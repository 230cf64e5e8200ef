/-!
Double-precision decimals, held as their sixty-four bits.

The bits are a sign and a payload.  Payloads below `infinitePayload` stand for
the finite magnitudes in increasing order, `infinitePayload` itself for
infinity, and larger payloads for the values that are not numbers.  A finite
decimal is exactly `numerator / unit`, so every question about its value is a
question about integers.
-/

namespace StackQuery

/-- A double-precision number, given by its bits. -/
structure Decimal where
  bits : UInt64
  deriving DecidableEq, Repr, Inhabited

namespace Decimal

/-! ## Sign and payload -/

def signBit : Nat := 0x8000000000000000

def isNegative (d : Decimal) : Bool := decide (signBit ≤ d.bits.toNat)

def payload (d : Decimal) : Nat := d.bits.toNat % signBit

def infinitePayload : Nat := 0x7FF0000000000000

def isNaN (d : Decimal) : Bool := decide (infinitePayload < d.payload)

def isFinite (d : Decimal) : Bool := decide (d.payload < infinitePayload)

def isZero (d : Decimal) : Bool := decide (d.payload = 0)

/-- Greater than zero; no value that is not a number is. -/
def isPositive (d : Decimal) : Bool := !d.isNaN && !d.isNegative && !d.isZero

/-- Less than zero; no value that is not a number is. -/
def isBelowZero (d : Decimal) : Bool := !d.isNaN && d.isNegative && !d.isZero

def ofPayload (negative : Bool) (payload : Nat) : Decimal :=
  ⟨UInt64.ofNat ((if negative then signBit else 0) + payload)⟩

def zero : Decimal := ofPayload false 0

def infinity (negative : Bool) : Decimal := ofPayload negative infinitePayload

def nan (negative : Bool) : Decimal := ofPayload negative (infinitePayload + 0x8000000000000)

/-- Flips the sign bit, of every value. -/
def neg (d : Decimal) : Decimal := ofPayload (!d.isNegative) d.payload

/-- Between minus one and one, the ends included. -/
def inUnitRange (d : Decimal) : Bool := decide (d.payload ≤ 0x3FF0000000000000)

/-! ## Exact value -/

/-- The denominator of every finite decimal: the least positive one is `1 / unit`. -/
def unit : Nat := Nat.pow 2 1074

/-- The leading bit of a normal significand, which the payload leaves out. -/
def leadingBit : Nat := 0x10000000000000

/-- The power of two that the significand counts, in multiples of `1 / unit`. -/
def exponent (d : Decimal) : Nat := d.payload / leadingBit - 1

/-- The leading one of a normal number is written in, below it there is none. -/
def significand (d : Decimal) : Nat :=
  if d.payload < leadingBit then d.payload else leadingBit + d.payload % leadingBit

/-- The magnitude of a finite decimal, in multiples of `1 / unit`. -/
def scaled (d : Decimal) : Nat := d.significand * Nat.pow 2 d.exponent

/-- A finite decimal is exactly `numerator / unit`. -/
def numerator (d : Decimal) : Int := if d.isNegative then -(d.scaled : Int) else d.scaled

def isWhole (d : Decimal) : Bool := decide (d.scaled % unit = 0)

/-- The integer that is left when the fraction of a finite decimal is dropped. -/
def truncated (d : Decimal) : Int :=
  if d.isNegative then -((d.scaled / unit : Nat) : Int) else (d.scaled / unit : Nat)

/--
Drops the fraction: the bits of the significand that count for less than one are
cleared, and what lies between minus one and one becomes the zero of its sign.
-/
def trunc (d : Decimal) : Decimal :=
  let field := d.payload / leadingBit
  if field < 1023 then ofPayload d.isNegative 0
  else
    let least := Nat.pow 2 (1075 - field)
    ofPayload d.isNegative (d.payload / least * least)

/-- The integer without the fraction, held between two bounds; zero for what is not a number. -/
def clamped (low high : Int) (d : Decimal) : Int :=
  if d.isNaN then 0 else max low (min high d.truncated)

/-! ## Order -/

/--
Orders all decimals: by value, with the two zeros alike, and beyond the
infinities by sign and payload.
-/
def orderKey (d : Decimal) : Int := if d.isNegative then -(d.payload : Int) else d.payload

/-! ## Rounding -/

/-- The integer nearest to `num / den`; a half goes to the even neighbour. -/
def roundHalfEven (num den : Nat) : Nat :=
  let quotient := num / den
  let remainder := num % den
  if 2 * remainder < den then quotient
  else if den < 2 * remainder then quotient + 1
  else quotient + quotient % 2

/--
The payload of the decimal nearest to `num / den`.

The quotient in multiples of `1 / unit` is cut to fifty-three bits, and since
payloads follow the magnitudes, the exponent and the significand simply add up,
also where rounding carries into the next power of two.
-/
def nearestPayload (num den : Nat) : Nat :=
  let quotient := num * unit / den
  let exponent := if quotient < 2 * leadingBit then 0 else quotient.log2 - 52
  min (exponent * leadingBit + roundHalfEven (num * unit) (den * Nat.pow 2 exponent))
    infinitePayload

def ofInt (i : Int) : Decimal := ofPayload (decide (i < 0)) (nearestPayload i.natAbs 1)

end Decimal

end StackQuery
