import StackQuery.Decimal.Shortest

/-!
The written form of decimals.

A decimal is written without an exponent: a whole one with all its digits and
one zero after the point, any other with its shortest digits.  Reading takes
an optional sign, digits with at most one point among them and an optional
power of ten, or the words for infinity and for what is not a number, and
rounds to the nearest decimal.
-/

namespace StackQuery

namespace Decimal

/-! ## Writing -/

/-- The number `digits / 10 ^ places`, for a positive number of places. -/
def withPoint (digits places : Nat) : String :=
  let written := (Nat.repr digits).toList
  let padded := List.replicate (places + 1 - written.length) '0' ++ written
  let whole := padded.length - places
  String.ofList (padded.take whole ++ '.' :: padded.drop whole)

def magnitudeText (d : Decimal) : String :=
  if !d.isFinite then "inf"
  else if d.isWhole then Nat.repr (d.scaled / unit) ++ ".0"
  else
    let shortest := d.shortest
    withPoint shortest.digits shortest.power.natAbs

def text (d : Decimal) : String :=
  if d.isNaN then "NaN"
  else if d.isNegative then "-" ++ d.magnitudeText
  else d.magnitudeText

/-! ## Reading -/

def digitValue? (c : Char) : Option Nat :=
  if '0' ≤ c ∧ c ≤ '9' then some (c.toNat - '0'.toNat) else none

def isDigit (c : Char) : Bool := (digitValue? c).isSome

def digitsValue (digits : List Char) : Nat :=
  digits.foldl (fun n c => 10 * n + (digitValue? c).getD 0) 0

/-- Splits off an optional sign; the sign is negative or not. -/
def splitSign : List Char → Bool × List Char
  | '-' :: rest => (true, rest)
  | '+' :: rest => (false, rest)
  | rest => (false, rest)

/-- An optional power of ten: the letter, an optional sign and digits, and nothing after. -/
def readPower? : List Char → Option Int
  | [] => some 0
  | c :: rest =>
      if c = 'e' ∨ c = 'E' then
        let (negative, digits) := splitSign rest
        if digits.isEmpty || !digits.all isDigit then none
        else if negative then some (-(digitsValue digits : Int)) else some (digitsValue digits)
      else none

/--
The decimal nearest to `digits * 10 ^ power`.  Beyond four hundred places on
either side of the point the answer no longer depends on the digits.
-/
def ofDigits (negative : Bool) (digits : Nat) (power : Int) : Decimal :=
  let size : Int := (Nat.repr digits).length + power
  if digits = 0 ∨ size < -400 then ofPayload negative 0
  else if 400 < size then infinity negative
  else if power < 0 then ofPayload negative (nearestPayload digits (Nat.pow 10 power.natAbs))
  else ofPayload negative (nearestPayload (digits * Nat.pow 10 power.natAbs) 1)

/-- Digits with at most one point, at least one digit in all, and a power of ten. -/
def readMagnitude? (negative : Bool) (cs : List Char) : Option Decimal :=
  let whole := cs.takeWhile isDigit
  let afterWhole := cs.dropWhile isDigit
  let (fraction, rest) := match afterWhole with
    | '.' :: after => (after.takeWhile isDigit, after.dropWhile isDigit)
    | after => ([], after)
  let digits := whole ++ fraction
  if digits.isEmpty then none
  else (readPower? rest).map fun power =>
    ofDigits negative (digitsValue digits) (power - fraction.length)

def read? (cs : List Char) : Option Decimal :=
  let (negative, rest) := splitSign cs
  match rest.map Char.toLower with
  | ['i', 'n', 'f'] | ['i', 'n', 'f', 'i', 'n', 'i', 't', 'y'] => some (infinity negative)
  | ['n', 'a', 'n'] => some (nan negative)
  | _ => readMagnitude? negative rest

end Decimal

end StackQuery
