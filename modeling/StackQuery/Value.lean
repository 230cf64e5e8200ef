import StackQuery.Literal

/-!
The values of a stack and the operators that act on stacks.

Values and operators contain each other: an operator can be pushed like any
other value, and a list of values can be run as a program.
-/

namespace StackQuery

/-- An argument of a primitive, as help shows it. -/
structure Parameter where
  name : String
  hint : Option String
  evaluated : Bool
  deriving DecidableEq, Repr

inductive Action where
  /-- Leaves the rest of the stack. -/
  | drop
  | dup
  | swap
  | rotate
  | rotated
  | swons
  | uncons
  /-- Applies a program to the rest of the stack. -/
  | run
  | times
  | and
  | or
  | not
  /-- Keeps the upper of two items. -/
  | upper
  /-- Keeps the lower of two items. -/
  | lower
  | equal
  | compare
  | greater
  | less
  | toInteger
  | toDecimal
  | toText
  | add
  | sub
  | mul
  | div
  | neg
  | sqrt
  | function (f : Decimal.Function)
  | each
  | unique
  | invert
  | links
  /-- Pushes zero, one, two and so on, without end. -/
  | naturals
  deriving DecidableEq, Repr

/--
Whether an action looks at the whole stream of stacks, so that it cannot be
applied to them one by one.
-/
def Action.needsStream : Action → Bool
  | .unique => true
  | _ => false

/--
A named operator that is not made of others.  The first identifier is the
canonical one; `inverse` names the operator that undoes it.
-/
structure Primitive where
  identifiers : List String
  parameters : List Parameter
  comment : String
  inverse : Option String
  action : Action
  deriving DecidableEq, Repr

namespace Primitive

def identifier (p : Primitive) : String := p.identifiers.headD ""

def name (p : Primitive) : String := Vocabulary.localName p.identifier

def arity (p : Primitive) : Nat := p.parameters.length

end Primitive

mutual

inductive Value where
  | number (value : Number)
  | text (value : String)
  | boolean (value : Bool)
  | resource (identifier : String)
  | literal (value : Literal)
  | list (items : List Value)
  | operator (value : Operator)

inductive Operator where
  | primitive (value : Primitive)
  /-- Steps applied one after another, with the list they were read from, if any. -/
  | composed (steps : List Operator) (source : Option (List Value))
  /-- An operator turned round, together with the operator that it runs as. -/
  | inverted (forward inverse : Operator)
  /-- Pushes a value. -/
  | constant (value : Value)

end

instance : Inhabited Value := ⟨.list []⟩

instance : Inhabited Operator := ⟨.composed [] none⟩

/-- A stack, top item first. -/
abbrev Stack := List Value

namespace Value

def integer (i : Int) : Value := .number (.integer (Int64.ofInt i))

def decimal (d : Decimal) : Value := .number (.decimal d)

def ofNative : Native → Value
  | .number n => .number n
  | .text s => .text s
  | .boolean b => .boolean b

/-- The empty list has a resource of its own in the graph. -/
def isNil (identifier : String) : Bool := identifier == Vocabulary.rdfNil

def typeName : Value → String
  | .number _ => "number"
  | .text _ => "text"
  | .boolean _ => "boolean"
  | .resource _ => "resource"
  | .literal _ => "literal"
  | .list _ => "list"
  | .operator _ => "operator"

end Value

namespace Operator

def kindName : Operator → String
  | .primitive _ => "primitive"
  | .composed _ _ => "composed"
  | .inverted _ _ => "inverted"
  | .constant _ => "constant"

def primitive? : Operator → Option Primitive
  | .primitive p => some p
  | _ => none

/-- Only primitives have identifiers of their own. -/
def identifiers (op : Operator) : List String := (op.primitive?.map (·.identifiers)).getD []

def parameters (op : Operator) : List Parameter := (op.primitive?.map (·.parameters)).getD []

def comment (op : Operator) : String := (op.primitive?.map (·.comment)).getD ""

def compose (steps : List Operator) : Operator := .composed steps none

mutual

/-- Whether an operator, or a step inside it, looks at the whole stream of stacks. -/
def needsStream : Operator → Bool
  | .primitive p => p.action.needsStream
  | .composed steps _ => anyNeedsStream steps
  | .inverted _ inverse => inverse.needsStream
  | .constant _ => false

def anyNeedsStream : List Operator → Bool
  | [] => false
  | step :: rest => step.needsStream || anyNeedsStream rest

end

end Operator

end StackQuery
