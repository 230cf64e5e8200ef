import StackQuery.Reading
import StackQuery.Solutions.Sequence

/-!
The streams of stacks that operators produce.

A stream holds what is still to be computed as data: the stacks at hand, the
lists and operators that are still being read, the steps that are still to be
applied.
-/

namespace StackQuery

/-- A solution, or what went wrong in its place. -/
abbrev Item := Except EvalError Stack

/-- What is done with each list that an argument denotes. -/
inductive ListUse where
  | swons (first : Value)
  | uncons
  | each

/-- What is done with each operator that an argument denotes. -/
inductive OperatorUse where
  | run
  | times (count : Nat)
  | invert

inductive Route where
  | steps (operators : Array Operator)
  /-- The same operator a number of times. -/
  | repeated (op : Operator) (count : Nat)

namespace Route

def length : Route → Nat
  | .steps operators => operators.size
  | .repeated _ count => count

def operator? : Route → Nat → Option Operator
  | .steps operators, i => operators[i]?
  | .repeated op count, i => if i < count then some op else none

end Route

/-- A route, and whether the abort signal is looked at after every step of it. -/
structure Plan where
  route : Route
  guarded : Bool

inductive Solutions where
  | items (items : List Item)
  /-- Items given by their positions, from a position on without end. -/
  | unending (item : Nat → Item) (next : Nat)
  /-- Every item turns into the abort error once the signal is set. -/
  | guarded (live : Solutions)
  | pushing (value : Value) (live : Solutions)
  /-- Every stack is replaced by what an operator makes of it. -/
  | through (op : Operator) (live : Solutions)
  /-- A stack with fewer items than an operator expects is an error. -/
  | deep (operator : String) (arity : Nat) (live : Solutions)
  /-- A stack that is the same as one seen before is dropped. -/
  | distinct (seen : List Stack) (live : Solutions)
  | sequence (plan : Plan) (frames : List (Frame Solutions))
  | lists (use : ListUse) (rest : Stack) (reading : ListReading)
  | operators (use : OperatorUse) (rest : Stack) (reading : OperatorReading)
  /-- The objects of a statement, each pushed onto a stack. -/
  | objects (subject predicate : String) (rest : Stack)
  | append (first second : Solutions)

namespace Solutions

def none : Solutions := .items []

def single (stack : Stack) : Solutions := .items [.ok stack]

def fail (error : EvalError) : Solutions := .items [.error error]

def ofStacks (all : List Stack) : Solutions := .items (all.map .ok)

/-- The stream is known to have no more items. -/
def isSpent : Solutions → Bool
  | .items ready => ready.isEmpty
  | .guarded live | .pushing _ live | .deep _ _ live | .distinct _ live => live.isSpent
  | .sequence _ frames => frames.isEmpty
  | .lists _ _ reading => reading.isSpent
  | .operators _ _ reading => reading.isSpent
  | .append first second => first.isSpent && second.isSpent
  | _ => false

/-- One stream and then another one; a second stream without items is left out. -/
def andThen (first second : Solutions) : Solutions :=
  if second.isSpent then first else .append first second

/-- A route of no steps leaves the stream as it is. -/
def along (plan : Plan) (live : Solutions) : Solutions :=
  if plan.route.length = 0 then live else .sequence plan [⟨0, live⟩]

end Solutions

end StackQuery
