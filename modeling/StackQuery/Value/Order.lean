import StackQuery.Value

/-!
The order of values, which is also their equality.

Values are first brought to a canonical form: a literal becomes the native
value that it denotes, if any, and the resource of the empty list becomes the
empty list.  Kinds are ordered booleans, numbers, text, literals, resources,
lists, operators; within a kind the contents decide.  Lists are ordered member
by member, a list before its extensions.  Operators are ordered by kind and
then by identifier or structure.
-/

namespace StackQuery

namespace Value

def canonical : Value → Value
  | .literal l => match l.native? with
    | some native => ofNative native
    | none => .literal l
  | .resource identifier => if isNil identifier then .list [] else .resource identifier
  | v => v

def rank : Value → Nat
  | .boolean _ => 0
  | .number _ => 1
  | .text _ => 2
  | .literal _ => 3
  | .resource _ => 4
  | .list _ => 5
  | .operator _ => 6

end Value

/-- An absent text comes before every text. -/
def compareOptional : Option String → Option String → Ordering
  | none, none => .eq
  | none, some _ => .lt
  | some _, none => .gt
  | some a, some b => compare a b

def Literal.order (a b : Literal) : Ordering :=
  (compare a.lexical b.lexical).then
    ((compareOptional a.datatype b.datatype).then (compareOptional a.language b.language))

def Operator.rank : Operator → Nat
  | .primitive _ => 0
  | .composed _ _ => 1
  | .inverted _ _ => 2
  | .constant _ => 3

/-- The order of canonical values, of which the first has no values inside it. -/
def Value.orderPlain (a b : Value) : Ordering :=
  match a, b with
  | .boolean x, .boolean y => compare x.toNat y.toNat
  | .number x, .number y => x.order y
  | .text x, .text y => compare x y
  | .literal x, .literal y => x.order y
  | .resource x, .resource y => compare x y
  | .list _, .list ys => if ys.isEmpty then .eq else .lt
  | x, y => compare x.rank y.rank

mutual

def Value.order : Value → Value → Ordering
  | .list xs, b => match b.canonical with
    | .list ys => Value.orderLists xs ys
    | c => compare (5 : Nat) c.rank
  | .operator p, b => match b.canonical with
    | .operator q => p.order q
    | c => compare (6 : Nat) c.rank
  | a, b => Value.orderPlain a.canonical b.canonical
termination_by structural a => a

def Value.orderLists : List Value → List Value → Ordering
  | [], [] => .eq
  | [], _ :: _ => .lt
  | _ :: _, [] => .gt
  | x :: xs, y :: ys => (x.order y).then (Value.orderLists xs ys)
termination_by structural xs => xs

def Operator.order : Operator → Operator → Ordering
  | .primitive p, .primitive q => compare p.identifier q.identifier
  | .composed ps _, .composed qs _ => Operator.orderSteps ps qs
  | .inverted p _, .inverted q _ => p.order q
  | .constant x, .constant y => x.order y
  | p, q => compare p.rank q.rank
termination_by structural p => p

def Operator.orderSteps : List Operator → List Operator → Ordering
  | [], [] => .eq
  | [], _ :: _ => .lt
  | _ :: _, [] => .gt
  | p :: ps, q :: qs => (p.order q).then (Operator.orderSteps ps qs)
termination_by structural ps => ps

end

namespace Value

/-- Whether two values are the same for every comparison. -/
def same (a b : Value) : Bool := a.order b == .eq

/-- A value counts as true if it is the same as the boolean. -/
def isTrue (v : Value) : Bool := v.same (.boolean true)

/-- Whether the first value does not come after the second. -/
def precedes (a b : Value) : Bool := a.order b != .gt

/-- Sorted by the order of values; values that are the same keep their places. -/
def sorted (values : List Value) : List Value := values.mergeSort precedes

/-- The first of each run of values that are the same. -/
def distinctRuns : List Value → List Value
  | [] => []
  | v :: rest => v :: go v rest
where
  go (last : Value) : List Value → List Value
    | [] => []
    | v :: rest => if last.same v then go last rest else v :: go v rest

end Value

/-- Whether two stacks, or lists, are the same for every comparison. -/
def Stack.same (a b : Stack) : Bool := Value.orderLists a b == .eq

end StackQuery
