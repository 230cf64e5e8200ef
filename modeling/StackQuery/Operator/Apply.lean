import StackQuery.Operator.Inverse
import StackQuery.Solutions
import StackQuery.Value.Order

/-!
Applying operators to stacks.

An operator is applied to one stack, or to a whole stream of stacks.  Both give
the same solutions unless the operator looks at the whole stream, so a run of
steps that do not is driven stack by stack, and the others see the stream.
-/

namespace StackQuery

/-! ## Streams of stacks -/

namespace Operator

/-- A run of steps, none of which looks at the whole stream. -/
def alongSteps (guarded : Bool) (steps : List Operator) (live : Solutions) : Solutions :=
  live.along ⟨.steps steps.toArray, guarded⟩

mutual

def onStream : Operator → Solutions → Solutions
  | .primitive p, live =>
      if p.action.needsStream then .distinct [] (.deep p.name p.arity live)
      else .through (.primitive p) live
  | .composed steps _, live => segmentsOnStream false live [] steps
  | .inverted _ inverse, live => onStream inverse live
  | .constant v, live => .pushing v live
termination_by structural op => op

/--
Applies steps to a stream.  `segment` holds the steps, last one first, since
the last step that looks at the whole stream.
-/
def segmentsOnStream (guarded : Bool) (live : Solutions) (segment : List Operator) :
    List Operator → Solutions
  | [] => alongSteps guarded segment.reverse live
  | step :: rest =>
      if step.needsStream then
        let seen := onStream step (alongSteps guarded segment.reverse live)
        segmentsOnStream guarded (if guarded then .guarded seen else seen) [] rest
      else segmentsOnStream guarded live (step :: segment) rest
termination_by structural steps => steps

end

/-- Applies steps to a stream, looking at the abort signal after each one if asked to. -/
def stepsOnStream (guarded : Bool) (live : Solutions) (steps : List Operator) : Solutions :=
  segmentsOnStream guarded live [] steps

end Operator

/-! ## Single stacks -/

/-- Takes arguments off a stack, deepest first; if there are too few, how many there were. -/
def takeArguments : Nat → List Value → Stack → Except Nat (List Value × Stack)
  | 0, arguments, rest => .ok (arguments, rest)
  | _ + 1, arguments, [] => .error arguments.length
  | n + 1, arguments, v :: rest => takeArguments n (v :: arguments) rest

namespace Action

def push (rest : Stack) (v : Value) : Solutions := .single (v :: rest)

/-- One stack if there is a value to push, and none otherwise. -/
def pushSome (rest : Stack) (v : Option Value) : Solutions :=
  match v with
  | some v => push rest v
  | none => .none

/-- An error in place of solutions. -/
def orFail (result : Except EvalError Solutions) : Solutions :=
  match result with
  | .ok solutions => solutions
  | .error error => .fail error

/-- Pushes what arithmetic makes of two arguments. -/
def arithmetic (f : Number → Number → Option Number) (x y : Value) (rest : Stack) : Solutions :=
  orFail do
    let a ← x.readNumber
    let b ← y.readNumber
    .ok (pushSome rest ((f a b).map .number))

def sign : Ordering → Value
  | .lt => .integer (-1)
  | .eq => .integer 0
  | .gt => .integer 1

/-- A count is an integer that is not negative. -/
def count? : Number → Option Nat
  | .integer i => if 0 ≤ i.toInt then some i.toInt.toNat else none
  | .decimal _ => none

/-- What an action makes of its arguments, deepest first, and the rest of the stack. -/
def perform (l : Library) (rest : Stack) : Action → List Value → Solutions
  | .drop, _ => .single rest
  | .dup, [x] => .single (x :: x :: rest)
  | .swap, [x, y] => .single (x :: y :: rest)
  | .rotate, [x, y, z] => .single (x :: y :: z :: rest)
  | .rotated, [x, y, z, w] => .single (w :: x :: y :: z :: rest)
  | .swons, [list, x] => .lists (.swons x) rest (.ofValue list)
  | .uncons, [list] => .lists .uncons rest (.ofValue list)
  | .each, [list] => .lists .each rest (.ofValue list)
  | .run, [p] => .operators .run rest (.ofValue l p)
  | .times, [p, n] => orFail do
      let n ← n.readNumber
      .ok (match count? n with
        | some count => .operators (.times count) rest (.ofValue l p)
        | none => .none)
  | .invert, [p] => .operators .invert rest (.ofValue l p)
  | .and, [x, y] => push rest (.boolean (x.isTrue && y.isTrue))
  | .or, [x, y] => push rest (.boolean (x.isTrue || y.isTrue))
  | .not, [x] => push rest (.boolean !x.isTrue)
  | .upper, [_, x] => push rest x
  | .lower, [y, _] => push rest y
  | .equal, [x, y] => push rest (.boolean (x.same y))
  | .compare, [x, y] => push rest (sign (x.order y))
  | .greater, [x, y] => push rest (.boolean (x.order y == .gt))
  | .less, [x, y] => push rest (.boolean (x.order y == .lt))
  | .toInteger, [x] =>
      orFail (x.toInteger?.map fun n => pushSome rest (n.map (.number ∘ .integer)))
  | .toDecimal, [x] =>
      orFail (x.toDecimal?.map fun d => pushSome rest (d.map (.number ∘ .decimal)))
  | .toText, [x] => push rest (.text x.plainText)
  | .add, [x, y] => arithmetic (fun a b => some (a.add b)) x y rest
  | .sub, [x, y] => arithmetic (fun a b => some (a.sub b)) x y rest
  | .mul, [x, y] => arithmetic (fun a b => some (a.mul b)) x y rest
  | .div, [x, y] => arithmetic Number.div? x y rest
  | .neg, [x] => orFail (x.readNumber.map fun n => push rest (.number n.neg))
  | .sqrt, [x] =>
      orFail (x.readNumber.map fun n =>
        .ofStacks (n.squareRoots.map fun root => .decimal root :: rest))
  | .function f, [x] =>
      orFail (x.readNumber.map fun n =>
        pushSome rest ((f.value? n.toDecimal).map (.number ∘ .decimal)))
  | .links, [.resource subject, .resource predicate] => .objects subject predicate rest
  | .naturals, [] => .unending (fun n => .ok (.number (.integer (Int64.ofNat n)) :: rest)) 0
  | _, _ => .none

end Action

namespace Primitive

def arityError (p : Primitive) (found : Nat) : EvalError := .arity p.name p.arity found

def apply (l : Library) (p : Primitive) (stack : Stack) : Solutions :=
  if p.action.needsStream then
    if stack.length < p.arity then .fail (p.arityError stack.length)
    else .distinct [] (.single stack)
  else
    match takeArguments p.arity [] stack with
    | .error found => .fail (p.arityError found)
    | .ok (arguments, rest) => p.action.perform l rest arguments

end Primitive

namespace Operator

def apply (l : Library) : Operator → Stack → Solutions
  | .primitive p, stack => p.apply l stack
  | .composed steps _, stack => stepsOnStream false (.single stack) steps
  | .inverted _ inverse, stack => inverse.apply l stack
  | .constant v, stack => .single (v :: stack)

/-- Applies an operator to a stream over and over, each time to the whole stream. -/
def onStreamTimes (op : Operator) : Nat → Solutions → Solutions
  | 0, live => live
  | n + 1, live => onStreamTimes op n (onStream op live)

def applyTimes (op : Operator) (stack : Stack) (count : Nat) : Solutions :=
  if op.needsStream then onStreamTimes op count (.single stack)
  else (Solutions.single stack).along ⟨.repeated op count, false⟩

end Operator

end StackQuery
