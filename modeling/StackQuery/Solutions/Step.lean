import StackQuery.Operator.Apply

/-!
The step of a stream of solutions.
-/

namespace StackQuery

/-- What an evaluation is surrounded by at one moment. -/
structure Surroundings where
  library : Library
  ask : Connection
  /-- The abort signal is set. -/
  aborted : Bool

namespace ListUse

def respond (rest : Stack) : ListUse → List Value → List Item
  | .swons first, list => [.ok (.list (first :: list) :: rest)]
  | .uncons, [] => []
  | .uncons, first :: tail => [.ok (.list tail :: first :: rest)]
  | .each, list => list.map fun member => .ok (member :: rest)

end ListUse

namespace OperatorUse

def respond (l : Library) (rest : Stack) : OperatorUse → Operator → Solutions
  | .run, op => op.apply l rest
  | .times count, op => op.applyTimes rest count
  | .invert, op => match op.inverse l with
    | .ok inverse => .single (.operator inverse :: rest)
    | .error error => .fail error

end OperatorUse

def Plan.run (l : Library) (plan : Plan) (i : Nat) (stack : Stack) : Solutions :=
  match plan.route.operator? i with
  | some op => if plan.guarded then .guarded (op.apply l stack) else op.apply l stack
  | none => .none

namespace Solutions

/-- One step of a stream, with at most one question to the store. -/
def step (s : Surroundings) : Solutions → Progress EvalError Solutions Stack
  | .items [] => .ended
  | .items (item :: rest) => .item item (.items rest)
  | .unending item n => .item (item n) (.unending item (n + 1))
  | .guarded live =>
      match step s live with
      | .item result next =>
          .item (if s.aborted then .error .aborted else result) (.guarded next)
      | .working next => .working (.guarded next)
      | .waiting => .waiting
      | .ended => .ended
  | .pushing v live =>
      match step s live with
      | .item result next => .item (result.map (v :: ·)) (.pushing v next)
      | .working next => .working (.pushing v next)
      | .waiting => .waiting
      | .ended => .ended
  | .through op live =>
      match step s live with
      | .item (.ok stack) next =>
          .working (.append (op.apply s.library stack) (.through op next))
      | .item (.error error) next => .item (.error error) (.through op next)
      | .working next => .working (.through op next)
      | .waiting => .waiting
      | .ended => .ended
  | .deep operator arity live =>
      match step s live with
      | .item (.ok stack) next =>
          if stack.length < arity then
            .item (.error (.arity operator arity stack.length)) (.deep operator arity next)
          else .item (.ok stack) (.deep operator arity next)
      | .item (.error error) next => .item (.error error) (.deep operator arity next)
      | .working next => .working (.deep operator arity next)
      | .waiting => .waiting
      | .ended => .ended
  | .distinct seen live =>
      match step s live with
      | .item (.ok stack) next =>
          if seen.any stack.same then .working (.distinct seen next)
          else .item (.ok stack) (.distinct (stack :: seen) next)
      | .item (.error error) next => .item (.error error) (.distinct seen next)
      | .working next => .working (.distinct seen next)
      | .waiting => .waiting
      | .ended => .ended
  | .sequence _ [] => .ended
  | .sequence plan (⟨applied, live⟩ :: below) =>
      (Frame.advance plan.route.length isSpent (plan.run s.library) applied below
        (step s live)).mapState (.sequence plan)
  | .lists use rest reading =>
      match reading.step s.ask with
      | .item (.ok list) next =>
          .working (andThen (.items (use.respond rest list)) (.lists use rest next))
      | .item (.error error) next => .item (.error error) (.lists use rest next)
      | .working next => .working (.lists use rest next)
      | .waiting => .waiting
      | .ended => .ended
  | .operators use rest reading =>
      match reading.step s.library s.ask with
      | .item (.ok op) next =>
          .working (andThen (use.respond s.library rest op) (.operators use rest next))
      | .item (.error error) next => .item (.error error) (.operators use rest next)
      | .working next => .working (.operators use rest next)
      | .waiting => .waiting
      | .ended => .ended
  | .objects subject predicate rest =>
      match s.ask subject predicate with
      | .waiting => .waiting
      | .failed error => .item (.error (.store error)) .none
      | .found values => .working (.ofStacks (values.map (· :: rest)))
  | .append first second =>
      match step s first with
      | .item result next => .item result (.append next second)
      | .working next => .working (.append next second)
      | .waiting => .waiting
      | .ended => .working second

end Solutions

end StackQuery
