import StackQuery.Library

/-!
Turning operators round.

A primitive is undone by the operator that it names, a composition by the
inverses of its steps from the last to the first, and an operator that was
turned round by the one it was before.
-/

namespace StackQuery

namespace Operator

/-- The inverse of a primitive, looked up by the name that it declares. -/
def primitiveInverse (l : Library) (p : Primitive) : Except EvalError Operator :=
  match p.inverse with
  | none => .error (.unsupported (.noInverse p.name))
  | some identifier =>
      match l.resolve? identifier with
      | none => .error (.unsupported (.inverseNotLoaded identifier p.name))
      | some inverse => .ok (.inverted (.primitive p) inverse)

mutual

def inverse (l : Library) : Operator → Except EvalError Operator
  | .primitive p => primitiveInverse l p
  | .inverted forward _ => .ok forward
  | .composed steps source => do
      let inverses ← inverseSteps l steps
      .ok (.inverted (.composed steps source) (compose inverses))
  | .constant v => .error (.unsupported (.constantInverse v.print))

/-- The inverses of steps, from the last step to the first. -/
def inverseSteps (l : Library) : List Operator → Except EvalError (List Operator)
  | [] => .ok []
  | step :: rest => do
      let later ← inverseSteps l rest
      let undone ← inverse l step
      .ok (later ++ [undone])

end

end Operator

end StackQuery
