import StackQuery.Solutions.Step

/-!
Evaluating queries.

A query is a sequence of values to push and names to apply.  The names are
looked up before anything runs, and the solutions are then pulled one by one.
-/

namespace StackQuery

inductive Token where
  | push (value : Value)
  | call (name : String)

def Token.operator (l : Library) : Token → Except EvalError Operator
  | .push v => .ok (.constant v)
  | .call name => match l.resolve? name with
    | some op => .ok op
    | none => .error (.undefined name)

/-- The operators that tokens stand for, up to the first name that is not loaded. -/
def Token.operators (l : Library) (tokens : List Token) : Except EvalError (List Operator) :=
  tokens.mapM (Token.operator l)

def evaluate (s : Surroundings) (tokens : List Token) (stack : Stack) :
    Except EvalError Solutions :=
  if s.aborted then .error .aborted
  else do
    let steps ← Token.operators s.library tokens
    .ok (Operator.stepsOnStream true (.guarded (.single stack)) steps)

def Solutions.next (s : Surroundings) (fuel : Nat) (live : Solutions) :
    Pulled EvalError Solutions Stack :=
  pull (Solutions.step s) fuel live

/-- All the solutions of a stream that ends, or its first error. -/
def Solutions.collect (s : Surroundings) (fuel : Nat) :
    Nat → Solutions → Except EvalError (List Stack)
  | 0, _ => .ok []
  | count + 1, live =>
      match live.next s fuel with
      | .item (.ok stack) next => (collect s fuel count next).map (stack :: ·)
      | .item (.error error) _ => .error error
      | _ => .ok []

end StackQuery
