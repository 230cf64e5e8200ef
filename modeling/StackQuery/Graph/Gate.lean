import StackQuery.Graph.Connection

/-!
A gate in the way of some questions.

Whoever arrives at the gate waits until it is opened.  Opening it lets the one
who waits pass, and the gate is closed behind them; opening it when nobody
waits does nothing.
-/

namespace StackQuery

inductive Gate where
  | closed
  /-- Someone waits. -/
  | waiting
  /-- The one who waited may pass. -/
  | granted
  deriving DecidableEq, Repr

namespace Gate

def arrive : Gate → Gate
  | .closed => .waiting
  | g => g

def grant : Gate → Gate
  | .waiting => .granted
  | g => g

/-- A connection of which the questions about one predicate, if any, stand behind the gate. -/
def connection (g : Gate) (guarded : Option String) (ask : Connection) : Connection :=
  fun subject predicate =>
    if guarded = some predicate ∧ g ≠ .granted then .waiting else ask subject predicate

end Gate

end StackQuery
