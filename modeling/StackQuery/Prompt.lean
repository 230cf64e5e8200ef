import StackQuery.Command.Run

/-!
What is entered at a prompt.

A line holds a statement, and most statements are queued as commands.  A line
that cannot be read is reported at once.
-/

namespace StackQuery

inductive Input where
  | line (text : String)
  | interrupt
  | endOfInput
  deriving DecidableEq, Repr

inductive Reaction where
  /-- A statement was queued or reported. -/
  | proceed
  /-- There was nothing on the line. -/
  | newline
  /-- What runs and what is queued has been stopped. -/
  | escape
  | quit
  deriving DecidableEq, Repr

namespace SessionQueue

variable {σ : Type}

def reportLine (services : Services σ) (q : SessionQueue σ) (error : LineError) : SessionQueue σ :=
  let report := ErrorReport.ofFailure none "parse" (.line error)
  { q with world := (Command.behaviour services).report report q.world }

def enqueue (services : Services σ) (q : SessionQueue σ) (command : Command) :
    SessionQueue σ × Reaction :=
  ((q.add (Command.behaviour services) command).1, .proceed)

/-- Does what a statement asks for, or queues it as a command. -/
def enter (services : Services σ) (q : SessionQueue σ) : Statement → SessionQueue σ × Reaction
  | .query tokens => enqueue services q (.query tokens false)
  | .define name tokens => enqueue services q (.define name tokens)
  | .directive d => enqueue services q (.directive d)
  | .quit => (q, .quit)
  | .empty => (q, .newline)

def handle (services : Services σ) (q : SessionQueue σ) : Input → SessionQueue σ × Reaction
  | .line text => match Statement.read text with
    | .ok statement => enter services q statement
    | .error error => (reportLine services q error, .proceed)
  | .interrupt => (q.stop (Command.behaviour services), .escape)
  | .endOfInput => (q, .quit)

end SessionQueue

end StackQuery
