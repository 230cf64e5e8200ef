import StackQuery.Error
import StackQuery.Value

/-!
What commands put out, and where it goes.

A sink takes events one by one and may refuse one.  Refusing is an answer to
whoever put the event; it does not keep the sink from being asked again.
-/

namespace StackQuery

/-- Commands are numbered in the order in which they are recorded. -/
abbrev CommandId := Nat

/-- A failure in the form that is put out; a line that could not be read belongs to no command. -/
structure ErrorReport where
  command : Option CommandId
  commandName : String
  kind : ErrorKind
  message : String
  causes : List String
  deriving DecidableEq, Repr

def ErrorReport.ofFailure (command : Option CommandId) (commandName : String) (f : Failure) :
    ErrorReport :=
  ⟨command, commandName, f.kind, f.message, f.causes⟩

inductive Event where
  /-- The solution of a query with an index, counted from zero. -/
  | solution (command : Option CommandId) (index : Nat) (stack : Stack)
  | message (command : Option CommandId) (text : String)
  | error (report : ErrorReport)

/-- What a destination with states `σ` does with an event. -/
structure Sink (σ : Type) where
  put : σ → Event → σ × Except SinkError Unit

/-! ## Logs -/

/-- Keeps events in order, as long as there is room. -/
structure EventLog where
  events : Array Event
  /-- How many more events are taken; any number if nothing is set. -/
  room : Option Nat

namespace EventLog

def empty (room : Option Nat) : EventLog := ⟨#[], room⟩

def put (c : EventLog) (event : Event) : EventLog × Except SinkError Unit :=
  match c.room with
  | some 0 => (c, .error (.receiveFailed "sink closed"))
  | some (n + 1) => (⟨c.events.push event, some n⟩, .ok ())
  | none => (⟨c.events.push event, none⟩, .ok ())

/-- Forgets the events; this makes no more room. -/
def clear (c : EventLog) : EventLog := { c with events := #[] }

def sink : Sink EventLog := ⟨put⟩

end EventLog

/-! ## Two sinks as one -/

/-- Both sinks are given the event, and the first refusal is the answer. -/
def Sink.tee {σ τ : Type} (first : Sink σ) (second : Sink τ) : Sink (σ × τ) where
  put := fun (s, t) event =>
    let (s, result) := first.put s event
    let (t, other) := second.put t event
    ((s, t), match result with
      | .ok () => other
      | .error error => .error error)

end StackQuery
