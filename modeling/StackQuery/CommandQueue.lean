import StackQuery.CommandQueue.Record
import StackQuery.Sink

/-!
A queue of commands with a single worker.

Commands are run one at a time in the order in which they are queued.  Every
operation here is one that nothing else can come between; adding a command and
running one are sequences of them, between which anything else may happen.

What a command does is left open: commands `κ` have runs `ρ` and change a
world `ω`.
-/

namespace StackQuery

/-- What one step of a running command brings. -/
inductive Activity (ρ ω : Type) where
  | working (run : ρ) (world : ω)
  /-- Nothing happens until something else changes the world. -/
  | waiting
  | returned (result : Except Failure Unit) (world : ω)

structure Behaviour (κ ρ ω : Type) where
  name : κ → String
  start : κ → ρ
  step : CommandId → κ → ρ → ω → Activity ρ ω
  /-- Asks a command to stop, whether it runs or not. -/
  abort : κ → ω → κ × ω
  /-- Puts out an error report, whether it is taken or not. -/
  report : ErrorReport → ω → ω

/-- How far the worker is with a command that it has taken. -/
inductive Phase (ρ : Type) where
  /-- Taken from the queue, but not yet recorded as running. -/
  | taken
  | started (run : ρ)
  | returned (result : Except Failure Unit)
  | judged (status : CommandStatus) (result : Except Failure Unit)
  /-- A failure has been put out. -/
  | reported (status : CommandStatus) (result : Except Failure Unit)
  /-- The record is final. -/
  | recorded (status : CommandStatus) (result : Except Failure Unit)

structure Job (κ ρ : Type) where
  id : CommandId
  command : κ
  abortRequested : Bool
  phase : Phase ρ

inductive Worker (κ ρ : Type) where
  /-- About to look for a command. -/
  | seeking
  | busy (job : Job κ ρ)
  /-- Done with a command, and about to look for the sign to exit. -/
  | between
  /-- The queue was empty; waiting for a notice or the sign to exit. -/
  | parked
  | exited

/-- The sign to exit; a second one hides the first from the next look at it. -/
inductive ExitSign where
  | unset
  | set
  | overrun
  deriving DecidableEq, Repr

structure CommandQueue (κ ρ ω : Type) where
  /-- The records of all commands, in the order of their numbers. -/
  records : List CommandRecord
  /-- The commands that wait to be run, first to last. -/
  pending : List (CommandId × κ)
  worker : Worker κ ρ
  /-- Whether those who wait for the queue are let go. -/
  idle : Bool
  /-- A notice that the worker has not yet seen. -/
  notice : Bool
  firstFailure : Option Failure
  exitSign : ExitSign
  /-- Whether a shutdown would still wait for the worker. -/
  attended : Bool
  world : ω

namespace CommandQueue

variable {κ ρ ω : Type}

def empty (world : ω) : CommandQueue κ ρ ω where
  records := []
  pending := []
  worker := .seeking
  idle := true
  notice := false
  firstFailure := none
  exitSign := .unset
  attended := true
  world := world

def running? (q : CommandQueue κ ρ ω) : Option (Job κ ρ) :=
  match q.worker with
  | .busy job => some job
  | _ => none

def record (q : CommandQueue κ ρ ω) (id : CommandId) (status : CommandStatus) :
    CommandQueue κ ρ ω :=
  { q with records := q.records.modify id fun r => r.transition status }

/-! ## Adding -/

/-- The first step of adding: the command gets a record and a number. -/
def enroll (q : CommandQueue κ ρ ω) (name : String) : CommandQueue κ ρ ω × CommandId :=
  ({ q with records := q.records ++ [.queued name] }, q.records.length)

/-- The second step of adding: the command is queued. -/
def push (q : CommandQueue κ ρ ω) (id : CommandId) (command : κ) : CommandQueue κ ρ ω :=
  { q with pending := q.pending ++ [(id, command)], idle := false }

/-- The last step of adding: the worker is told. -/
def notify (q : CommandQueue κ ρ ω) : CommandQueue κ ρ ω := { q with notice := true }

/-- Adds a command without anything in between. -/
def add (b : Behaviour κ ρ ω) (q : CommandQueue κ ρ ω) (command : κ) :
    CommandQueue κ ρ ω × CommandId :=
  let (q, id) := q.enroll (b.name command)
  ((q.push id command).notify, id)

/-! ## Stopping -/

/-- Takes all commands out of the queue and records them as aborted. -/
def dropPending (q : CommandQueue κ ρ ω) : CommandQueue κ ρ ω :=
  { q.pending.foldl (fun q (id, _) => q.record id .aborted) q with pending := [] }

/-- Aborts all commands in the queue and asks the one that runs to stop. -/
def stop (b : Behaviour κ ρ ω) (q : CommandQueue κ ρ ω) : CommandQueue κ ρ ω :=
  let q := q.dropPending
  match q.worker with
  | .busy job =>
      let (command, world) := b.abort job.command q.world
      { q with worker := .busy { job with command, abortRequested := true }, world }
  | _ => { q with idle := true }

/-! ## Waiting -/

/-- Hands out the first failure since the last time that this was done. -/
def takeFailure (q : CommandQueue κ ρ ω) : CommandQueue κ ρ ω × Except Failure Unit :=
  ({ q with firstFailure := none }, match q.firstFailure with
    | some failure => .error failure
    | none => .ok ())

/-- Gives the worker the sign to exit; there is nobody to see it once it has exited. -/
def signalExit (q : CommandQueue κ ρ ω) : CommandQueue κ ρ ω :=
  match q.worker with
  | .exited => q
  | _ => { q with exitSign := if q.exitSign = .unset then .set else .overrun }

end CommandQueue

end StackQuery
