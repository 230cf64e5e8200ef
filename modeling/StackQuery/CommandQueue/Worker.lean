import StackQuery.CommandQueue

/-!
The worker of a queue, step by step.
-/

namespace StackQuery

namespace CommandQueue

variable {κ ρ ω : Type}

def atPhase (q : CommandQueue κ ρ ω) (job : Job κ ρ) (phase : Phase ρ) : CommandQueue κ ρ ω :=
  { q with worker := .busy { job with phase } }

/-- Takes the next command out of the queue; an empty queue is idle. -/
def takeCommand (q : CommandQueue κ ρ ω) : CommandQueue κ ρ ω :=
  match q.pending with
  | [] => { q with worker := .parked, idle := true }
  | (id, command) :: pending => { q with worker := .busy ⟨id, command, false, .taken⟩, pending }

/-- Lets a command go whose record is final; a failure is kept unless there is an earlier one. -/
def release (q : CommandQueue κ ρ ω) (status : CommandStatus) (result : Except Failure Unit) :
    CommandQueue κ ρ ω :=
  { q with
    worker := .between
    firstFailure := match q.firstFailure, status, result with
      | none, .failed, .error failure => some failure
      | earlier, _, _ => earlier
    idle := q.idle || q.pending.isEmpty }

def report (b : Behaviour κ ρ ω) (q : CommandQueue κ ρ ω) (job : Job κ ρ) :
    Except Failure Unit → CommandQueue κ ρ ω
  | .ok () => q
  | .error failure =>
      { q with
        world := b.report (.ofFailure (some job.id) (b.name job.command) failure) q.world }

/-- One step with a command; nothing if it waits. -/
def advanceJob? (b : Behaviour κ ρ ω) (q : CommandQueue κ ρ ω) (job : Job κ ρ) :
    Option (CommandQueue κ ρ ω) :=
  match job.phase with
  | .taken => some ((q.record job.id .running).atPhase job (.started (b.start job.command)))
  | .started run => match b.step job.id job.command run q.world with
    | .working run world => some ({ q with world }.atPhase job (.started run))
    | .waiting => none
    | .returned result world => some ({ q with world }.atPhase job (.returned result))
  | .returned result =>
      some (q.atPhase job (.judged (.ofResult job.abortRequested result) result))
  | .judged status result => some ((q.report b job result).atPhase job (.reported status result))
  | .reported status result =>
      some ((q.record job.id status).atPhase job (.recorded status result))
  | .recorded status result => some (q.release status result)

/-- One step of the worker; nothing if it waits or has exited. -/
def advance? (b : Behaviour κ ρ ω) (q : CommandQueue κ ρ ω) : Option (CommandQueue κ ρ ω) :=
  match q.worker with
  | .seeking => some q.takeCommand
  | .busy job => q.advanceJob? b job
  | .between => match q.exitSign with
    | .unset => some { q with worker := .seeking }
    | .set => some { q with worker := .exited, exitSign := .unset }
    | .overrun => some { q with worker := .seeking, exitSign := .set }
  | .parked =>
      if q.exitSign ≠ .unset then some { q with worker := .exited, exitSign := .unset }
      else if q.notice then some { q with worker := .seeking, notice := false }
      else none
  | .exited => none

/-- Lets the worker go on until it waits or has exited, at most `fuel` steps. -/
def settle (b : Behaviour κ ρ ω) : Nat → CommandQueue κ ρ ω → CommandQueue κ ρ ω
  | 0, q => q
  | fuel + 1, q =>
      match q.advance? b with
      | some q => settle b fuel q
      | none => q

/-- Waits until the queue is idle; no result if that would take for ever. -/
def waitIdle (b : Behaviour κ ρ ω) (fuel : Nat) (q : CommandQueue κ ρ ω) :
    CommandQueue κ ρ ω × Option (Except Failure Unit) :=
  let q := q.settle b fuel
  if q.idle then
    let (q, result) := q.takeFailure
    (q, some result)
  else (q, none)

/--
Stops the queue and waits for the worker to exit, the first time that this is
asked for.  A worker that waits for something else does not exit in time.
-/
def shutdown (b : Behaviour κ ρ ω) (fuel timeout : Nat) (q : CommandQueue κ ρ ω) :
    CommandQueue κ ρ ω × Except Failure Unit :=
  let q := (q.stop b).signalExit
  if q.attended then
    let q := { q with attended := false }.settle b fuel
    (q, match q.worker with
      | .exited => .ok ()
      | _ => .error (.internal (.shutdownTimeout timeout)))
  else (q, .ok ())

end CommandQueue

end StackQuery
