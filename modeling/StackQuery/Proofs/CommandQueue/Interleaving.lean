import StackQuery.CommandQueue.Worker

/-!
# Callers around a queue

Any number of callers add commands to a queue, stop it and look at it while its
worker goes on.  They take turns in any order: a list of turns is an
interleaving, and a turn that cannot be taken changes nothing.  A look at a
status changes nothing either and is no turn: it sees the queue as it is
between two turns.

The queue is locked while a command is pushed, while the worker takes a
command, looks for a request to abort or lets a command go, while a failure is
handed out, and for the whole of a stop.  Each of these but the stop changes at
most one thing that can be seen without the lock, and so is one turn.  A stop
is taken apart: it aborts one waiting command after another, and between any
two of them statuses can be looked at, commands can be enrolled, and the worker
can do all that needs no lock.
-/

namespace StackQuery

variable {κ ρ : Type} in
/-- The command that the next step with it starts, if it starts it. -/
def Job.starting (job : Job κ ρ) : List CommandId :=
  match job.phase with
  | .taken => [job.id]
  | _ => []

namespace Worker

variable {κ ρ : Type}

/-- Whether the next step of the worker waits for the lock. -/
def needsLock : Worker κ ρ → Bool
  | .seeking => true
  | .busy job => match job.phase with
    | .returned _ | .recorded _ _ => true
    | _ => false
  | _ => false

def starting : Worker κ ρ → List CommandId
  | .busy job => job.starting
  | _ => []

end Worker

namespace CommandQueue

variable {κ ρ ω : Type}

def status? (q : CommandQueue κ ρ ω) (id : CommandId) : Option CommandStatus :=
  q.records[id]?.map (·.status)

/-- The commands that wait in the queue, first to last. -/
def waiting (q : CommandQueue κ ρ ω) : List CommandId := q.pending.map (·.1)

/-- The commands that are still to start, in the order in which they will. -/
def awaited (q : CommandQueue κ ρ ω) : List CommandId := q.worker.starting ++ q.waiting

/-- Takes the first command out of the queue and records it as aborted. -/
def dropFirst (q : CommandQueue κ ρ ω) : CommandQueue κ ρ ω :=
  match q.pending with
  | [] => q
  | (id, _) :: pending => { q.record id .aborted with pending }

/-- The end of a stop: the running command is asked to stop; if there is none, the queue is idle. -/
def endStop (b : Behaviour κ ρ ω) (q : CommandQueue κ ρ ω) : CommandQueue κ ρ ω :=
  match q.worker with
  | .busy job =>
      let (command, world) := b.abort job.command q.world
      { q with worker := .busy { job with command, abortRequested := true }, world }
  | _ => { q with idle := true }

end CommandQueue

/-- A queue amid its callers, with what has happened so far. -/
structure Scene (κ ρ ω : Type) where
  queue : CommandQueue κ ρ ω
  /-- The commands that have a number and are yet to be pushed. -/
  enrolled : List (CommandId × κ)
  /-- The number of commands that are pushed while the worker is yet to be told of them. -/
  untold : Nat
  /-- Whether a stop has the lock. -/
  stopping : Bool
  /-- The commands that have been pushed, in this order. -/
  pushed : List CommandId
  /-- The commands that have been started, in this order. -/
  started : List CommandId

inductive Turn (κ ω : Type) where
  | enroll (command : κ)
  /-- One of the enrolled commands is pushed, given its place among them. -/
  | push (place : Nat)
  | notify
  /-- A stop takes the lock. -/
  | beginStop
  /-- The stop aborts the first of the waiting commands. -/
  | dropFirst
  /-- Nothing waits any longer; the stop ends and gives the lock back. -/
  | endStop
  /-- The worker takes one step. -/
  | work
  | takeFailure
  | signalExit
  /-- Something outside changes what commands depend on. -/
  | change (world : ω)

namespace Scene

variable {κ ρ ω : Type}

def start (world : ω) : Scene κ ρ ω := ⟨.empty world, [], 0, false, [], []⟩

def after (b : Behaviour κ ρ ω) (s : Scene κ ρ ω) : Turn κ ω → Scene κ ρ ω
  | .enroll command =>
      let (queue, id) := s.queue.enroll (b.name command)
      { s with queue, enrolled := s.enrolled ++ [(id, command)] }
  | .push place =>
      if s.stopping then s
      else match s.enrolled[place]? with
        | none => s
        | some (id, command) =>
            { s with
              queue := s.queue.push id command
              enrolled := s.enrolled.eraseIdx place
              untold := s.untold + 1
              pushed := s.pushed ++ [id] }
  | .notify =>
      if s.untold = 0 then s else { s with queue := s.queue.notify, untold := s.untold - 1 }
  | .beginStop => { s with stopping := true }
  | .dropFirst => if s.stopping then { s with queue := s.queue.dropFirst } else s
  | .endStop =>
      if s.stopping ∧ s.queue.pending.isEmpty then
        { s with queue := s.queue.endStop b, stopping := false }
      else s
  | .work =>
      if s.stopping ∧ s.queue.worker.needsLock then s
      else match s.queue.advance? b with
        | none => s
        | some queue => { s with queue, started := s.started ++ s.queue.worker.starting }
  | .takeFailure => if s.stopping then s else { s with queue := s.queue.takeFailure.1 }
  | .signalExit => { s with queue := s.queue.signalExit }
  | .change world => { s with queue := { s.queue with world } }

def run (b : Behaviour κ ρ ω) (s : Scene κ ρ ω) (turns : List (Turn κ ω)) : Scene κ ρ ω :=
  turns.foldl (after b) s

/-- What holds at first and through every turn holds after any number of turns. -/
theorem run_induction {b : Behaviour κ ρ ω} {P : Scene κ ρ ω → Prop}
    (hstep : ∀ s turn, P s → P (s.after b turn)) {s : Scene κ ρ ω} (hs : P s)
    (turns : List (Turn κ ω)) : P (s.run b turns) := by
  induction turns generalizing s with
  | nil => exact hs
  | cons turn rest ih => exact ih (hstep s turn hs)

end Scene

/-! ## Turns without anything in between -/

namespace CommandQueue

variable {κ ρ ω : Type} {b : Behaviour κ ρ ω} {q : CommandQueue κ ρ ω}

theorem stop_eq_endStop : q.stop b = q.dropPending.endStop b := rfl

private theorem foldl_record_withPending (dropped : List (CommandId × κ))
    (pending : List (CommandId × κ)) (q : CommandQueue κ ρ ω) :
    { dropped.foldl (fun q (id, _) => q.record id .aborted) { q with pending } with
      pending := [] } =
    { dropped.foldl (fun q (id, _) => q.record id .aborted) q with pending := [] } := by
  induction dropped generalizing q with
  | nil => rfl
  | cons first rest ih => exact ih (q.record first.1 .aborted)

theorem dropPending_of_nil (h : q.pending = []) : q.dropPending = q := by
  unfold dropPending
  rw [h, List.foldl_nil, ← h]

theorem dropPending_of_cons {id : CommandId} {command : κ} {pending : List (CommandId × κ)}
    (h : q.pending = (id, command) :: pending) : q.dropPending = q.dropFirst.dropPending := by
  simp only [dropPending, dropFirst, h, List.foldl_cons]
  exact (foldl_record_withPending pending pending (q.record id .aborted)).symm

end CommandQueue

namespace Scene

variable {κ ρ ω : Type} {b : Behaviour κ ρ ω} {s : Scene κ ρ ω}

theorem run_add (hfree : s.stopping = false) (hnone : s.enrolled = []) (command : κ) :
    s.run b [.enroll command, .push 0, .notify] =
      { s with
        queue := (s.queue.add b command).1
        pushed := s.pushed ++ [(s.queue.add b command).2] } := by
  obtain ⟨q, enrolled, untold, stopping, pushed, started⟩ := s
  subst hfree hnone
  rfl

theorem run_drops (hlocked : s.stopping = true) :
    s.run b (List.replicate s.queue.pending.length .dropFirst ++ [.endStop]) =
      { s with queue := s.queue.stop b, stopping := false } := by
  generalize hpending : s.queue.pending = pending
  induction pending generalizing s with
  | nil =>
      simp only [run, List.length_nil, List.replicate_zero, List.nil_append, List.foldl_cons,
        List.foldl_nil, after, hlocked, hpending, List.isEmpty_nil, and_self, if_true]
      rw [CommandQueue.stop_eq_endStop, CommandQueue.dropPending_of_nil hpending]
  | cons first pending ih =>
      have hdrop : s.after b .dropFirst = { s with queue := s.queue.dropFirst } := if_pos hlocked
      have hrest : s.queue.dropFirst.pending = pending := by
        simp only [CommandQueue.dropFirst, hpending]
      rw [List.length_cons, List.replicate_succ, List.cons_append]
      change (s.after b .dropFirst).run b _ = _
      rw [hdrop, ih (by exact hlocked) hrest, CommandQueue.stop_eq_endStop,
        CommandQueue.stop_eq_endStop, CommandQueue.dropPending_of_cons hpending]

theorem run_stop (hfree : s.stopping = false) :
    s.run b (.beginStop :: (List.replicate s.queue.pending.length .dropFirst ++ [.endStop])) =
      { s with queue := s.queue.stop b } := by
  change (s.after b .beginStop).run b _ = _
  have hlocked : (s.after b .beginStop).stopping = true := rfl
  rw [show s.queue = (s.after b .beginStop).queue from rfl, run_drops hlocked, ← hfree]
  rfl

/-- Left alone, the worker does what settling does. -/
theorem run_work (hfree : s.stopping = false) (fuel : Nat) :
    (s.run b (List.replicate fuel .work)).queue = s.queue.settle b fuel := by
  induction fuel generalizing s with
  | zero => rfl
  | succ fuel ih =>
      rw [List.replicate_succ]
      change ((s.after b .work).run b _).queue = _
      have hunlocked : ¬(s.stopping = true ∧ s.queue.worker.needsLock = true) := by
        simp [hfree]
      simp only [after, if_neg hunlocked, CommandQueue.settle]
      cases hstep : s.queue.advance? b with
      | none =>
          rw [ih hfree]
          cases fuel with
          | zero => rfl
          | succ fuel => simp only [CommandQueue.settle, hstep]
      | some queue => exact ih hfree

end Scene

/-! ## What a step of the worker can do -/

theorem CommandStatus.isFinished_ofResult (abortRequested : Bool) (result : Except Failure Unit) :
    (CommandStatus.ofResult abortRequested result).isFinished = true := by
  cases result with
  | ok _ => cases abortRequested <;> rfl
  | error failure =>
      simp only [CommandStatus.ofResult]
      split <;> rfl

namespace Phase

variable {ρ : Type}

/-- What the record of a command says while the worker is in a phase with it. -/
def status : Phase ρ → CommandStatus
  | .taken => .queued
  | .started _ | .returned _ | .judged _ _ | .reported _ _ => .running
  | .recorded status _ => status

/-- What is to be recorded, or has been, is a finished status. -/
def Settled : Phase ρ → Prop
  | .judged status _ | .reported status _ | .recorded status _ => status.isFinished = true
  | _ => True

end Phase

namespace CommandQueue

variable {κ ρ ω : Type} {b : Behaviour κ ρ ω} {q q' : CommandQueue κ ρ ω}

/-- The steps of a worker, as far as commands, their records and the idle flag go. -/
inductive Advances (q : CommandQueue κ ρ ω) : CommandQueue κ ρ ω → Prop where
  | takes {id : CommandId} {command : κ} {pending : List (CommandId × κ)}
      (hworker : q.worker = .seeking) (hpending : q.pending = (id, command) :: pending) :
      Advances q { q with worker := .busy ⟨id, command, false, .taken⟩, pending }
  | parks (hworker : q.worker = .seeking) (hpending : q.pending = []) :
      Advances q { q with worker := .parked, idle := true }
  | starts {job : Job κ ρ} (hworker : q.worker = .busy job) (hphase : job.phase = .taken)
      (run : ρ) : Advances q ((q.record job.id .running).atPhase job (.started run))
  | goesOn {job : Job κ ρ} {phase : Phase ρ} (world : ω) (hworker : q.worker = .busy job)
      (hbefore : job.phase.status = .running) (hafter : phase.status = .running)
      (hsettled : job.phase.Settled → phase.Settled) :
      Advances q ({ q with world }.atPhase job phase)
  | records {job : Job κ ρ} {status : CommandStatus} {result : Except Failure Unit}
      (hworker : q.worker = .busy job) (hphase : job.phase = .reported status result) :
      Advances q ((q.record job.id status).atPhase job (.recorded status result))
  | releases {job : Job κ ρ} {status : CommandStatus} {result : Except Failure Unit}
      (hworker : q.worker = .busy job) (hphase : job.phase = .recorded status result) :
      Advances q (q.release status result)
  | rests {worker : Worker κ ρ} {notice : Bool} {exitSign : ExitSign}
      (hbefore : ∀ job, q.worker ≠ .busy job) (hafter : ∀ job, worker ≠ .busy job) :
      Advances q { q with worker, notice, exitSign }

theorem report_eq (b : Behaviour κ ρ ω) (q : CommandQueue κ ρ ω) (job : Job κ ρ)
    (result : Except Failure Unit) : ∃ world, q.report b job result = { q with world } := by
  cases result with
  | ok _ => exact ⟨q.world, rfl⟩
  | error failure => exact ⟨_, rfl⟩

theorem advances_of_advanceJob? {job : Job κ ρ} (hworker : q.worker = .busy job)
    (h : q.advanceJob? b job = some q') : Advances q q' := by
  unfold advanceJob? at h
  cases hphase : job.phase with
  | taken =>
      rw [hphase] at h
      cases h
      exact .starts hworker hphase _
  | started run =>
      simp only [hphase] at h
      split at h
      next =>
        cases h
        exact .goesOn _ hworker (by rw [hphase]; rfl) rfl (fun _ => True.intro)
      next => cases h
      next =>
        cases h
        exact .goesOn _ hworker (by rw [hphase]; rfl) rfl (fun _ => True.intro)
  | returned result =>
      rw [hphase] at h
      cases h
      exact .goesOn q.world hworker (by rw [hphase]; rfl) rfl
        (fun _ => CommandStatus.isFinished_ofResult _ _)
  | judged status result =>
      rw [hphase] at h
      cases h
      obtain ⟨world, hworld⟩ := q.report_eq b job result
      rw [hworld]
      exact .goesOn world hworker (by rw [hphase]; rfl) rfl (fun h => by rw [hphase] at h; exact h)
  | reported status result =>
      rw [hphase] at h
      cases h
      exact .records hworker hphase
  | recorded status result =>
      rw [hphase] at h
      cases h
      exact .releases hworker hphase

theorem advances_of_advance? (h : q.advance? b = some q') : Advances q q' := by
  have rests {worker : Worker κ ρ} {notice : Bool} {exitSign : ExitSign}
      (hbefore : ∀ job, q.worker ≠ .busy job) (hafter : ∀ job, worker ≠ .busy job) :
      Advances q { q with worker, notice, exitSign } := .rests hbefore hafter
  unfold advance? at h
  cases hworker : q.worker with
  | seeking =>
      rw [hworker] at h
      cases h
      unfold takeCommand
      split
      next hpending => exact .parks hworker hpending
      next hpending => exact .takes hworker hpending
  | busy job =>
      rw [hworker] at h
      exact advances_of_advanceJob? hworker h
  | between =>
      simp only [hworker] at h
      split at h <;>
        cases h <;>
        exact rests (by simp [hworker]) (by simp)
  | parked =>
      simp only [hworker] at h
      split at h
      next =>
        cases h
        exact rests (by simp [hworker]) (by simp)
      next =>
        split at h
        next =>
          cases h
          exact rests (by simp [hworker]) (by simp)
        next => cases h
  | exited =>
      rw [hworker] at h
      cases h

end CommandQueue

/-! ## What a turn can do -/

namespace Scene

variable {κ ρ ω : Type}

/-- What can become of a queue and its callers in one turn. -/
inductive Acts (b : Behaviour κ ρ ω) (s : Scene κ ρ ω) : Scene κ ρ ω → Prop where
  | stays : Acts b s s
  | enrolls (command : κ) :
      Acts b s
        { s with
          queue := (s.queue.enroll (b.name command)).1
          enrolled := s.enrolled ++ [(s.queue.records.length, command)] }
  | pushes {place : Nat} {id : CommandId} {command : κ} (hfree : s.stopping = false)
      (hplace : s.enrolled[place]? = some (id, command)) :
      Acts b s
        { s with
          queue := s.queue.push id command
          enrolled := s.enrolled.eraseIdx place
          untold := s.untold + 1
          pushed := s.pushed ++ [id] }
  | drops {id : CommandId} {command : κ} {pending : List (CommandId × κ)}
      (hlocked : s.stopping = true) (hpending : s.queue.pending = (id, command) :: pending) :
      Acts b s { s with queue := { s.queue.record id .aborted with pending } }
  | asks {job : Job κ ρ} (hlocked : s.stopping = true) (hpending : s.queue.pending = [])
      (hworker : s.queue.worker = .busy job) (command : κ) (world : ω) :
      Acts b s
        { s with
          queue := { s.queue with
            worker := .busy { job with command, abortRequested := true }
            world }
          stopping := false }
  | idles (hlocked : s.stopping = true) (hpending : s.queue.pending = [])
      (hworker : ∀ job, s.queue.worker ≠ .busy job) :
      Acts b s { s with queue := { s.queue with idle := true }, stopping := false }
  | works {queue : CommandQueue κ ρ ω}
      (hlock : s.stopping = true → s.queue.worker.needsLock = false)
      (hstep : s.queue.Advances queue) :
      Acts b s { s with queue, started := s.started ++ s.queue.worker.starting }
  | aside {untold : Nat} {stopping notice : Bool} {firstFailure : Option Failure}
      {exitSign : ExitSign} {world : ω} (hlock : s.stopping = true → stopping = true) :
      Acts b s
        { s with
          queue := { s.queue with notice, firstFailure, exitSign, world }
          untold
          stopping }

theorem acts_after (b : Behaviour κ ρ ω) (s : Scene κ ρ ω) (turn : Turn κ ω) :
    Acts b s (s.after b turn) := by
  cases turn with
  | enroll command => exact .enrolls command
  | push place =>
      simp only [after]
      split
      next => exact .stays
      next hfree =>
        split
        next => exact .stays
        next hplace => exact .pushes (by simpa using hfree) hplace
  | notify =>
      simp only [after]
      split
      next => exact .stays
      next => exact .aside id
  | beginStop => exact .aside fun _ => rfl
  | dropFirst =>
      simp only [after]
      split
      next hlocked =>
        unfold CommandQueue.dropFirst
        split
        next => exact .stays
        next hpending => exact .drops hlocked hpending
      next => exact .stays
  | endStop =>
      simp only [after]
      split
      next hlocked =>
        have hpending := List.isEmpty_iff.mp hlocked.2
        unfold CommandQueue.endStop
        split
        next hworker => exact .asks hlocked.1 hpending hworker _ _
        next hworker => exact .idles hlocked.1 hpending hworker
      next => exact .stays
  | work =>
      simp only [after]
      split
      next => exact .stays
      next hlock =>
        split
        next => exact .stays
        next hstep =>
          exact .works (by simpa using hlock) (CommandQueue.advances_of_advance? hstep)
  | takeFailure =>
      simp only [after]
      split
      next => exact .stays
      next => exact .aside id
  | signalExit =>
      simp only [after, CommandQueue.signalExit]
      split
      next => exact .stays
      next => exact .aside id
  | change world => exact .aside id

end Scene

end StackQuery
