import Mathlib.Data.List.Induction
import StackQuery.Proofs.CommandQueue.Interleaving

/-!
# What has happened so far

A scene shows how things are, not how they came to be so.  What a command has
returned with is read off the turns that have been taken: it is among them that
the worker took the last step of the command's run.

The steps of the worker with a command that it holds are told apart here by the
phase of the command, and all other turns by what they leave of the worker.
-/

namespace StackQuery

namespace CommandQueue

variable {κ ρ ω : Type} {b : Behaviour κ ρ ω} {q q' : CommandQueue κ ρ ω} {job : Job κ ρ}

/-- The steps of the worker with a command, one or two for each phase. -/
inductive Proceeds (b : Behaviour κ ρ ω) (q : CommandQueue κ ρ ω) (job : Job κ ρ) :
    CommandQueue κ ρ ω → Prop where
  | begins (hphase : job.phase = .taken) :
      Proceeds b q job ((q.record job.id .running).atPhase job (.started (b.start job.command)))
  | works {run next : ρ} {world : ω} (hphase : job.phase = .started run)
      (hstep : b.step job.id job.command run q.world = .working next world) :
      Proceeds b q job ({ q with world }.atPhase job (.started next))
  | returns {run : ρ} {result : Except Failure Unit} {world : ω}
      (hphase : job.phase = .started run)
      (hstep : b.step job.id job.command run q.world = .returned result world) :
      Proceeds b q job ({ q with world }.atPhase job (.returned result))
  | judges {result : Except Failure Unit} (hphase : job.phase = .returned result) :
      Proceeds b q job (q.atPhase job (.judged (.ofResult job.abortRequested result) result))
  | reports {status : CommandStatus} {result : Except Failure Unit}
      (hphase : job.phase = .judged status result) :
      Proceeds b q job ((q.report b job result).atPhase job (.reported status result))
  | records {status : CommandStatus} {result : Except Failure Unit}
      (hphase : job.phase = .reported status result) :
      Proceeds b q job ((q.record job.id status).atPhase job (.recorded status result))
  | releases {status : CommandStatus} {result : Except Failure Unit}
      (hphase : job.phase = .recorded status result) :
      Proceeds b q job (q.release status result)

theorem proceeds_of_advanceJob? (h : q.advanceJob? b job = some q') : Proceeds b q job q' := by
  unfold advanceJob? at h
  cases hphase : job.phase with
  | started run =>
      simp only [hphase] at h
      split at h
      next hstep =>
        cases h
        exact .works hphase hstep
      next => cases h
      next hstep =>
        cases h
        exact .returns hphase hstep
  | taken =>
      simp only [hphase] at h
      cases h
      exact .begins hphase
  | returned result =>
      simp only [hphase] at h
      cases h
      exact .judges hphase
  | judged status result =>
      simp only [hphase] at h
      cases h
      exact .reports hphase
  | reported status result =>
      simp only [hphase] at h
      cases h
      exact .records hphase
  | recorded status result =>
      simp only [hphase] at h
      cases h
      exact .releases hphase

theorem Proceeds.advanceJob? (h : Proceeds b q job q') : q.advanceJob? b job = some q' := by
  unfold CommandQueue.advanceJob?
  cases h with
  | begins hphase => simp only [hphase]
  | works hphase hstep => simp only [hphase, hstep]
  | returns hphase hstep => simp only [hphase, hstep]
  | judges hphase => simp only [hphase]
  | reports hphase => simp only [hphase]
  | records hphase => simp only [hphase]
  | releases hphase => simp only [hphase]

theorem advance?_of_busy (hworker : q.worker = .busy job) :
    q.advance? b = q.advanceJob? b job := by
  unfold advance?
  rw [hworker]

/-- The steps of the worker, with a command and without one. -/
inductive Steps (b : Behaviour κ ρ ω) (q : CommandQueue κ ρ ω) : CommandQueue κ ρ ω → Prop where
  | proceeds {job : Job κ ρ} {q' : CommandQueue κ ρ ω} (hworker : q.worker = .busy job)
      (h : Proceeds b q job q') : Steps b q q'
  | takes {id : CommandId} {command : κ} {pending : List (CommandId × κ)}
      (hworker : q.worker = .seeking) (hpending : q.pending = (id, command) :: pending) :
      Steps b q { q with worker := .busy ⟨id, command, false, .taken⟩, pending }
  | parks (hworker : q.worker = .seeking) (hpending : q.pending = []) :
      Steps b q { q with worker := .parked, idle := true }
  | seeks {notice : Bool} {exitSign : ExitSign} (hfree : ∀ job, q.worker ≠ .busy job)
      (hsign : q.exitSign = .unset → exitSign = .unset) :
      Steps b q { q with worker := .seeking, notice, exitSign }
  | exits (hfree : ∀ job, q.worker ≠ .busy job) (hsign : q.exitSign ≠ .unset) :
      Steps b q { q with worker := .exited, exitSign := .unset }

theorem steps_of_advance? (h : q.advance? b = some q') : Steps b q q' := by
  have seeks {notice : Bool} {exitSign : ExitSign} (hfree : ∀ job, q.worker ≠ .busy job)
      (hsign : q.exitSign = .unset → exitSign = .unset) :
      Steps b q { q with worker := .seeking, notice, exitSign } := .seeks hfree hsign
  cases hworker : q.worker with
  | seeking =>
      simp only [advance?, hworker, takeCommand, Option.some.injEq] at h
      subst h
      split
      next hpending => exact .parks hworker hpending
      next hpending => exact .takes hworker hpending
  | busy job =>
      rw [advance?_of_busy hworker] at h
      exact .proceeds hworker (proceeds_of_advanceJob? h)
  | between =>
      simp only [advance?, hworker] at h
      split at h
      next =>
        cases h
        exact seeks (by simp [hworker]) id
      next hset =>
        cases h
        exact .exits (by simp [hworker]) (by simp [hset])
      next hoverrun =>
        cases h
        exact seeks (by simp [hworker]) (by simp [hoverrun])
  | parked =>
      simp only [advance?, hworker] at h
      split at h
      next hsign =>
        cases h
        exact .exits (by simp [hworker]) hsign
      next =>
        split at h
        next =>
          cases h
          exact seeks (by simp [hworker]) id
        next => cases h
  | exited => simp [advance?, hworker] at h

end CommandQueue

/-- The command that is enrolled in a turn. -/
def Turn.command? {κ ω : Type} : Turn κ ω → Option κ
  | .enroll command => some command
  | _ => none

namespace Scene

variable {κ ρ ω : Type} {b : Behaviour κ ρ ω} {s s' : Scene κ ρ ω}
  {turns more : List (Turn κ ω)} {turn : Turn κ ω}

theorem run_append (b : Behaviour κ ρ ω) (s : Scene κ ρ ω) (turns more : List (Turn κ ω)) :
    s.run b (turns ++ more) = (s.run b turns).run b more := List.foldl_append

theorem run_concat (b : Behaviour κ ρ ω) (s : Scene κ ρ ω) (turns : List (Turn κ ω))
    (turn : Turn κ ω) : s.run b (turns ++ [turn]) = (s.run b turns).after b turn :=
  run_append b s turns [turn]

/-- The commands in the order in which they have been enrolled, which is that of their numbers. -/
def added (turns : List (Turn κ ω)) : List κ := turns.filterMap Turn.command?

theorem added_concat (turns : List (Turn κ ω)) (turn : Turn κ ω) :
    added (turns ++ [turn]) = added turns ++ turn.command?.toList := by
  cases h : turn.command? <;> simp [added, h]

/-- A command keeps its number when others are added. -/
theorem getElem?_append_of_some {all : List κ} {id : CommandId} {command : κ}
    (h : all[id]? = some command) (more : List κ) : (all ++ more)[id]? = some command := by
  rw [List.getElem?_append_left (List.getElem?_eq_some_iff.mp h).1, h]

/-! ## What a turn leads to -/

/-- Where a turn leads, with all that it leaves as it is. -/
inductive Leads (b : Behaviour κ ρ ω) (s : Scene κ ρ ω) : Turn κ ω → Scene κ ρ ω → Prop where
  | stays {turn : Turn κ ω} (hturn : turn.command? = none) : Leads b s turn s
  | enrolls (command : κ) :
      Leads b s (.enroll command)
        { s with
          queue := (s.queue.enroll (b.name command)).1
          enrolled := s.enrolled ++ [(s.queue.records.length, command)] }
  | pushes {place : Nat} {id : CommandId} {command : κ} (hfree : s.stopping = false)
      (hplace : s.enrolled[place]? = some (id, command)) :
      Leads b s (.push place)
        { s with
          queue := s.queue.push id command
          enrolled := s.enrolled.eraseIdx place
          untold := s.untold + 1
          pushed := s.pushed ++ [id] }
  | notifies : Leads b s .notify { s with queue := s.queue.notify, untold := s.untold - 1 }
  | locks : Leads b s .beginStop { s with stopping := true }
  | drops {id : CommandId} {command : κ} {pending : List (CommandId × κ)}
      (hlocked : s.stopping = true) (hpending : s.queue.pending = (id, command) :: pending) :
      Leads b s .dropFirst { s with queue := { s.queue.record id .aborted with pending } }
  | unlocks (hlocked : s.stopping = true) (hpending : s.queue.pending = []) :
      Leads b s .endStop { s with queue := s.queue.endStop b, stopping := false }
  | works {queue : CommandQueue κ ρ ω}
      (hlock : s.stopping = true → s.queue.worker.needsLock = false)
      (hstep : s.queue.advance? b = some queue) :
      Leads b s .work { s with queue, started := s.started ++ s.queue.worker.starting }
  | takesFailure : Leads b s .takeFailure { s with queue := s.queue.takeFailure.1 }
  | signals : Leads b s .signalExit { s with queue := s.queue.signalExit }
  | changes (world : ω) : Leads b s (.change world) { s with queue := { s.queue with world } }

theorem leads_after (b : Behaviour κ ρ ω) (s : Scene κ ρ ω) (turn : Turn κ ω) :
    Leads b s turn (s.after b turn) := by
  cases turn with
  | enroll command => exact .enrolls command
  | push place =>
      simp only [after]
      split
      next => exact .stays rfl
      next hfree =>
        split
        next => exact .stays rfl
        next hplace => exact .pushes (by simpa using hfree) hplace
  | notify =>
      simp only [after]
      split
      next => exact .stays rfl
      next => exact .notifies
  | beginStop => exact .locks
  | dropFirst =>
      simp only [after, CommandQueue.dropFirst]
      split
      next hlocked =>
        split
        next => exact .stays rfl
        next hpending => exact .drops hlocked hpending
      next => exact .stays rfl
  | endStop =>
      simp only [after]
      split
      next hlocked => exact .unlocks hlocked.1 (List.isEmpty_iff.mp hlocked.2)
      next => exact .stays rfl
  | work =>
      simp only [after]
      split
      next => exact .stays rfl
      next hlock =>
        split
        next => exact .stays rfl
        next hstep => exact .works (by simpa using hlock) hstep
  | takeFailure =>
      simp only [after]
      split
      next => exact .stays rfl
      next => exact .takesFailure
  | signalExit => exact .signals
  | change world => exact .changes world

theorem leads_concat (b : Behaviour κ ρ ω) (s : Scene κ ρ ω) (turns : List (Turn κ ω))
    (turn : Turn κ ω) : Leads b (s.run b turns) turn (s.run b (turns ++ [turn])) := by
  rw [run_concat]
  exact leads_after b (s.run b turns) turn

theorem acts_concat (b : Behaviour κ ρ ω) (s : Scene κ ρ ω) (turns : List (Turn κ ω))
    (turn : Turn κ ω) : Acts b (s.run b turns) (s.run b (turns ++ [turn])) := by
  rw [run_concat]
  exact acts_after b (s.run b turns) turn

/--
All turns but those of the worker leave it with its command, and with the lock
if a stop has it, unless the stop ends and asks the command to stop.
-/
theorem Leads.job {job : Job κ ρ} (h : Leads b s turn s') (hturn : turn ≠ .work)
    (hworker : s.queue.worker = .busy job) :
    s'.queue.worker = .busy job ∧ (s.stopping = true → s'.stopping = true) ∨
      s.stopping = true ∧ ∃ command,
        s'.queue.worker = .busy { job with command, abortRequested := true } := by
  cases h with
  | works => exact absurd rfl hturn
  | unlocks hlocked =>
      simp only [CommandQueue.endStop, hworker]
      exact .inr ⟨hlocked, _, rfl⟩
  | locks => exact .inl ⟨hworker, fun _ => rfl⟩
  | signals =>
      simp only [CommandQueue.signalExit, hworker]
      exact .inl ⟨trivial, id⟩
  | stays | enrolls | pushes | notifies | drops | takesFailure | changes =>
      exact .inl ⟨hworker, id⟩

/-! ## Results -/

/-- In one of the turns the run of the command has returned with the result. -/
def Returned (b : Behaviour κ ρ ω) (s : Scene κ ρ ω) (turns : List (Turn κ ω)) (id : CommandId)
    (result : Except Failure Unit) : Prop :=
  ∃ earlier rest job run world, turns = earlier ++ .work :: rest ∧
    (s.run b earlier).queue.worker = .busy job ∧ job.id = id ∧ job.phase = .started run ∧
    b.step job.id job.command run (s.run b earlier).queue.world = .returned result world

theorem Returned.append {id : CommandId} {result : Except Failure Unit}
    (h : Returned b s turns id result) (more : List (Turn κ ω)) :
    Returned b s (turns ++ more) id result := by
  obtain ⟨earlier, rest, job, run, world, rfl, hreturned⟩ := h
  exact ⟨earlier, rest ++ more, job, run, world, by simp, hreturned⟩

theorem returned_concat {job : Job κ ρ} {run : ρ} {world : ω} {result : Except Failure Unit}
    (hworker : (s.run b turns).queue.worker = .busy job) (hphase : job.phase = .started run)
    (hstep : b.step job.id job.command run (s.run b turns).queue.world =
      .returned result world) : Returned b s (turns ++ [.work]) job.id result :=
  ⟨turns, [], job, run, world, rfl, hworker, rfl, hphase, hstep⟩

end Scene

end StackQuery
