import StackQuery.Proofs.CommandQueue.Lifecycle
import StackQuery.Proofs.CommandQueue.History

/-!
# What a command does and how it ends

The world is changed from outside or by the command that the worker holds, and
the worker judges that command by what it has returned with and by whether it
has been asked to stop.  Asking is only possible up to the look for a request,
so whether a command ends as one that was asked is settled before it is judged.
-/

namespace StackQuery

namespace Behaviour

variable {κ ρ ω : Type}

/-- What a command does to the world: by its run, by the report of its failure, when it is asked
to stop. -/
inductive Touches (b : Behaviour κ ρ ω) (id : CommandId) (command : κ) (world : ω) : ω → Prop where
  | works {run next : ρ} {changed : ω} (h : b.step id command run world = .working next changed) :
      Touches b id command world changed
  | returns {run : ρ} {result : Except Failure Unit} {changed : ω}
      (h : b.step id command run world = .returned result changed) :
      Touches b id command world changed
  | reports (failure : Failure) :
      Touches b id command world (b.report (.ofFailure (some id) (b.name command) failure) world)
  | asked : Touches b id command world (b.abort command world).2

end Behaviour

namespace CommandQueue

variable {κ ρ ω : Type} {b : Behaviour κ ρ ω} {q q' : CommandQueue κ ρ ω}

theorem Steps.touches (h : Steps b q q') :
    q'.world = q.world ∨
      ∃ job, q.worker = .busy job ∧ b.Touches job.id job.command q.world q'.world := by
  cases h with
  | @proceeds job _ hworker hproceeds =>
      cases hproceeds with
      | works _ hstep => exact .inr ⟨job, hworker, .works hstep⟩
      | returns _ hstep => exact .inr ⟨job, hworker, .returns hstep⟩
      | @reports _ result _ =>
          cases result with
          | ok _ => exact .inl rfl
          | error failure => exact .inr ⟨job, hworker, .reports failure⟩
      | begins | judges | records | releases => exact .inl rfl
  | takes | parks | seeks | exits => exact .inl rfl

end CommandQueue

namespace Scene

variable {κ ρ ω : Type} {b : Behaviour κ ρ ω} {s s' : Scene κ ρ ω} {turn : Turn κ ω}

theorem Leads.touches (h : Leads b s turn s') :
    s'.queue.world = s.queue.world ∨ (∃ world, turn = .change world) ∨
      ∃ job, s.queue.worker = .busy job ∧
        b.Touches job.id job.command s.queue.world s'.queue.world := by
  cases h with
  | works _ hstep => exact (CommandQueue.steps_of_advance? hstep).touches.imp_right .inr
  | unlocks =>
      unfold CommandQueue.endStop
      split
      next job hworker => exact .inr (.inr ⟨job, hworker, .asked⟩)
      next => exact .inl rfl
  | signals =>
      unfold CommandQueue.signalExit
      split <;> exact .inl rfl
  | changes world => exact .inr (.inl ⟨world, rfl⟩)
  | stays | enrolls | pushes | notifies | locks | drops | takesFailure => exact .inl rfl

end Scene

/-! ## Judging -/

theorem CommandStatus.ofResult_true (result : Except Failure Unit) :
    CommandStatus.ofResult true result = .aborted ∨
      CommandStatus.ofResult true result = .failed := by
  cases result with
  | ok _ => exact .inl rfl
  | error failure => cases h : failure.isAborted <;> simp [CommandStatus.ofResult, h]

section Judging

variable {ρ : Type}

/-- The command has returned, if at all, with such a result, and is judged by it. -/
def Phase.JudgedBy (asked : Bool) (returned : Except Failure Unit → Prop) : Phase ρ → Prop
  | .taken | .started _ => True
  | .returned result => returned result
  | .judged status result | .reported status result | .recorded status result =>
      status = .ofResult asked result ∧ returned result

theorem Phase.JudgedBy.mono {asked : Bool} {returned more : Except Failure Unit → Prop}
    {phase : Phase ρ} (h : phase.JudgedBy asked returned)
    (hmore : ∀ result, returned result → more result) : phase.JudgedBy asked more := by
  cases phase with
  | taken | started _ => exact True.intro
  | returned result => exact hmore result h
  | judged _ result | reported _ result | recorded _ result => exact ⟨h.1, hmore result h.2⟩

end Judging

namespace Scene

variable {κ ρ ω : Type} {b : Behaviour κ ρ ω} {world : ω} {s s' : Scene κ ρ ω}
  {turns : List (Turn κ ω)} {turn : Turn κ ω} {id : CommandId}

/--
A command that the worker has taken ends as one that was asked to stop, or as
one that was not: either way by the result of its run.
-/
inductive Bound (b : Behaviour κ ρ ω) (world : ω) (asked : Bool) (turns : List (Turn κ ω))
    (id : CommandId) : Prop where
  | held {job : Job κ ρ} (hworker : ((start world).run b turns).queue.worker = .busy job)
      (hid : job.id = id) (hphase : job.phase.JudgedBy asked (Returned b (start world) turns id))
      (hrequest : job.abortRequested = asked ∨
        asked = true ∧ ((start world).run b turns).stopping = true)
  | finished {result : Except Failure Unit} (hreturned : Returned b (start world) turns id result)
      (hstatus : ((start world).run b turns).queue.status? id = some (.ofResult asked result))

private theorem bound_works {asked : Bool} {job : Job κ ρ}
    (hworker : ((start world).run b turns).queue.worker = .busy job)
    (hphase : job.phase.JudgedBy asked (Returned b (start world) turns job.id))
    (hrequest : job.abortRequested = asked ∨
      asked = true ∧ ((start world).run b turns).stopping = true) :
    Bound b world asked (turns ++ [.work]) job.id := by
  have hmore : ∀ result, Returned b (start world) turns job.id result →
      Returned b (start world) (turns ++ [.work]) job.id result :=
    fun _ hreturned => hreturned.append [.work]
  generalize hafter : (start world).run b (turns ++ [.work]) = s
  have hleads := leads_concat b (start world) turns .work
  rw [hafter] at hleads
  cases hleads with
  | stays => exact .held (hafter ▸ hworker) rfl (hphase.mono hmore) (hafter ▸ hrequest)
  | @works queue hlock hstep =>
      rw [CommandQueue.advance?_of_busy hworker] at hstep
      have hheld {phase : Phase ρ} (hqueue : queue.worker = .busy { job with phase })
          (hnext : phase.JudgedBy asked
            (Returned b (start world) (turns ++ [.work]) job.id)) :
          Bound b world asked (turns ++ [.work]) job.id := by
        have hworker' : ((start world).run b (turns ++ [.work])).queue.worker =
            .busy { job with phase } := by rwa [hafter]
        exact .held hworker' rfl hnext (by rwa [hafter])
      cases CommandQueue.proceeds_of_advanceJob? hstep with
      | begins | works => exact hheld rfl True.intro
      | returns hstarted hreturns => exact hheld rfl (returned_concat hworker hstarted hreturns)
      | @judges result hreturned =>
          rw [hreturned] at hphase
          have hasked : job.abortRequested = asked := by
            refine hrequest.resolve_right fun hlocked => ?_
            have hneeds := hlock hlocked.2
            simp [hworker, Worker.needsLock, hreturned] at hneeds
          exact hheld rfl ⟨by rw [hasked], hmore result hphase⟩
      | @reports status result hjudged | @records status result hjudged =>
          rw [hjudged] at hphase
          exact hheld rfl ⟨hphase.1, hmore result hphase.2⟩
      | @releases status result hrecorded =>
          rw [hrecorded] at hphase
          refine .finished (hmore result hphase.2) ?_
          have hstatus := ((run_inOrder_tracked b world turns).2.held job hworker).1
          rw [hrecorded] at hstatus
          rw [hafter, ← hphase.1]
          exact hstatus

theorem Bound.concat {asked : Bool} (h : Bound b world asked turns id)
    (hcalm : asked = false → ((start world).run b turns).stopping = false) (turn : Turn κ ω) :
    Bound b world asked (turns ++ [turn]) id := by
  cases h with
  | @finished result hreturned hstatus =>
      refine .finished (hreturned.append [turn]) ?_
      obtain ⟨hinOrder, htracked⟩ := run_inOrder_tracked b world turns
      rw [run_append]
      exact finished_run (CommandStatus.isFinished_ofResult asked result) hinOrder htracked hstatus
        [turn]
  | @held job hworker hid hphase hrequest =>
      subst hid
      by_cases hturn : turn = .work
      · subst hturn
        exact bound_works hworker hphase hrequest
      · have hmore := hphase.mono fun _ hreturned => hreturned.append [turn]
        rcases (leads_concat b (start world) turns turn).job hturn hworker with
          ⟨hkept, hlocked⟩ | ⟨hlocked, command, hasked⟩
        · exact .held hkept rfl hmore (hrequest.imp_right fun h => ⟨h.1, hlocked h.2⟩)
        · refine .held hasked rfl hmore (.inl ?_)
          cases asked with
          | true => rfl
          | false => simp [hcalm rfl] at hlocked

theorem Bound.status_of_finished {asked : Bool} (h : Bound b world asked turns id)
    {status : CommandStatus}
    (hstatus : ((start world).run b turns).queue.status? id = some status)
    (hfinished : status.isFinished = true) :
    ∃ result, Returned b (start world) turns id result ∧ status = .ofResult asked result := by
  cases h with
  | @finished result hreturned hended =>
      rw [hended] at hstatus
      cases hstatus
      exact ⟨result, hreturned, rfl⟩
  | @held job hworker hid hphase =>
      subst hid
      have hheld := ((run_inOrder_tracked b world turns).2.held job hworker).1
      rw [hheld] at hstatus
      cases hstatus
      cases hjob : job.phase with
      | recorded status result =>
          rw [hjob] at hphase
          exact ⟨result, hphase.2, hphase.1⟩
      | taken => simp [hjob, Phase.status, CommandStatus.isFinished] at hfinished
      | started run => simp [hjob, Phase.status, CommandStatus.isFinished] at hfinished
      | returned result => simp [hjob, Phase.status, CommandStatus.isFinished] at hfinished
      | judged status result | reported status result =>
          simp [hjob, Phase.status, CommandStatus.isFinished] at hfinished

end Scene

end StackQuery
