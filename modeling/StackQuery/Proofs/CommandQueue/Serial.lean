import StackQuery.Proofs.CommandQueue.Lifecycle
import StackQuery.Proofs.CommandQueue.History

/-!
# Commands one by one

As long as nothing is stopped, and nothing changes the world but commands, the
worker does nothing else than to run the commands one by one in the order in
which they have been pushed.  At any moment some commands are done, each from
the world that the one before it has left; the worker may be amid the next one,
which is then as far as it would be by itself; and the others wait.
-/

namespace StackQuery

/-! ## Runs that nothing disturbs -/

namespace Behaviour

variable {κ ρ ω : Type} {b : Behaviour κ ρ ω} {id : CommandId} {command : κ} {run next : ρ}
  {world mid final : ω} {result : Except Failure Unit} {results : List (Except Failure Unit)}
  {done left : List (CommandId × κ)}

/-- Left alone, a run goes on until it returns. -/
inductive Completes (b : Behaviour κ ρ ω) (id : CommandId) (command : κ) :
    ρ → ω → Except Failure Unit → ω → Prop where
  | returns {run : ρ} {world final : ω} {result : Except Failure Unit}
      (h : b.step id command run world = .returned result final) :
      Completes b id command run world result final
  | works {run next : ρ} {world mid final : ω} {result : Except Failure Unit}
      (h : b.step id command run world = .working next mid)
      (later : Completes b id command next mid result final) :
      Completes b id command run world result final

theorem completes_iff_of_working (h : b.step id command run world = .working next mid) :
    b.Completes id command run world result final ↔
      b.Completes id command next mid result final := by
  constructor
  · intro hcompletes
    cases hcompletes with
    | returns hstep => simp [h] at hstep
    | works hstep later =>
        rw [h] at hstep
        cases hstep
        exact later
  · exact .works h

theorem Completes.unique {result' : Except Failure Unit} {final' : ω}
    (h : b.Completes id command run world result final)
    (h' : b.Completes id command run world result' final') : result = result' ∧ final = final' := by
  induction h with
  | returns hstep =>
      cases h' with
      | returns hstep' =>
          rw [hstep] at hstep'
          cases hstep'
          exact ⟨rfl, rfl⟩
      | works hstep' => simp [hstep] at hstep'
  | works hstep _ ih => exact ih ((completes_iff_of_working hstep).mp h')

/-- The world once a failure, if there is one, has been reported. -/
def reported (b : Behaviour κ ρ ω) (id : CommandId) (command : κ) (world : ω) :
    Except Failure Unit → ω
  | .ok () => world
  | .error failure => b.report (.ofFailure (some id) (b.name command) failure) world

/-- Commands run one after another, each in the world that the one before it has left. -/
inductive OneByOne (b : Behaviour κ ρ ω) :
    ω → List (CommandId × κ) → List (Except Failure Unit) → ω → Prop where
  | nil (world : ω) : OneByOne b world [] [] world
  | cons {id : CommandId} {command : κ} {left : List (CommandId × κ)}
      {result : Except Failure Unit} {results : List (Except Failure Unit)} {world mid final : ω}
      (h : b.Completes id command (b.start command) world result mid)
      (later : OneByOne b (b.reported id command mid result) left results final) :
      OneByOne b world ((id, command) :: left) (result :: results) final

theorem OneByOne.concat (h : b.OneByOne world done results mid)
    (hlast : b.Completes id command (b.start command) mid result final) :
    b.OneByOne world (done ++ [(id, command)]) (results ++ [result])
      (b.reported id command final result) := by
  induction h with
  | nil => exact .cons hlast (.nil _)
  | cons hfirst _ ih => exact .cons hfirst (ih hlast)

theorem OneByOne.remainder {all : List (Except Failure Unit)}
    (h : b.OneByOne world done results mid) (hall : b.OneByOne world (done ++ left) all final) :
    ∃ rest, all = results ++ rest ∧ b.OneByOne mid left rest final := by
  induction h generalizing all with
  | nil => exact ⟨all, rfl, hall⟩
  | cons hfirst _ ih =>
      cases hall with
      | cons hfirst' later =>
          obtain ⟨rfl, rfl⟩ := hfirst.unique hfirst'
          obtain ⟨rest, rfl, hrest⟩ := ih later
          exact ⟨rest, rfl, hrest⟩

theorem OneByOne.unique {results' : List (Except Failure Unit)} {final' : ω}
    (h : b.OneByOne world done results final) (h' : b.OneByOne world done results' final') :
    results = results' ∧ final = final' := by
  rw [← List.append_nil done] at h'
  obtain ⟨rest, rfl, hrest⟩ := h.remainder h'
  cases hrest with
  | nil => exact ⟨(List.append_nil _).symm, rfl⟩

end Behaviour

/-- Started in the world `before`, the command is in `world` as far as it would be by itself. -/
def Phase.FromStart {κ ρ ω : Type} (b : Behaviour κ ρ ω) (id : CommandId) (command : κ)
    (before world : ω) : Phase ρ → Prop
  | .taken => world = before
  | .started run => ∀ result final, b.Completes id command run world result final ↔
      b.Completes id command (b.start command) before result final
  | .returned result => b.Completes id command (b.start command) before result world
  | .judged status result => status = .ofResult false result ∧
      b.Completes id command (b.start command) before result world
  | .reported status result | .recorded status result => status = .ofResult false result ∧
      ∃ after, b.Completes id command (b.start command) before result after ∧
        world = b.reported id command after result

namespace CommandQueue

variable {κ ρ ω : Type} {b : Behaviour κ ρ ω} {q q' : CommandQueue κ ρ ω} {job : Job κ ρ}
  {world before : ω} {done entries : List (CommandId × κ)} {results : List (Except Failure Unit)}

theorem report_eq_reported (b : Behaviour κ ρ ω) (q : CommandQueue κ ρ ω) (job : Job κ ρ)
    (result : Except Failure Unit) :
    q.report b job result =
      { q with world := b.reported job.id job.command q.world result } := by
  cases result with
  | ok _ => rfl
  | error failure => rfl

/-! ## What is done and what is left -/

/-- The records say of commands that they have ended by these results. -/
def Ended (q : CommandQueue κ ρ ω) (done : List (CommandId × κ))
    (results : List (Except Failure Unit)) : Prop :=
  done.map (fun entry => q.status? entry.1) = results.map fun r => some (.ofResult false r)

/-- Some of the commands have been run one by one, and the others are left to the worker. -/
inductive Played (b : Behaviour κ ρ ω) (world : ω) (q : CommandQueue κ ρ ω) :
    List (CommandId × κ) → Prop where
  | apart {done : List (CommandId × κ)} {results : List (Except Failure Unit)}
      (hdone : b.OneByOne world done results q.world) (hended : q.Ended done results)
      (hworker : ∀ job, q.worker ≠ .busy job) : Played b world q (done ++ q.pending)
  | amid {done : List (CommandId × κ)} {results : List (Except Failure Unit)} {before : ω}
      {job : Job κ ρ} (hdone : b.OneByOne world done results before)
      (hended : q.Ended done results) (hworker : q.worker = .busy job)
      (hrequest : job.abortRequested = false)
      (hphase : job.phase.FromStart b job.id job.command before q.world) :
      Played b world q (done ++ (job.id, job.command) :: q.pending)

/-- Finished statuses stay. -/
def Keeps (q q' : CommandQueue κ ρ ω) : Prop :=
  ∀ id status, q.status? id = some status → status.isFinished = true →
    q'.status? id = some status

theorem Ended.kept (h : q.Ended done results) (hkeeps : q.Keeps q') : q'.Ended done results := by
  unfold Ended at h ⊢
  rw [← h]
  refine List.map_congr_left fun entry hentry => ?_
  have hmem : q.status? entry.1 ∈ done.map fun entry => q.status? entry.1 :=
    List.mem_map_of_mem hentry
  rw [h, List.mem_map] at hmem
  obtain ⟨result, _, hstatus⟩ := hmem
  rw [← hstatus]
  exact hkeeps entry.1 _ hstatus.symm (CommandStatus.isFinished_ofResult false result)

theorem Played.kept (h : q.Played b world entries) (hkeeps : q.Keeps q')
    (hworker : q'.worker = q.worker) (hpending : q'.pending = q.pending)
    (hworld : q'.world = q.world) : q'.Played b world entries := by
  cases h with
  | apart hdone hended hfree =>
      rw [← hpending]
      rw [← hworld] at hdone
      exact .apart hdone (hended.kept hkeeps) (by rwa [hworker])
  | amid hdone hended hbusy hrequest hphase =>
      rw [← hpending]
      rw [← hworld] at hphase
      exact .amid hdone (hended.kept hkeeps) (hworker.trans hbusy) hrequest hphase

theorem Played.rests (h : q.Played b world entries) (hkeeps : q.Keeps q')
    (hbefore : ∀ job, q.worker ≠ .busy job) (hafter : ∀ job, q'.worker ≠ .busy job)
    (hpending : q'.pending = q.pending) (hworld : q'.world = q.world) :
    q'.Played b world entries := by
  cases h with
  | amid _ _ hbusy => exact absurd hbusy (hbefore _)
  | apart hdone hended =>
      rw [← hpending]
      rw [← hworld] at hdone
      exact .apart hdone (hended.kept hkeeps) hafter

theorem Played.push (h : q.Played b world entries) (id : CommandId) (command : κ) :
    (q.push id command).Played b world (entries ++ [(id, command)]) := by
  cases h with
  | apart hdone hended hfree =>
      rw [List.append_assoc]
      exact .apart hdone hended hfree
  | amid hdone hended hbusy hrequest hphase =>
      rw [List.append_assoc]
      exact .amid hdone hended hbusy hrequest hphase

theorem Played.proceeds (h : q.Played b world entries) (hworker : q.worker = .busy job)
    (hstatus : q.status? job.id = some job.phase.status) (hkeeps : q.Keeps q')
    (hproceeds : q.Proceeds b job q') : q'.Played b world entries := by
  cases h with
  | apart _ _ hfree => exact absurd hworker (hfree job)
  | @amid done results before job' hdone hended hworker' hrequest hphase =>
      rw [hworker] at hworker'
      cases hworker'
      have hended' := hended.kept hkeeps
      have goesOn {phase : Phase ρ} (hbusy : q'.worker = .busy { job with phase })
          (hpending : q'.pending = q.pending)
          (hnext : phase.FromStart b job.id job.command before q'.world) :
          q'.Played b world (done ++ (job.id, job.command) :: q.pending) := by
        have hplayed := Played.amid hdone hended' hbusy hrequest hnext
        rwa [hpending] at hplayed
      cases hproceeds with
      | begins htaken =>
          rw [htaken] at hphase
          refine goesOn rfl rfl fun result final => ?_
          rw [← show q.world = before from hphase]
          exact Iff.rfl
      | works hstarted hstep =>
          rw [hstarted] at hphase
          refine goesOn rfl rfl fun result final => ?_
          exact (Behaviour.completes_iff_of_working hstep).symm.trans (hphase result final)
      | returns hstarted hstep =>
          rw [hstarted] at hphase
          exact goesOn rfl rfl ((hphase _ _).mp (.returns hstep))
      | judges hreturned =>
          rw [hreturned] at hphase
          exact goesOn rfl rfl ⟨by rw [hrequest], hphase⟩
      | reports hjudged =>
          rw [hjudged] at hphase
          rw [report_eq_reported] at goesOn ⊢
          exact goesOn rfl rfl ⟨hphase.1, q.world, hphase.2, rfl⟩
      | records hreported =>
          rw [hreported] at hphase
          exact goesOn rfl rfl hphase
      | @releases status result hrecorded =>
          rw [hrecorded] at hphase hstatus
          obtain ⟨hjudged, after, hcompletes, hworld⟩ := hphase
          have hall := hdone.concat hcompletes
          rw [← hworld] at hall
          have hlast : (q.release status result).Ended (done ++ [(job.id, job.command)])
              (results ++ [result]) := by
            unfold Ended at hended' ⊢
            rw [List.map_append, List.map_append, hended', List.map_singleton, List.map_singleton,
              ← hjudged]
            exact congrArg (fun status? => _ ++ [status?]) hstatus
          rw [List.append_cons]
          exact .apart (q := q.release status result) hall hlast (by simp [release])

theorem Played.steps (h : q.Played b world entries) (hsign : q.exitSign = .unset)
    (hstatus : ∀ job, q.worker = .busy job → q.status? job.id = some job.phase.status)
    (hkeeps : q.Keeps q') (hsteps : q.Steps b q') : q'.Played b world entries := by
  cases hsteps with
  | @proceeds job _ hworker hproceeds =>
      exact h.proceeds hworker (hstatus job hworker) hkeeps hproceeds
  | takes hworker hpending =>
      cases h with
      | amid _ _ hbusy => simp [hworker] at hbusy
      | apart hdone hended =>
          rw [hpending]
          exact .amid hdone (hended.kept hkeeps) rfl rfl rfl
  | parks hworker => exact h.rests hkeeps (by simp [hworker]) (by simp) rfl rfl
  | seeks hfree => exact h.rests hkeeps hfree (by simp) rfl rfl
  | exits _ hset => exact absurd hsign hset

/-! ## Coming to an end -/

/-- Left alone, the worker gets to where nothing is left. -/
def Ends (b : Behaviour κ ρ ω) (q : CommandQueue κ ρ ω) : Prop :=
  ∃ fuel, (q.settle b fuel).idle = true

theorem Ends.of_advance? (hstep : q.advance? b = some q') (h : Ends b q') : Ends b q := by
  obtain ⟨fuel, hidle⟩ := h
  refine ⟨fuel + 1, ?_⟩
  simp only [settle, hstep]
  exact hidle

/-- A worker that looks for its next command comes to an end with these commands, in this world. -/
def EndsWith (b : Behaviour κ ρ ω) (left : List (CommandId × κ)) (world : ω) : Prop :=
  ∀ q : CommandQueue κ ρ ω, q.worker = .seeking → q.exitSign = .unset → q.pending = left →
    q.world = world → Ends b q

section Busy

variable {run : ρ} {result : Except Failure Unit} {status : CommandStatus} {final : ω}
  {request : Bool}

theorem ends_of_between (hworker : q.worker = .between) (hsign : q.exitSign = .unset)
    (h : EndsWith b q.pending q.world) : Ends b q := by
  have hstep : q.advance? b = some { q with worker := .seeking } := by
    simp only [advance?, hworker, hsign]
  exact .of_advance? hstep (h _ rfl hsign rfl rfl)

theorem ends_of_proceeds (hworker : q.worker = .busy job) (hproceeds : q.Proceeds b job q')
    (h : Ends b q') : Ends b q :=
  .of_advance? ((advance?_of_busy hworker).trans hproceeds.advanceJob?) h

theorem ends_of_recorded (hworker : q.worker = .busy job)
    (hphase : job.phase = .recorded status result) (hsign : q.exitSign = .unset)
    (h : EndsWith b q.pending q.world) : Ends b q :=
  ends_of_proceeds hworker (.releases hphase) (ends_of_between rfl hsign h)

theorem ends_of_reported (hworker : q.worker = .busy job)
    (hphase : job.phase = .reported status result) (hsign : q.exitSign = .unset)
    (h : EndsWith b q.pending q.world) : Ends b q :=
  ends_of_proceeds hworker (.records hphase) (ends_of_recorded rfl rfl hsign h)

theorem ends_of_judged (hworker : q.worker = .busy job)
    (hphase : job.phase = .judged status result) (hsign : q.exitSign = .unset)
    (h : EndsWith b q.pending (b.reported job.id job.command q.world result)) : Ends b q := by
  refine ends_of_proceeds hworker (.reports hphase) ?_
  rw [report_eq_reported]
  exact ends_of_reported rfl rfl hsign h

theorem ends_of_returned (hworker : q.worker = .busy job)
    (hphase : job.phase = .returned result) (hsign : q.exitSign = .unset)
    (h : EndsWith b q.pending (b.reported job.id job.command q.world result)) : Ends b q :=
  ends_of_proceeds hworker (.judges hphase) (ends_of_judged rfl rfl hsign h)

theorem ends_of_started {id : CommandId} {command : κ}
    (hcompletes : b.Completes id command run world result final)
    (hworker : q.worker = .busy ⟨id, command, request, .started run⟩)
    (hsign : q.exitSign = .unset) (hworld : q.world = world)
    (h : EndsWith b q.pending (b.reported id command final result)) : Ends b q := by
  induction hcompletes generalizing q with
  | returns hstep =>
      rw [← hworld] at hstep
      exact ends_of_proceeds hworker (.returns rfl hstep) (ends_of_returned rfl rfl hsign h)
  | works hstep _ ih =>
      rw [← hworld] at hstep
      exact ends_of_proceeds hworker (.works rfl hstep) (ih rfl hsign rfl h)

/-- The worker finishes the command that it holds, if that is as far as it would be by itself. -/
theorem ends_of_busy (hcompletes : b.Completes job.id job.command (b.start job.command) before
      result final)
    (hworker : q.worker = .busy job) (hsign : q.exitSign = .unset)
    (hphase : job.phase.FromStart b job.id job.command before q.world)
    (h : EndsWith b q.pending (b.reported job.id job.command final result)) : Ends b q := by
  obtain ⟨id, command, request, phase⟩ := job
  cases phase with
  | taken =>
      rw [← show q.world = before from hphase] at hcompletes
      exact ends_of_proceeds hworker (.begins rfl) (ends_of_started hcompletes rfl hsign rfl h)
  | started run =>
      exact ends_of_started ((hphase result final).mpr hcompletes) hworker hsign rfl h
  | returned =>
      obtain ⟨rfl, rfl⟩ := hcompletes.unique hphase
      exact ends_of_returned hworker rfl hsign h
  | judged =>
      obtain ⟨rfl, rfl⟩ := hcompletes.unique hphase.2
      exact ends_of_judged hworker rfl hsign h
  | reported =>
      obtain ⟨_, after, hcompletes', hworld⟩ := hphase
      obtain ⟨rfl, rfl⟩ := hcompletes.unique hcompletes'
      exact ends_of_reported hworker rfl hsign (hworld ▸ h)
  | recorded =>
      obtain ⟨_, after, hcompletes', hworld⟩ := hphase
      obtain ⟨rfl, rfl⟩ := hcompletes.unique hcompletes'
      exact ends_of_recorded hworker rfl hsign (hworld ▸ h)

end Busy

theorem endsWith_of_oneByOne {final : ω} (h : b.OneByOne world entries results final) :
    EndsWith b entries world := by
  induction h with
  | nil world =>
      intro q hworker _ hpending _
      refine ⟨1, ?_⟩
      simp [settle, CommandQueue.advance?, hworker, takeCommand, hpending]
  | @cons id command left _ _ _ _ _ hfirst _ ih =>
      intro q hworker hsign hpending hworld
      have hstep : q.advance? b =
          some { q with worker := .busy ⟨id, command, false, .taken⟩, pending := left } := by
        simp only [CommandQueue.advance?, hworker, takeCommand, hpending]
      exact .of_advance? hstep (ends_of_busy hfirst rfl hsign hworld ih)

/-- Commands that would run one by one do so, once the worker is awake. -/
theorem Played.ends {final : ω} (h : q.Played b world entries)
    (hall : b.OneByOne world entries results final) (hsign : q.exitSign = .unset)
    (hstays : q.worker ≠ .exited)
    (hawake : q.worker = .parked → q.idle = true ∨ q.notice = true) : Ends b q := by
  cases h with
  | amid hdone _ hworker _ hphase =>
      obtain ⟨rest, _, hrest⟩ := hdone.remainder hall
      cases hrest with
      | cons hcompletes later =>
          exact ends_of_busy hcompletes hworker hsign hphase (endsWith_of_oneByOne later)
  | apart hdone _ hfree =>
      obtain ⟨rest, _, hrest⟩ := hdone.remainder hall
      have hleft := endsWith_of_oneByOne hrest
      cases hworker : q.worker with
      | seeking => exact hleft q hworker hsign rfl rfl
      | busy job => exact absurd hworker (hfree job)
      | between => exact ends_of_between hworker hsign hleft
      | parked =>
          rcases hawake hworker with hidle | hnotice
          · exact ⟨0, hidle⟩
          · have hstep : q.advance? b = some { q with worker := .seeking, notice := false } := by
              simp [CommandQueue.advance?, hworker, hsign, hnotice]
            exact .of_advance? hstep (hleft _ rfl hsign rfl rfl)
      | exited => exact absurd hworker hstays

theorem Steps.unset (h : q.Steps b q') (hsign : q.exitSign = .unset) :
    q'.exitSign = .unset ∧ q'.worker ≠ .exited := by
  cases h with
  | proceeds _ hproceeds =>
      cases hproceeds with
      | reports =>
          rw [report_eq_reported]
          exact ⟨hsign, by simp [atPhase]⟩
      | begins | works | returns | judges | records | releases =>
          exact ⟨hsign, by simp [atPhase, release]⟩
  | takes | parks => exact ⟨hsign, by simp⟩
  | seeks _ hkept => exact ⟨hkept hsign, by simp⟩
  | exits _ hset => exact absurd hsign hset

end CommandQueue

end StackQuery
