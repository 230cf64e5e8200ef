import Mathlib.Data.List.DropRight
import StackQuery.Proofs.CommandQueue.Idle
import StackQuery.Proofs.CommandQueue.Origins

/-!
# Where failures go

When the run of a command has returned an error, the worker puts out one report
of it, and does not ask whether the report has been taken.  If the command has
failed, and has not just been aborted, its failure is also kept when the worker
lets the command go, unless one is kept already.  A wait hands out what is kept,
and then nothing is kept.  So a wait hands out the failure of the first command
that has failed since the wait before it, and every failure goes to one wait at
most.
-/

namespace StackQuery

/-! ## What is kept for a wait -/

namespace Occurrence

def isHanded : Occurrence → Bool
  | .handed _ => true
  | _ => false

/-- A command that the worker has let go and that has failed. -/
def failure? : Occurrence → Option (CommandId × Failure)
  | .ended id .failed (.error failure) => some (id, failure)
  | _ => none

/-- What is kept after something has happened. -/
def keep (kept : Option Failure) (occurrence : Occurrence) : Option Failure :=
  if occurrence.isHanded then none else kept.or (occurrence.failure?.map (·.2))

@[simp] theorem keep_returned (kept : Option Failure) (id : CommandId)
    (result : Except Failure Unit) : keep kept (.returned id result) = kept := Option.or_none

@[simp] theorem keep_offered (kept : Option Failure) (id : CommandId) (report : ErrorReport) :
    keep kept (.offered id report) = kept := Option.or_none

def report? : Occurrence → Option ErrorReport
  | .offered _ report => some report
  | _ => none

def handedFailure? : Occurrence → Option Failure
  | .handed (.error failure) => some failure
  | _ => none

theorem handedFailure?_eq_none {occurrence : Occurrence} (h : occurrence.isHanded = false) :
    occurrence.handedFailure? = none := by
  cases occurrence with
  | handed => cases h
  | returned | offered | ended => rfl

end Occurrence

section Waits

variable {log : List Occurrence}

/-- The commands that have failed, with their failures, in the order in which they have ended. -/
def failures (log : List Occurrence) : List (CommandId × Failure) :=
  log.filterMap Occurrence.failure?

def handedFailures (log : List Occurrence) : List Failure :=
  log.filterMap Occurrence.handedFailure?

/-- What has happened since the last wait. -/
def sinceHanded (log : List Occurrence) : List Occurrence :=
  log.rtakeWhile fun occurrence => !occurrence.isHanded

def firstOf : List (CommandId × Failure) → Except Failure Unit
  | [] => .ok ()
  | (_, failure) :: _ => .error failure

theorem sinceHanded_concat (log : List Occurrence) (occurrence : Occurrence) :
    sinceHanded (log ++ [occurrence]) =
      if occurrence.isHanded then [] else sinceHanded log ++ [occurrence] := by
  rw [sinceHanded, List.rtakeWhile_concat]
  cases occurrence.isHanded <;> rfl

theorem failures_concat (log : List Occurrence) (occurrence : Occurrence) :
    failures (log ++ [occurrence]) = failures log ++ occurrence.failure?.toList := by
  cases h : occurrence.failure? <;> simp [failures, h]

theorem handedFailures_concat (log : List Occurrence) (occurrence : Occurrence) :
    handedFailures (log ++ [occurrence]) =
      handedFailures log ++ occurrence.handedFailure?.toList := by
  cases h : occurrence.handedFailure? <;> simp [handedFailures, h]

/-- What is kept is the first failure since the last wait. -/
theorem kept_eq (log : List Occurrence) :
    log.foldl Occurrence.keep none = (failures (sinceHanded log)).head?.map (·.2) := by
  induction log using List.reverseRecOn with
  | nil => rfl
  | append_singleton log occurrence ih =>
      rw [List.foldl_append, ih, sinceHanded_concat, List.foldl_cons, List.foldl_nil,
        Occurrence.keep]
      split
      next => rfl
      next =>
        rw [failures_concat, List.head?_append, Option.map_or]
        cases occurrence.failure? <;> rfl

/-- A log in which every wait hands out the first failure since the wait before it. -/
inductive HandsOutFirst : List Occurrence → Prop where
  | nil : HandsOutFirst []
  | other {log : List Occurrence} {occurrence : Occurrence} (h : HandsOutFirst log)
      (hother : occurrence.isHanded = false) : HandsOutFirst (log ++ [occurrence])
  | hands {log : List Occurrence} (h : HandsOutFirst log) :
      HandsOutFirst (log ++ [.handed (firstOf (failures (sinceHanded log)))])

theorem HandsOutFirst.append (h : HandsOutFirst log) {more : List Occurrence}
    (hmore : ∀ occurrence ∈ more, occurrence.isHanded = false) : HandsOutFirst (log ++ more) := by
  induction more generalizing log with
  | nil => rwa [List.append_nil]
  | cons occurrence more ih =>
      obtain ⟨hfirst, hlater⟩ := List.forall_mem_cons.mp hmore
      rw [List.append_cons]
      exact ih (h.other hfirst) hlater

/-- What waits have handed out are some of the failures there have been, each once. -/
theorem HandsOutFirst.given (h : HandsOutFirst log) :
    ∃ given : List (CommandId × Failure), given.map (·.2) = handedFailures log ∧
      (given ++ failures (sinceHanded log)).Sublist (failures log) := by
  induction h with
  | nil => exact ⟨[], rfl, .refl _⟩
  | @other log occurrence _ hother ih =>
      obtain ⟨given, hgiven, hsub⟩ := ih
      refine ⟨given, ?_, ?_⟩
      · rw [hgiven, handedFailures_concat, Occurrence.handedFailure?_eq_none hother]
        exact (List.append_nil _).symm
      · rw [sinceHanded_concat, if_neg (by simp [hother]), failures_concat, failures_concat,
          ← List.append_assoc]
        exact hsub.append (.refl _)
  | @hands log _ ih =>
      obtain ⟨given, hgiven, hsub⟩ := ih
      generalize hresult : firstOf (failures (sinceHanded log)) = result
      have hnone : sinceHanded (log ++ [.handed result]) = [] := by
        rw [sinceHanded_concat]
        rfl
      have hlog : failures (log ++ [.handed result]) = failures log := by
        rw [failures_concat]
        exact List.append_nil _
      rw [hnone, hlog, handedFailures_concat, ← hgiven, ← hresult]
      -- The wait hands out the first of what the ones before it have left, or nothing.
      cases hfailures : failures (sinceHanded log) with
      | nil =>
          rw [hfailures] at hsub
          exact ⟨given, (List.append_nil _).symm, hsub⟩
      | cons first rest =>
          rw [hfailures, List.append_cons] at hsub
          have hfirst := (List.sublist_append_left _ _).trans hsub
          rw [← List.append_nil (given ++ [first])] at hfirst
          exact ⟨given ++ [first], List.map_append, hfirst⟩

end Waits

namespace CommandQueue

variable {κ ρ ω : Type} {b : Behaviour κ ρ ω} {q q' : CommandQueue κ ρ ω}

theorem firstFailure_release (q : CommandQueue κ ρ ω) (id : CommandId) (status : CommandStatus)
    (result : Except Failure Unit) :
    (q.release status result).firstFailure =
      Occurrence.keep q.firstFailure (.ended id status result) := by
  cases hkept : q.firstFailure <;> cases status <;> cases result <;>
    simp [release, hkept, Occurrence.keep, Occurrence.isHanded, Occurrence.failure?]

theorem Handles.not_handed {occurrences : List Occurrence} (h : Handles b q occurrences q') :
    ∀ occurrence ∈ occurrences, occurrence.isHanded = false := by
  cases h with
  | @reports job status result =>
      intro occurrence hmem
      obtain ⟨_, _, rfl⟩ := mem_reports hmem
      rfl
  | returns | releases => simp [Occurrence.isHanded]
  | takes | begins | works | judges | records | rests => simp

theorem Handles.firstFailure {occurrences : List Occurrence} (h : Handles b q occurrences q') :
    q'.firstFailure = occurrences.foldl Occurrence.keep q.firstFailure := by
  cases h with
  | returns => exact (Occurrence.keep_returned _ _ _).symm
  | @reports job status result =>
      cases result with
      | ok _ => rfl
      | error failure => exact (Occurrence.keep_offered _ _ _).symm
  | @releases job status result => exact firstFailure_release q job.id status result
  | takes | begins | works | judges | records | rests => rfl

end CommandQueue

namespace Scene

variable {κ ρ ω : Type} {b : Behaviour κ ρ ω} {s s' : Scene κ ρ ω}
  {turns : List (Turn κ ω)} {turn : Turn κ ω} {occurrences : List Occurrence}

theorem Occurs.firstFailure (h : Occurs b s turn occurrences s') :
    s'.queue.firstFailure = occurrences.foldl Occurrence.keep s.queue.firstFailure := by
  cases h with
  | works hstep => exact hstep.firstFailure
  | hands => rfl
  | aside haside => exact haside.failure

theorem firstFailure_run (b : Behaviour κ ρ ω) (world : ω) (turns : List (Turn κ ω)) :
    ((start world).run b turns).queue.firstFailure =
      (failures (sinceHanded ((start world).log b turns))).head?.map (·.2) := by
  rw [← kept_eq]
  induction turns using List.reverseRecOn with
  | nil => rfl
  | append_singleton turns turn ih =>
      rw [run_concat, (occurs_after b _ turn).firstFailure, ih, log_concat, List.foldl_append]

theorem takeFailure_run (b : Behaviour κ ρ ω) (world : ω) (turns : List (Turn κ ω)) :
    ((start world).run b turns).queue.takeFailure.2 =
      firstOf (failures (sinceHanded ((start world).log b turns))) := by
  rw [CommandQueue.takeFailure, firstFailure_run]
  cases failures (sinceHanded ((start world).log b turns)) <;> rfl

theorem handsOutFirst_run (b : Behaviour κ ρ ω) (world : ω) (turns : List (Turn κ ω)) :
    HandsOutFirst ((start world).log b turns) := by
  induction turns using List.reverseRecOn with
  | nil => exact .nil
  | append_singleton turns turn ih =>
      have hoccurs := occurs_after b ((start world).run b turns) turn
      have htake := takeFailure_run b world turns
      rw [log_concat]
      generalize ((start world).run b turns).occurrences b turn = occurrences at hoccurs ⊢
      generalize ((start world).run b turns).after b turn = s' at hoccurs
      cases hoccurs with
      | works hstep => exact ih.append hstep.not_handed
      | hands =>
          rw [htake]
          exact ih.hands
      | aside => rwa [List.append_nil]

/-- A wait that lets the worker go on until the queue is idle hands out the same. -/
theorem waitIdle_run {world : ω} {fuel : Nat} {result : Except Failure Unit}
    (hfree : ((start world).run b turns).stopping = false)
    (hresult : (((start world).run b turns).queue.waitIdle b fuel).2 = some result) :
    result = firstOf (failures (sinceHanded
      ((start world).log b (turns ++ List.replicate fuel .work)))) := by
  rw [← takeFailure_run, run_append, run_work hfree]
  simp only [CommandQueue.waitIdle] at hresult
  split at hresult
  next => exact (Option.some.inj hresult).symm
  next => cases hresult

end Scene

/-! ## What has failed -/

section Stories

variable {κ ρ ω : Type} {b : Behaviour κ ρ ω} {q : CommandQueue κ ρ ω} {id : CommandId}
  {log told : List Occurrence} {failure : Failure}

theorem Occurrence.failure?_eq_some {occurrence : Occurrence} :
    occurrence.failure? = some (id, failure) ↔
      occurrence = .ended id .failed (.error failure) := by
  unfold Occurrence.failure?
  split
  next => simp
  next h =>
    simp only [reduceCtorEq, false_iff]
    rintro rfl
    exact h _ _ rfl

theorem mem_failures :
    (id, failure) ∈ failures log ↔ .ended id .failed (.error failure) ∈ storyOf id log := by
  simp only [failures, storyOf, List.mem_filterMap, List.mem_filter, Occurrence.failure?_eq_some,
    exists_eq_right, Occurrence.about?, decide_true, and_true]

theorem CommandStatus.ofResult_eq_failed {asked : Bool} {result : Except Failure Unit}
    (h : CommandStatus.ofResult asked result = .failed) : ∃ failure, result = .error failure := by
  cases result with
  | ok _ => cases asked <;> cases h
  | error failure => exact ⟨failure, rfl⟩

theorem Reported.not_ended {result : Except Failure Unit} {reports : List Occurrence}
    (h : Reported b id result reports) {status : CommandStatus} {other : Except Failure Unit} :
    .ended id status other ∉ reports := by
  cases h <;> simp

theorem Reported.not_returned {result : Except Failure Unit} {reports : List Occurrence}
    (h : Reported b id result reports) {other : Except Failure Unit} :
    .returned id other ∉ reports := by
  cases h <;> simp

theorem Phase.Tells.not_ended {phase : Phase ρ} (h : phase.Tells b id told)
    {status : CommandStatus} {result : Except Failure Unit} : .ended id status result ∉ told := by
  cases phase with
  | taken | started | returned => simp [show told = _ from h]
  | judged => simp [h.2]
  | reported | recorded =>
      obtain ⟨_, reports, hreported, rfl⟩ := h
      simp [hreported.not_ended]

/-- A command that has been let go has failed with what its run has returned. -/
theorem Story.failed_iff (h : Story b q id told) :
    .ended id .failed (.error failure) ∈ told ↔
      q.status? id = some .failed ∧ (∀ phase, q.worker.stage? ≠ some (id, phase)) ∧
        .returned id (.error failure) ∈ told := by
  cases h with
  | apart => simp
  | held hstage htells =>
      refine ⟨fun hended => absurd hended htells.not_ended, fun ⟨_, hapart, _⟩ => ?_⟩
      exact absurd hstage (hapart _)
  | ended hstage hstatus hreported =>
      simp only [List.cons_append, List.mem_cons, List.mem_append, List.not_mem_nil, hstatus,
        hreported.not_ended, hreported.not_returned, reduceCtorEq, false_or, or_false,
        Option.some.injEq, Occurrence.returned.injEq, Occurrence.ended.injEq, true_and]
      constructor
      · rintro ⟨hfailed, hresult⟩
        exact ⟨hfailed.symm, hstage, hresult⟩
      · rintro ⟨hfailed, -, hresult⟩
        exact ⟨hfailed.symm, hresult⟩

theorem failures_sublist_ended (log : List Occurrence) :
    ((failures log).map (·.1)).Sublist (endedIds log) := by
  induction log with
  | nil => exact .refl _
  | cons occurrence log ih =>
      cases hfailure : occurrence.failure? with
      | none =>
          have hsame : failures (occurrence :: log) = failures log := by simp [failures, hfailure]
          rw [hsame]
          exact ih.trans ((List.sublist_cons_self occurrence log).filterMap _)
      | some failed =>
          obtain ⟨id, failure⟩ := failed
          obtain rfl := Occurrence.failure?_eq_some.mp hfailure
          exact ih.cons_cons id

theorem Story.returned_of_failed (h : Story b q id told)
    (hheld : ∀ phase, q.worker.stage? = some (id, phase) → q.status? id = some phase.status)
    (hfailed : q.status? id = some .failed) :
    ∃ failure, .returned id (.error failure) ∈ told := by
  cases h with
  | apart _ hstatus => rcases hstatus _ hfailed with hqueued | haborted <;> simp_all
  | @held phase _ hstage htells =>
      rw [hheld phase hstage, Option.some.injEq] at hfailed
      cases phase with
      | recorded status result =>
          obtain ⟨⟨asked, hjudged⟩, reports, _, rfl⟩ := htells
          obtain ⟨failure, rfl⟩ :=
            CommandStatus.ofResult_eq_failed (hjudged.symm.trans hfailed)
          exact ⟨failure, List.mem_cons_self⟩
      | taken | started | returned | judged | reported => cases hfailed
  | ended _ hstatus =>
      rw [hstatus, Option.some.injEq] at hfailed
      obtain ⟨failure, rfl⟩ := CommandStatus.ofResult_eq_failed hfailed
      exact ⟨failure, List.mem_cons_self⟩

theorem Reported.reports {result : Except Failure Unit} {reports rest : List Occurrence}
    (h : Reported b id result reports)
    (hrest : rest = [] ∨ ∃ status, rest = [.ended id status result]) :
    ((.returned id result :: reports ++ rest).filterMap Occurrence.report? = [] ∧
      ∀ failure, .returned id (.error failure) ∉ .returned id result :: reports ++ rest) ∨
    ∃ command failure, .returned id (.error failure) ∈ .returned id result :: reports ++ rest ∧
      (.returned id result :: reports ++ rest).filterMap Occurrence.report? =
        [.ofFailure (some id) (b.name command) failure] := by
  cases h with
  | nothing =>
      rcases hrest with rfl | ⟨status, rfl⟩
      · exact .inl ⟨rfl, by simp⟩
      · exact .inl ⟨rfl, by simp⟩
  | once command failure =>
      refine .inr ⟨command, failure, List.mem_cons_self, ?_⟩
      rcases hrest with rfl | ⟨status, rfl⟩ <;> rfl

/--
There is one report of what a command has returned if that is an error, and
none if not, or if the command still counts as running.
-/
theorem Story.reports (h : Story b q id told) :
    (told.filterMap Occurrence.report? = [] ∧
      ((∀ failure, .returned id (.error failure) ∉ told) ∨
        ∃ phase, q.worker.stage? = some (id, phase) ∧ phase.status = .running)) ∨
    ∃ command failure, .returned id (.error failure) ∈ told ∧
      told.filterMap Occurrence.report? =
        [.ofFailure (some id) (b.name command) failure] := by
  cases h with
  | apart => exact .inl ⟨rfl, .inl (by simp)⟩
  | @held phase _ hstage htells =>
      cases phase with
      | taken | started =>
          obtain rfl : told = [] := htells
          exact .inl ⟨rfl, .inl (by simp)⟩
      | returned result =>
          obtain rfl : told = _ := htells
          exact .inl ⟨rfl, .inr ⟨_, hstage, rfl⟩⟩
      | judged status result =>
          obtain ⟨_, rfl⟩ := htells
          exact .inl ⟨rfl, .inr ⟨_, hstage, rfl⟩⟩
      | reported status result | recorded status result =>
          obtain ⟨_, reports, hreported, rfl⟩ := htells
          have hreports := hreported.reports (.inl rfl)
          rw [List.append_nil] at hreports
          exact hreports.imp_left fun hnone => ⟨hnone.1, .inl hnone.2⟩
  | ended _ _ hreported =>
      exact (hreported.reports (.inr ⟨_, rfl⟩)).imp_left fun hnone => ⟨hnone.1, .inl hnone.2⟩

end Stories

/-! ## Waits and reports -/

/-- What a command changes itself: by its run, or when it is asked to stop. -/
inductive Behaviour.Changes {κ ρ ω : Type} (b : Behaviour κ ρ ω) (id : CommandId) (command : κ)
    (world : ω) : ω → Prop where
  | works {run next : ρ} {changed : ω} (h : b.step id command run world = .working next changed) :
      Changes b id command world changed
  | returns {run : ρ} {result : Except Failure Unit} {changed : ω}
      (h : b.step id command run world = .returned result changed) :
      Changes b id command world changed
  | asked : Changes b id command world (b.abort command world).2

namespace Scene

variable {κ ρ ω : Type}

/-- In a turn one report is put out, or none, and then the world may change otherwise. -/
def Offers (b : Behaviour κ ρ ω) (s : Scene κ ρ ω) (turn : Turn κ ω) : Prop :=
  (∃ report, (s.occurrences b turn).filterMap Occurrence.report? = [report] ∧
    (s.after b turn).queue.world = b.report report s.queue.world) ∨
  (s.occurrences b turn).filterMap Occurrence.report? = [] ∧
    ((s.after b turn).queue.world = s.queue.world ∨ (∃ world, turn = .change world) ∨
      ∃ job, s.queue.worker = .busy job ∧
        b.Changes job.id job.command s.queue.world (s.after b turn).queue.world)

/-- What a wait would hand out, and what waits have handed out, after some turns. -/
structure FailuresHandedOut (b : Behaviour κ ρ ω) (world : ω) (turns : List (Turn κ ω)) :
    Prop where
  /-- Every wait has handed out the first failure since the wait before it. -/
  first : HandsOutFirst ((start world).log b turns)
  /-- So does a wait that first lets the worker go on until the queue is idle. -/
  eager : ((start world).run b turns).stopping = false → ∀ fuel result,
    (((start world).run b turns).queue.waitIdle b fuel).2 = some result →
      result = firstOf (failures (sinceHanded
        ((start world).log b (turns ++ List.replicate fuel .work))))
  /-- The failures are what the failed commands have returned, once they are let go. -/
  failed : ∀ id failure, (id, failure) ∈ failures ((start world).log b turns) ↔
    ((start world).run b turns).queue.status? id = some .failed ∧
      (∀ job, ((start world).run b turns).queue.worker = .busy job → job.id ≠ id) ∧
      Returned b (start world) turns id (.error failure)
  /-- When the queue is idle, every command that has failed is among them. -/
  idle : ((start world).run b turns).queue.idle = true →
    ∀ id, ((start world).run b turns).queue.status? id = some .failed →
      ∃ failure, (id, failure) ∈ failures ((start world).log b turns)
  /-- The failures are in the order in which the commands have been run. -/
  in_order : ((failures ((start world).log b turns)).map (·.1)).Sublist
    ((start world).run b turns).started
  distinct : ((failures ((start world).log b turns)).map (·.1)).Nodup
  /-- No failure has been handed out twice. -/
  once : ∃ given : List (CommandId × Failure),
    given.map (·.2) = handedFailures ((start world).log b turns) ∧
      given.Sublist (failures ((start world).log b turns))

/-- What has been reported after some turns, and what the next turn reports. -/
structure FailuresReported (b : Behaviour κ ρ ω) (world : ω) (turns : List (Turn κ ω)) :
    Prop where
  /--
  There is one report of an error that a run has returned, and no other.  It is
  on the command that was added under the number, which may have been asked to
  stop since.
  -/
  own : ∀ id,
    (storyOf id ((start world).log b turns)).filterMap Occurrence.report? = [] ∨
      ∃ command asked failure, (added turns)[id]? = some command ∧ b.Becomes command asked ∧
        Returned b (start world) turns id (.error failure) ∧
        (storyOf id ((start world).log b turns)).filterMap Occurrence.report? =
          [.ofFailure (some id) (b.name asked) failure]
  /-- It has the name that the command was added with, if asking to stop changes no names. -/
  named : (∀ command world, b.name (b.abort command world).1 = b.name command) →
    ∀ id report, report ∈ (storyOf id ((start world).log b turns)).filterMap Occurrence.report? →
      (added turns)[id]?.map b.name = some report.commandName
  /-- It has been put out by the time that the status of the command is final. -/
  timely : ∀ id failure status, Returned b (start world) turns id (.error failure) →
    ((start world).run b turns).queue.status? id = some status → status.isFinished = true →
      (storyOf id ((start world).log b turns)).filterMap Occurrence.report? ≠ []
  /-- What is told of the next turn as a report is what the worker puts out in it. -/
  offered : ∀ turn, ((start world).run b turns).Offers b turn

theorem mem_story_returned {b : Behaviour κ ρ ω} {s : Scene κ ρ ω} {turns : List (Turn κ ω)}
    {id : CommandId} {result : Except Failure Unit} :
    .returned id result ∈ storyOf id (s.log b turns) ↔ Returned b s turns id result := by
  rw [← mem_log_returned, storyOf, List.mem_filter]
  simp [Occurrence.about?]

theorem stage?_ne_iff {q : CommandQueue κ ρ ω} {id : CommandId} :
    (∀ phase, q.worker.stage? ≠ some (id, phase)) ↔
      ∀ job, q.worker = .busy job → job.id ≠ id := by
  constructor
  · intro h job hworker hid
    exact h job.phase (hid ▸ CommandQueue.stage?_of_busy hworker)
  · intro h phase hstage
    cases hworker : q.worker with
    | busy job =>
        rw [hworker] at hstage
        cases hstage
        exact h job hworker rfl
    | seeking | between | parked | exited =>
        rw [hworker] at hstage
        cases hstage

theorem offers (b : Behaviour κ ρ ω) (s : Scene κ ρ ω) (turn : Turn κ ω) : s.Offers b turn := by
  have hoccurs := occurs_after b s turn
  unfold Offers
  generalize s.occurrences b turn = occurrences at hoccurs ⊢
  generalize s.after b turn = s' at hoccurs ⊢
  cases hoccurs with
  | works hstep =>
      cases hstep with
      | works hworker _ hstep => exact .inr ⟨rfl, .inr (.inr ⟨_, hworker, .works hstep⟩)⟩
      | returns hworker _ hstep => exact .inr ⟨rfl, .inr (.inr ⟨_, hworker, .returns hstep⟩)⟩
      | @reports job status result =>
          cases result with
          | ok _ => exact .inr ⟨rfl, .inl rfl⟩
          | error failure => exact .inl ⟨_, rfl, rfl⟩
      | takes | begins | judges | records | releases | rests => exact .inr ⟨rfl, .inl rfl⟩
  | hands => exact .inr ⟨rfl, .inl rfl⟩
  | aside haside =>
      refine .inr ⟨rfl, haside.world.imp_right fun hchanged => hchanged.imp_right ?_⟩
      rintro ⟨job, hworker, hworld⟩
      exact ⟨job, hworker, hworld ▸ .asked⟩

theorem failures_sublist_started (b : Behaviour κ ρ ω) (world : ω) (turns : List (Turn κ ω)) :
    ((failures ((start world).log b turns)).map (·.1)).Sublist
      ((start world).run b turns).started := by
  rw [started_run]
  exact (failures_sublist_ended _).trans (List.sublist_append_left _ _)

theorem mem_failures_run (b : Behaviour κ ρ ω) (world : ω) (turns : List (Turn κ ω))
    (id : CommandId) (failure : Failure) :
    (id, failure) ∈ failures ((start world).log b turns) ↔
      ((start world).run b turns).queue.status? id = some .failed ∧
        (∀ job, ((start world).run b turns).queue.worker = .busy job → job.id ≠ id) ∧
        Returned b (start world) turns id (.error failure) := by
  rw [mem_failures, (story_run b world turns id).failed_iff, stage?_ne_iff, mem_story_returned]

theorem failuresHandedOut (b : Behaviour κ ρ ω) (world : ω) (turns : List (Turn κ ω)) :
    FailuresHandedOut b world turns := by
  obtain ⟨hinOrder, htracked⟩ := run_inOrder_tracked b world turns
  have hsublist := failures_sublist_started b world turns
  refine ⟨handsOutFirst_run b world turns, fun hfree fuel result => waitIdle_run hfree,
    mem_failures_run b world turns, fun hidle id hfailed => ?_, hsublist, ?_, ?_⟩
  · obtain ⟨failure, hreturned⟩ :=
      (story_run b world turns id).returned_of_failed (fun phase => htracked.stage) hfailed
    refine ⟨failure, (mem_failures_run b world turns id failure).mpr ⟨hfailed, ?_, ?_⟩⟩
    · exact fun job hjob => absurd hidle ((run_flagged b world turns).not_idle hjob)
    · exact mem_story_returned.mp hreturned
  · have hpushed : ((start world).run b turns).pushed.Nodup :=
      (List.nodup_append.mp hinOrder.distinct).1
    exact hpushed.sublist (hsublist.trans ((List.sublist_append_left _ _).trans hinOrder.ordered))
  · obtain ⟨given, hgiven, hsome⟩ := (handsOutFirst_run b world turns).given
    exact ⟨given, hgiven, (List.sublist_append_left _ _).trans hsome⟩

theorem mem_story_reports {b : Behaviour κ ρ ω} {s : Scene κ ρ ω} {turns : List (Turn κ ω)}
    {id : CommandId} {report : ErrorReport}
    (h : report ∈ (storyOf id (s.log b turns)).filterMap Occurrence.report?) :
    .offered id report ∈ s.log b turns := by
  obtain ⟨occurrence, hmem, hreport⟩ := List.mem_filterMap.mp h
  obtain ⟨hlog, habout⟩ := List.mem_filter.mp hmem
  cases occurrence with
  | offered other report' =>
      simp only [Occurrence.about?, decide_eq_true_eq, Option.some.injEq] at habout
      cases hreport
      exact habout ▸ hlog
  | returned | ended | handed => cases hreport

theorem failuresReported (b : Behaviour κ ρ ω) (world : ω) (turns : List (Turn κ ω)) :
    FailuresReported b world turns := by
  obtain ⟨_, htracked⟩ := run_inOrder_tracked b world turns
  have hstory := story_run b world turns
  refine ⟨fun id => ?_, fun hkeeps id report hmem => ?_, ?_, offers b _⟩
  · rcases (hstory id).reports with ⟨hnone, _⟩ | ⟨command, failure, hreturned, hone⟩
    · exact .inl hnone
    · obtain ⟨added, asked, failure', hadded, hbecomes, hsame⟩ :=
        reported_of_added (mem_story_reports (hone ▸ List.mem_singleton_self _))
      have hname : b.name command = b.name asked := congrArg ErrorReport.commandName hsame
      exact .inr ⟨added, asked, failure, hadded, hbecomes, mem_story_returned.mp hreturned,
        hname ▸ hone⟩
  · exact reported_name hkeeps (mem_story_reports hmem)
  · intro id failure status hreturned hstatus hfinished hnone
    rcases (hstory id).reports with ⟨_, hnever | ⟨phase, hstage, hrunning⟩⟩ | ⟨_, _, _, hone⟩
    · exact hnever failure (mem_story_returned.mpr hreturned)
    · have hphase := htracked.stage hstage
      rw [hrunning, hstatus, Option.some.injEq] at hphase
      rw [hphase] at hfinished
      cases hfinished
    · rw [hnone] at hone
      cases hone

/--
However the turns of callers and worker are mixed, every wait hands out the
failure of the first command that has failed since the wait before it, each
failure goes to one wait at most, and for every run that has returned an error,
and for no other, there is one report.
-/
theorem failures_handed_out_and_reported (b : Behaviour κ ρ ω) (world : ω)
    (turns : List (Turn κ ω)) :
    FailuresHandedOut b world turns ∧ FailuresReported b world turns :=
  ⟨failuresHandedOut b world turns, failuresReported b world turns⟩

/-! Of three commands the second is aborted and the others fail; there are waits between them. -/

example :
    let b : Behaviour Nat Unit Unit :=
      ⟨fun _ => "", fun _ => (),
        fun _ command _ world => .returned
          (.error (if command = 1 then .eval .aborted else .sink (.lagged command))) world,
        fun command world => (command, world), fun _ world => world⟩
    let log := (start ()).log b
      ([.enroll 0, .enroll 1, .push 0, .push 0] ++ List.replicate 16 .work ++
        [.takeFailure, .takeFailure, .enroll 2, .push 0] ++ List.replicate 8 .work ++
        [.takeFailure])
    failures log = [(0, .sink (.lagged 0)), (2, .sink (.lagged 2))] ∧
      handedFailures log = [.sink (.lagged 0), .sink (.lagged 2)] ∧
      (log.filterMap Occurrence.report?).map (·.command) = [some 0, some 1, some 2] := by decide

end Scene

end StackQuery
