import StackQuery.Proofs.CommandQueue.Lifecycle
import StackQuery.Proofs.CommandQueue.Waking

/-!
# What happens to results

The run of a command returns with a result, which the worker reports if it is
an error, and with which it lets the command go.  A wait hands out a failure, or
that there is none.  All of this is put down in a log, turn by turn; it can be
told from a scene what the next turn adds to it.

Of each command the log tells the same story, as far as the worker has come
with it: what its run has returned, then a report if that is an error, then how
it has ended.
-/

namespace StackQuery

/-- What happens to the results of commands. -/
inductive Occurrence where
  /-- The run of a command has returned. -/
  | returned (id : CommandId) (result : Except Failure Unit)
  /-- A report on a command has been put out. -/
  | offered (id : CommandId) (report : ErrorReport)
  /-- The worker has let a command go. -/
  | ended (id : CommandId) (status : CommandStatus) (result : Except Failure Unit)
  /-- A wait has handed out a failure, or that there is none. -/
  | handed (result : Except Failure Unit)

section Jobs

variable {κ ρ : Type}

/-- What is put out about the result of a command. -/
def Job.reports {ω : Type} (b : Behaviour κ ρ ω) (job : Job κ ρ) :
    Except Failure Unit → List Occurrence
  | .ok () => []
  | .error failure =>
      [.offered job.id (.ofFailure (some job.id) (b.name job.command) failure)]

/-- The command that a worker holds, and how far it is with it. -/
def Worker.stage? : Worker κ ρ → Option (CommandId × Phase ρ)
  | .busy job => some (job.id, job.phase)
  | _ => none

end Jobs

namespace CommandQueue

variable {κ ρ ω : Type} {b : Behaviour κ ρ ω} {q q' : CommandQueue κ ρ ω}

/-- What happens to results in the next step of the worker. -/
def occurrences (b : Behaviour κ ρ ω) (q : CommandQueue κ ρ ω) : List Occurrence :=
  match q.worker with
  | .busy job => match job.phase with
    | .started run => match b.step job.id job.command run q.world with
      | .returned result _ => [.returned job.id result]
      | _ => []
    | .judged _ result => job.reports b result
    | .recorded status result => [.ended job.id status result]
    | _ => []
  | _ => []

theorem occurrences_of_stuck (h : q.advance? b = none) : q.occurrences b = [] := by
  unfold occurrences
  rcases advance?_eq_none h with ⟨job, run, hworker, hphase, hstep⟩ | ⟨hworker, _⟩ | hworker
  · simp only [hworker, hphase, hstep]
  · simp only [hworker]
  · simp only [hworker]

theorem occurrences_of_free (h : ∀ job, q.worker ≠ .busy job) : q.occurrences b = [] := by
  unfold occurrences
  split
  next job hworker => exact absurd hworker (h job)
  next => rfl

theorem stage?_eq_none (h : ∀ job, q.worker ≠ .busy job) : q.worker.stage? = none := by
  unfold Worker.stage?
  split
  next job hworker => exact absurd hworker (h job)
  next => rfl

/-- The steps of the worker, with what happens to results in them. -/
inductive Handles (b : Behaviour κ ρ ω) (q : CommandQueue κ ρ ω) :
    List Occurrence → CommandQueue κ ρ ω → Prop where
  | takes {id : CommandId} {command : κ} {pending : List (CommandId × κ)}
      (hstage : q.worker.stage? = none) (hpending : q.pending = (id, command) :: pending) :
      Handles b q [] { q with worker := .busy ⟨id, command, false, .taken⟩, pending }
  | begins {job : Job κ ρ} (hworker : q.worker = .busy job) (hphase : job.phase = .taken) :
      Handles b q [] ((q.record job.id .running).atPhase job (.started (b.start job.command)))
  | works {job : Job κ ρ} {run next : ρ} {world : ω} (hworker : q.worker = .busy job)
      (hphase : job.phase = .started run)
      (hstep : b.step job.id job.command run q.world = .working next world) :
      Handles b q [] ({ q with world }.atPhase job (.started next))
  | returns {job : Job κ ρ} {run : ρ} {result : Except Failure Unit} {world : ω}
      (hworker : q.worker = .busy job) (hphase : job.phase = .started run)
      (hstep : b.step job.id job.command run q.world = .returned result world) :
      Handles b q [.returned job.id result] ({ q with world }.atPhase job (.returned result))
  | judges {job : Job κ ρ} {result : Except Failure Unit} (hworker : q.worker = .busy job)
      (hphase : job.phase = .returned result) :
      Handles b q [] (q.atPhase job (.judged (.ofResult job.abortRequested result) result))
  | reports {job : Job κ ρ} {status : CommandStatus} {result : Except Failure Unit}
      (hworker : q.worker = .busy job) (hphase : job.phase = .judged status result) :
      Handles b q (job.reports b result)
        ((q.report b job result).atPhase job (.reported status result))
  | records {job : Job κ ρ} {status : CommandStatus} {result : Except Failure Unit}
      (hworker : q.worker = .busy job) (hphase : job.phase = .reported status result) :
      Handles b q [] ((q.record job.id status).atPhase job (.recorded status result))
  | releases {job : Job κ ρ} {status : CommandStatus} {result : Except Failure Unit}
      (hworker : q.worker = .busy job) (hphase : job.phase = .recorded status result) :
      Handles b q [.ended job.id status result] (q.release status result)
  | rests {worker : Worker κ ρ} {idle notice : Bool} {exitSign : ExitSign}
      (hbefore : q.worker.stage? = none) (hafter : worker.stage? = none) :
      Handles b q [] { q with worker, idle, notice, exitSign }

theorem Steps.handles (h : Steps b q q') : Handles b q (q.occurrences b) q' := by
  cases h with
  | @proceeds job _ hworker hproceeds =>
      cases hproceeds with
      | begins hphase =>
          simp only [occurrences, hworker, hphase]
          exact .begins hworker hphase
      | works hphase hstep =>
          simp only [occurrences, hworker, hphase, hstep]
          exact .works hworker hphase hstep
      | returns hphase hstep =>
          simp only [occurrences, hworker, hphase, hstep]
          exact .returns hworker hphase hstep
      | judges hphase =>
          simp only [occurrences, hworker, hphase]
          exact .judges hworker hphase
      | reports hphase =>
          simp only [occurrences, hworker, hphase]
          exact .reports hworker hphase
      | records hphase =>
          simp only [occurrences, hworker, hphase]
          exact .records hworker hphase
      | releases hphase =>
          simp only [occurrences, hworker, hphase]
          exact .releases hworker hphase
  | takes hworker hpending =>
      have hfree : ∀ job, q.worker ≠ .busy job := by simp [hworker]
      rw [occurrences_of_free hfree]
      exact .takes (stage?_eq_none hfree) hpending
  | parks hworker =>
      have hfree : ∀ job, q.worker ≠ .busy job := by simp [hworker]
      rw [occurrences_of_free hfree]
      exact .rests (stage?_eq_none hfree) rfl
  | seeks hfree | exits hfree =>
      rw [occurrences_of_free hfree]
      exact .rests (stage?_eq_none hfree) rfl

theorem status?_record_or (q : CommandQueue κ ρ ω) (id : CommandId) (status : CommandStatus)
    (other : CommandId) :
    (q.record id status).status? other = q.status? other ∨
      (q.record id status).status? other = some status := by
  rw [status?_record]
  split
  next =>
    cases q.status? other with
    | none => exact .inl rfl
    | some _ => exact .inr rfl
  next => exact .inl rfl

theorem mem_reports {job : Job κ ρ} {result : Except Failure Unit} {occurrence : Occurrence}
    (h : occurrence ∈ job.reports b result) :
    ∃ failure, result = .error failure ∧
      occurrence = .offered job.id (.ofFailure (some job.id) (b.name job.command) failure) := by
  cases result with
  | ok _ => cases h
  | error failure => exact ⟨failure, rfl, List.mem_singleton.mp h⟩

theorem Handles.of_returned {occurrences : List Occurrence} (h : Handles b q occurrences q')
    {id : CommandId} {result : Except Failure Unit} (hmem : .returned id result ∈ occurrences) :
    ∃ job run world, q.worker = .busy job ∧ job.id = id ∧ job.phase = .started run ∧
      b.step job.id job.command run q.world = .returned result world := by
  cases h with
  | returns hworker hphase hstep =>
      cases List.mem_singleton.mp hmem
      exact ⟨_, _, _, hworker, rfl, hphase, hstep⟩
  | reports =>
      obtain ⟨_, _, hoffered⟩ := mem_reports hmem
      cases hoffered
  | releases => simp at hmem
  | takes | begins | works | judges | records | rests => cases hmem

end CommandQueue

namespace Scene

variable {κ ρ ω : Type} {b : Behaviour κ ρ ω} {s s' : Scene κ ρ ω}
  {turns : List (Turn κ ω)} {turn : Turn κ ω}

/-- What happens to results in a turn; a turn that cannot be taken brings nothing. -/
def occurrences (b : Behaviour κ ρ ω) (s : Scene κ ρ ω) : Turn κ ω → List Occurrence
  | .work => if s.stopping ∧ s.queue.worker.needsLock then [] else s.queue.occurrences b
  | .takeFailure => if s.stopping then [] else [.handed s.queue.takeFailure.2]
  | _ => []

def log (b : Behaviour κ ρ ω) (s : Scene κ ρ ω) : List (Turn κ ω) → List Occurrence
  | [] => []
  | turn :: rest => s.occurrences b turn ++ (s.after b turn).log b rest

/-! ## One turn -/

/-- In a turn nothing has happened to results. -/
structure Aside (b : Behaviour κ ρ ω) (s : Scene κ ρ ω) (turn : Turn κ ω) (s' : Scene κ ρ ω) :
    Prop where
  failure : s'.queue.firstFailure = s.queue.firstFailure
  started : s'.started = s.started
  stage : s'.queue.worker.stage? = s.queue.worker.stage?
  status : ∀ id, s'.queue.status? id = s.queue.status? id ∨
    s'.queue.status? id = some .queued ∨ s'.queue.status? id = some .aborted
  world : s'.queue.world = s.queue.world ∨ (∃ world, turn = .change world) ∨
    ∃ job, s.queue.worker = .busy job ∧
      s'.queue.world = (b.abort job.command s.queue.world).2

theorem Aside.refl (b : Behaviour κ ρ ω) (s : Scene κ ρ ω) (turn : Turn κ ω) :
    Aside b s turn s := ⟨rfl, rfl, rfl, fun _ => .inl rfl, .inl rfl⟩

theorem Leads.aside (h : Leads b s turn s') (hwork : turn ≠ .work)
    (htake : turn ≠ .takeFailure) : Aside b s turn s' := by
  cases h with
  | stays => exact .refl b s turn
  | enrolls command =>
      refine ⟨rfl, rfl, rfl, fun id => ?_, .inl rfl⟩
      rw [CommandQueue.status?_enroll]
      split
      next => exact .inr (.inl rfl)
      next => exact .inl rfl
  | @drops dropped =>
      refine ⟨rfl, rfl, rfl, fun id => ?_, .inl rfl⟩
      exact (CommandQueue.status?_record_or s.queue dropped .aborted id).imp_right .inr
  | unlocks =>
      unfold CommandQueue.endStop
      split
      next job hworker =>
        refine ⟨rfl, rfl, ?_, fun _ => .inl rfl, .inr (.inr ⟨job, hworker, rfl⟩)⟩
        rw [hworker]
        rfl
      next => exact ⟨rfl, rfl, rfl, fun _ => .inl rfl, .inl rfl⟩
  | signals =>
      unfold CommandQueue.signalExit
      split <;> exact ⟨rfl, rfl, rfl, fun _ => .inl rfl, .inl rfl⟩
  | works => exact absurd rfl hwork
  | takesFailure => exact absurd rfl htake
  | changes world => exact ⟨rfl, rfl, rfl, fun _ => .inl rfl, .inr (.inl ⟨world, rfl⟩)⟩
  | pushes | notifies | locks => exact ⟨rfl, rfl, rfl, fun _ => .inl rfl, .inl rfl⟩

/-- What a turn does to results: the worker takes a step, a wait ends, or nothing happens. -/
inductive Occurs (b : Behaviour κ ρ ω) (s : Scene κ ρ ω) :
    Turn κ ω → List Occurrence → Scene κ ρ ω → Prop where
  | works {occurrences : List Occurrence} {queue : CommandQueue κ ρ ω}
      (hstep : s.queue.Handles b occurrences queue) :
      Occurs b s .work occurrences
        { s with queue, started := s.started ++ s.queue.worker.starting }
  | hands :
      Occurs b s .takeFailure [.handed s.queue.takeFailure.2]
        { s with queue := s.queue.takeFailure.1 }
  | aside {turn : Turn κ ω} {s' : Scene κ ρ ω} (h : Aside b s turn s') : Occurs b s turn [] s'

theorem occurs_after (b : Behaviour κ ρ ω) (s : Scene κ ρ ω) (turn : Turn κ ω) :
    Occurs b s turn (s.occurrences b turn) (s.after b turn) := by
  cases turn with
  | work =>
      simp only [occurrences, after]
      split
      next => exact .aside (.refl b s .work)
      next =>
        cases hstep : s.queue.advance? b with
        | none =>
            rw [CommandQueue.occurrences_of_stuck hstep]
            exact .aside (.refl b s .work)
        | some queue => exact .works (CommandQueue.steps_of_advance? hstep).handles
  | takeFailure =>
      simp only [occurrences, after]
      split
      next => exact .aside (.refl b s .takeFailure)
      next => exact .hands
  | enroll | push | notify | beginStop | dropFirst | endStop | signalExit | change =>
      exact .aside ((leads_after b s _).aside (by simp) (by simp))

/-! ## What has been returned -/

theorem log_append (b : Behaviour κ ρ ω) (s : Scene κ ρ ω) (turns more : List (Turn κ ω)) :
    s.log b (turns ++ more) = s.log b turns ++ (s.run b turns).log b more := by
  induction turns generalizing s with
  | nil => rfl
  | cons first rest ih =>
      simp only [List.cons_append, log, ih, List.append_assoc]
      rfl

theorem log_concat (b : Behaviour κ ρ ω) (s : Scene κ ρ ω) (turns : List (Turn κ ω))
    (turn : Turn κ ω) :
    s.log b (turns ++ [turn]) = s.log b turns ++ (s.run b turns).occurrences b turn := by
  rw [log_append, log, log, List.append_nil]

theorem mem_log_returned {id : CommandId} {result : Except Failure Unit} :
    .returned id result ∈ s.log b turns ↔ Returned b s turns id result := by
  constructor
  · intro hmem
    induction turns using List.reverseRecOn with
    | nil => cases hmem
    | append_singleton turns turn ih =>
        rw [log_concat, List.mem_append] at hmem
        rcases hmem with hmem | hmem
        · exact (ih hmem).append [turn]
        · have hoccurs := occurs_after b (s.run b turns) turn
          generalize (s.run b turns).occurrences b turn = occurrences at hmem hoccurs
          generalize (s.run b turns).after b turn = s' at hoccurs
          cases hoccurs with
          | works hstep =>
              obtain ⟨job, run, world, hworker, rfl, hphase, hreturns⟩ := hstep.of_returned hmem
              exact returned_concat hworker hphase hreturns
          | hands => simp at hmem
          | aside => cases hmem
  · rintro ⟨earlier, rest, job, run, world, rfl, hworker, rfl, hphase, hstep⟩
    rw [log_append, List.mem_append, log, List.mem_append]
    refine .inr (.inl ?_)
    simp [occurrences, hworker, Worker.needsLock, hphase, CommandQueue.occurrences, hstep]

end Scene

/-! ## The story of a command -/

section Stories

def Occurrence.about? : Occurrence → Option CommandId
  | .returned id _ | .offered id _ | .ended id _ _ => some id
  | .handed _ => none

/-- What has happened to the result of one command. -/
def storyOf (id : CommandId) (log : List Occurrence) : List Occurrence :=
  log.filter fun occurrence => occurrence.about? = some id

theorem storyOf_append (id : CommandId) (log more : List Occurrence) :
    storyOf id (log ++ more) = storyOf id log ++ storyOf id more := List.filter_append _ _

theorem storyOf_eq_self {id : CommandId} {log : List Occurrence}
    (h : ∀ occurrence ∈ log, occurrence.about? = some id) : storyOf id log = log :=
  List.filter_eq_self.mpr fun occurrence hmem => by simpa using h occurrence hmem

theorem storyOf_eq_nil {id : CommandId} {log : List Occurrence}
    (h : ∀ occurrence ∈ log, occurrence.about? ≠ some id) : storyOf id log = [] :=
  List.filter_eq_nil_iff.mpr fun occurrence hmem => by simpa using h occurrence hmem

variable {κ ρ ω : Type}

/-- There is one report of a failure, and nothing else is reported. -/
inductive Reported (b : Behaviour κ ρ ω) (id : CommandId) :
    Except Failure Unit → List Occurrence → Prop where
  | nothing : Reported b id (.ok ()) []
  | once (command : κ) (failure : Failure) :
      Reported b id (.error failure)
        [.offered id (.ofFailure (some id) (b.name command) failure)]

theorem Job.reported_reports (b : Behaviour κ ρ ω) (job : Job κ ρ)
    (result : Except Failure Unit) : Reported b job.id result (job.reports b result) := by
  cases result with
  | ok _ => exact .nothing
  | error failure => exact .once job.command failure

/-- What has happened to the result of a command that the worker holds. -/
def Phase.Tells (b : Behaviour κ ρ ω) (id : CommandId) : Phase ρ → List Occurrence → Prop
  | .taken, story | .started _, story => story = []
  | .returned result, story => story = [.returned id result]
  | .judged status result, story =>
      (∃ asked, status = .ofResult asked result) ∧ story = [.returned id result]
  | .reported status result, story | .recorded status result, story =>
      (∃ asked, status = .ofResult asked result) ∧
        ∃ reports, Reported b id result reports ∧ story = .returned id result :: reports

/-- What has happened to the result of a command, wherever the command is. -/
inductive Story (b : Behaviour κ ρ ω) (q : CommandQueue κ ρ ω) (id : CommandId) :
    List Occurrence → Prop where
  | apart (hstage : ∀ phase, q.worker.stage? ≠ some (id, phase))
      (hstatus : ∀ status, q.status? id = some status → status = .queued ∨ status = .aborted) :
      Story b q id []
  | held {phase : Phase ρ} {story : List Occurrence}
      (hstage : q.worker.stage? = some (id, phase)) (htells : phase.Tells b id story) :
      Story b q id story
  | ended {asked : Bool} {result : Except Failure Unit} {reports : List Occurrence}
      (hstage : ∀ phase, q.worker.stage? ≠ some (id, phase))
      (hstatus : q.status? id = some (.ofResult asked result))
      (hreported : Reported b id result reports) :
      Story b q id (.returned id result :: reports ++ [.ended id (.ofResult asked result) result])

end Stories

namespace CommandQueue

variable {κ ρ ω : Type} {b : Behaviour κ ρ ω} {q q' : CommandQueue κ ρ ω} {id : CommandId}
  {occurrences told : List Occurrence}

theorem stage?_of_busy {job : Job κ ρ} (h : q.worker = .busy job) :
    q.worker.stage? = some (job.id, job.phase) := by
  rw [h]
  rfl

/-- What a step of the worker adds to the story of the command that it holds. -/
theorem Handles.own (h : Handles b q occurrences q') {phase : Phase ρ}
    (hstage : q.worker.stage? = some (id, phase)) (hstatus : q.status? id = some phase.status) :
    (∃ next, q'.worker.stage? = some (id, next) ∧
      ∀ told, phase.Tells b id told → next.Tells b id (told ++ storyOf id occurrences)) ∨
    ∃ status result, phase = .recorded status result ∧
      occurrences = [.ended id status result] ∧ q'.worker.stage? = none ∧
      q'.status? id = some status := by
  have hcalm (told : List Occurrence) : told ++ storyOf id [] = told := List.append_nil told
  -- By the phase of the command, which the step takes to the next one.
  cases h with
  | takes hfree | rests hfree => simp [hfree] at hstage
  | begins hworker hphase | works hworker hphase | records hworker hphase =>
      rw [stage?_of_busy hworker, hphase] at hstage
      cases hstage
      refine .inl ⟨_, rfl, fun told htells => ?_⟩
      rw [hcalm]
      exact htells
  | @judges job result hworker hphase =>
      rw [stage?_of_busy hworker, hphase] at hstage
      cases hstage
      refine .inl ⟨_, rfl, fun told htells => ⟨⟨job.abortRequested, rfl⟩, ?_⟩⟩
      rw [hcalm]
      exact htells
  | @returns job run result world hworker hphase =>
      rw [stage?_of_busy hworker, hphase] at hstage
      cases hstage
      refine .inl ⟨_, rfl, fun told htells => ?_⟩
      rw [storyOf_eq_self (by simp [Occurrence.about?]), htells]
      rfl
  | @reports job status result hworker hphase =>
      rw [stage?_of_busy hworker, hphase] at hstage
      cases hstage
      have hown : storyOf job.id (job.reports b result) = job.reports b result := by
        refine storyOf_eq_self fun occurrence hmem => ?_
        obtain ⟨_, _, rfl⟩ := mem_reports hmem
        rfl
      refine .inl ⟨_, rfl, fun told htells =>
        ⟨htells.1, job.reports b result, job.reported_reports b result, ?_⟩⟩
      rw [hown, htells.2]
      rfl
  | releases hworker hphase =>
      rw [stage?_of_busy hworker, hphase] at hstage
      cases hstage
      exact .inr ⟨_, _, rfl, rfl, rfl, hstatus⟩

/-- Nothing happens to a command that the worker does not hold, unless the worker takes it. -/
theorem Handles.others (h : Handles b q occurrences q')
    (hstage : ∀ phase, q.worker.stage? ≠ some (id, phase)) :
    storyOf id occurrences = [] ∧ q'.status? id = q.status? id ∧
      ∀ phase, q'.worker.stage? = some (id, phase) → phase = .taken ∧ id ∈ q.waiting := by
  have hne {job : Job κ ρ} (hworker : q.worker = .busy job) : job.id ≠ id := by
    rintro rfl
    exact hstage job.phase (stage?_of_busy hworker)
  have hheld {job : Job κ ρ} (hworker : q.worker = .busy job) (phase next : Phase ρ)
      (hnext : some (job.id, phase) = some (id, next)) : next = .taken ∧ id ∈ q.waiting := by
    cases hnext
    exact absurd rfl (hne hworker)
  cases h with
  | takes _ hpending =>
      refine ⟨rfl, rfl, fun phase hnext => ?_⟩
      cases hnext
      simp [waiting, hpending]
  | begins hworker | records hworker =>
      exact ⟨rfl, status?_record_of_ne (hne hworker).symm _, hheld hworker _⟩
  | works hworker | judges hworker => exact ⟨rfl, rfl, hheld hworker _⟩
  | returns hworker =>
      exact ⟨storyOf_eq_nil (by simp [Occurrence.about?, hne hworker]), rfl, hheld hworker _⟩
  | @reports job status result hworker =>
      refine ⟨storyOf_eq_nil fun occurrence hmem => ?_, ?_, hheld hworker _⟩
      · obtain ⟨_, _, rfl⟩ := mem_reports hmem
        simp [Occurrence.about?, hne hworker]
      · obtain ⟨world, hworld⟩ := q.report_eq b job result
        rw [hworld]
        rfl
  | releases hworker =>
      refine ⟨storyOf_eq_nil (by simp [Occurrence.about?, hne hworker]), rfl, fun phase hnext => ?_⟩
      cases hnext
  | rests _ hafter => exact ⟨rfl, rfl, by simp [hafter]⟩

theorem Handles.story (h : Handles b q occurrences q') (hstory : Story b q id told)
    (hwaiting : id ∈ q.waiting → q.status? id = some .queued)
    (hheld : ∀ phase, q.worker.stage? = some (id, phase) → q.status? id = some phase.status) :
    Story b q' id (told ++ storyOf id occurrences) := by
  cases hstory with
  | apart hstage hstatus =>
      obtain ⟨hnothing, hsame, htaken⟩ := h.others hstage
      rw [hnothing]
      by_cases hnext : ∃ phase, q'.worker.stage? = some (id, phase)
      · obtain ⟨phase, hnext⟩ := hnext
        obtain ⟨rfl, _⟩ := htaken phase hnext
        exact .held hnext rfl
      · refine .apart (not_exists.mp hnext) ?_
        rwa [hsame]
  | @held phase _ hstage htells =>
      rcases h.own hstage (hheld phase hstage) with ⟨next, hnext, hmore⟩ |
        ⟨status, result, rfl, rfl, hnone, hstatus⟩
      · exact .held hnext (hmore told htells)
      · obtain ⟨⟨asked, rfl⟩, reports, hreported, rfl⟩ := htells
        rw [storyOf_eq_self (by simp [Occurrence.about?])]
        exact .ended (by simp [hnone]) hstatus hreported
  | @ended asked result reports hstage hstatus hreported =>
      -- The worker cannot take the command again: what waits is queued, and this one is finished.
      obtain ⟨hnothing, hsame, htaken⟩ := h.others hstage
      rw [hnothing, List.append_nil]
      refine .ended (fun phase hnext => ?_) (hsame.trans hstatus) hreported
      have hqueued := hwaiting (htaken phase hnext).2
      rw [hstatus, Option.some.injEq] at hqueued
      have hfinished := CommandStatus.isFinished_ofResult asked result
      rw [hqueued] at hfinished
      cases hfinished

end CommandQueue

theorem Story.kept {κ ρ ω : Type} {b : Behaviour κ ρ ω} {q q' : CommandQueue κ ρ ω}
    {id : CommandId} {told : List Occurrence} (h : Story b q id told)
    (hstage : q'.worker.stage? = q.worker.stage?)
    (hstatus : q'.status? id = q.status? id ∨ q'.status? id = some .queued ∨
      q'.status? id = some .aborted)
    (hkeeps : ∀ status, q.status? id = some status → status.isFinished = true →
      q'.status? id = some status) : Story b q' id told := by
  cases h with
  | apart hapart hbefore =>
      refine .apart (hstage ▸ hapart) fun status hafter => ?_
      rcases hstatus with hsame | hqueued | haborted
      · exact hbefore status (hsame.symm.trans hafter)
      · exact .inl (Option.some.inj (hafter.symm.trans hqueued))
      · exact .inr (Option.some.inj (hafter.symm.trans haborted))
  | held hheld htells => exact .held (hstage.trans hheld) htells
  | ended hapart hended hreported =>
      exact .ended (hstage ▸ hapart)
        (hkeeps _ hended (CommandStatus.isFinished_ofResult _ _)) hreported

/-! ## The order in which commands end -/

/-- The command that a worker holds and has started. -/
def Worker.going {κ ρ : Type} (worker : Worker κ ρ) : List CommandId :=
  match worker.stage? with
  | none | some (_, .taken) => []
  | some (id, _) => [id]

theorem Worker.going_of_free {κ ρ : Type} {worker : Worker κ ρ} (h : worker.stage? = none) :
    worker.going = [] := by
  rw [Worker.going, h]

theorem Worker.going_of_stage {κ ρ : Type} {worker : Worker κ ρ} {id : CommandId}
    {phase : Phase ρ} (h : worker.stage? = some (id, phase)) (hphase : phase ≠ .taken) :
    worker.going = [id] := by
  rw [Worker.going, h]
  cases phase with
  | taken => exact absurd rfl hphase
  | started | returned | judged | reported | recorded => rfl

theorem Worker.starting_of_free {κ ρ : Type} {worker : Worker κ ρ} (h : worker.stage? = none) :
    worker.starting = [] := by
  cases worker with
  | busy job => cases h
  | seeking | between | parked | exited => rfl

def Occurrence.ended? : Occurrence → Option CommandId
  | .ended id _ _ => some id
  | _ => none

/-- The commands that the worker has let go, in this order. -/
def endedIds (log : List Occurrence) : List CommandId := log.filterMap Occurrence.ended?

namespace CommandQueue

variable {κ ρ ω : Type} {b : Behaviour κ ρ ω} {q q' : CommandQueue κ ρ ω}
  {occurrences : List Occurrence}

/-- A command that is started is going on until the worker lets it go. -/
theorem Handles.going (h : Handles b q occurrences q') :
    q.worker.going ++ q.worker.starting = endedIds occurrences ++ q'.worker.going := by
  have hgoing {job : Job κ ρ} (hworker : q.worker = .busy job) (hphase : job.phase ≠ .taken) :
      q.worker.going ++ q.worker.starting = [job.id] := by
    have hstarting : (Worker.busy job).starting = [] := Job.starting_eq_nil hphase
    rw [Worker.going_of_stage (stage?_of_busy hworker) hphase, hworker, hstarting]
    rfl
  cases h with
  | takes hfree =>
      rw [Worker.starting_of_free hfree, Worker.going_of_free hfree]
      rfl
  | rests hfree hafter =>
      rw [Worker.starting_of_free hfree, Worker.going_of_free hfree, Worker.going_of_free hafter]
      rfl
  | begins hworker hphase =>
      rw [hworker]
      simp [Worker.starting, Job.starting, Worker.going, Worker.stage?, hphase, endedIds, atPhase]
  | works hworker hphase | returns hworker hphase | judges hworker hphase
  | records hworker hphase | releases hworker hphase =>
      exact (hgoing hworker (by simp [hphase])).trans rfl
  | @reports job status result hworker hphase =>
      have hnone : endedIds (job.reports b result) = [] := by cases result <;> rfl
      rw [hnone]
      exact (hgoing hworker (by simp [hphase])).trans rfl

end CommandQueue

namespace Scene

variable {κ ρ ω : Type} {b : Behaviour κ ρ ω} {s s' : Scene κ ρ ω} {turn : Turn κ ω}
  {occurrences told : List Occurrence} {id : CommandId}

theorem Tracked.stage (h : s.Tracked) {phase : Phase ρ}
    (hstage : s.queue.worker.stage? = some (id, phase)) :
    s.queue.status? id = some phase.status := by
  cases hworker : s.queue.worker with
  | busy job =>
      rw [hworker] at hstage
      cases hstage
      exact (h.held job hworker).1
  | seeking | between | parked | exited => simp [hworker, Worker.stage?] at hstage

theorem Occurs.story (h : Occurs b s turn occurrences s') (hstory : Story b s.queue id told)
    (htracked : s.Tracked)
    (hkeeps : ∀ status, s.queue.status? id = some status → status.isFinished = true →
      s'.queue.status? id = some status) :
    Story b s'.queue id (told ++ storyOf id occurrences) := by
  cases h with
  | works hstep =>
      refine hstep.story hstory (fun hwaiting => htracked.queued id (.inr hwaiting)) fun phase => ?_
      exact htracked.stage
  | hands =>
      have hkept : Story b s.queue.takeFailure.1 id told :=
        hstory.kept rfl (.inl rfl) fun _ h _ => h
      rw [storyOf_eq_nil (by simp [Occurrence.about?]), List.append_nil]
      exact hkept
  | aside haside =>
      have hkept := hstory.kept haside.stage (haside.status id) hkeeps
      rwa [← List.append_nil told] at hkept

theorem story_run (b : Behaviour κ ρ ω) (world : ω) (turns : List (Turn κ ω))
    (id : CommandId) :
    Story b ((start world).run b turns).queue id (storyOf id ((start world).log b turns)) := by
  induction turns using List.reverseRecOn with
  | nil =>
      refine .apart (fun phase hstage => ?_) fun status hstatus => ?_
      · cases hstage
      · simp [run, start, CommandQueue.empty, CommandQueue.status?] at hstatus
  | append_singleton turns turn ih =>
      obtain ⟨hinOrder, htracked⟩ := run_inOrder_tracked b world turns
      rw [run_concat, log_concat, storyOf_append]
      refine (occurs_after b _ turn).story ih htracked fun status hstatus hfinished => ?_
      exact finished_run hfinished hinOrder htracked hstatus [turn]

theorem Occurs.started (h : Occurs b s turn occurrences s') {ended : List CommandId}
    (hstarted : s.started = ended ++ s.queue.worker.going) :
    s'.started = ended ++ endedIds occurrences ++ s'.queue.worker.going := by
  cases h with
  | works hstep =>
      rw [List.append_assoc, ← hstep.going, ← List.append_assoc, ← hstarted]
  | hands =>
      rw [hstarted]
      simp [endedIds, Occurrence.ended?, CommandQueue.takeFailure]
  | aside haside =>
      rw [haside.started, hstarted, Worker.going, Worker.going, haside.stage]
      simp [endedIds]

theorem started_run (b : Behaviour κ ρ ω) (world : ω) (turns : List (Turn κ ω)) :
    ((start world).run b turns).started =
      endedIds ((start world).log b turns) ++ ((start world).run b turns).queue.worker.going := by
  induction turns using List.reverseRecOn with
  | nil => rfl
  | append_singleton turns turn ih =>
      rw [run_concat, log_concat, endedIds, List.filterMap_append, ← endedIds, ← endedIds]
      exact (occurs_after b _ turn).started ih

end Scene

end StackQuery
