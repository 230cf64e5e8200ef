import Mathlib.Data.List.Perm.Basic
import StackQuery.Proofs.CommandQueue.Interleaving

/-!
# The life of a command

Whatever turns are taken, the commands that have been started and those that
are still to start are, in this order, among the commands in the order in which
they were pushed.  A stop and the worker only take from the front of what is
still to start, and a push only adds at its end.

A command has its record to itself: the worker changes the record of the
command that it holds, a stop those of waiting commands, and no command is at
two places at once.  So a record only goes from queued to running and on to a
finished status, or from queued to aborted.
-/

namespace StackQuery

/-- How the status of a command may go on. -/
inductive CommandStatus.Next : CommandStatus → CommandStatus → Prop where
  | starts : Next .queued .running
  | ends {status : CommandStatus} (h : status.isFinished = true) : Next .running status
  | dropped : Next .queued .aborted

/-- What may happen to a record at once: it is made, it goes on, or it stays. -/
inductive CommandStatus.Moves : Option CommandStatus → Option CommandStatus → Prop where
  | stays (status? : Option CommandStatus) : Moves status? status?
  | enrolled : Moves none (some .queued)
  | goesOn {status next : CommandStatus} (h : Next status next) : Moves (some status) (some next)

open CommandStatus (Next Moves)

theorem CommandStatus.Moves.finished {status : CommandStatus} {next? : Option CommandStatus}
    (h : Moves (some status) next?) (hfinished : status.isFinished = true) :
    next? = some status := by
  cases h with
  | stays _ => rfl
  | goesOn hnext =>
      cases hnext with
      | starts => cases hfinished
      | ends _ => cases hfinished
      | dropped => cases hfinished

namespace CommandQueue

variable {κ ρ ω : Type} {b : Behaviour κ ρ ω} {q q' : CommandQueue κ ρ ω}

/-! ## Statuses -/

theorem status?_record (q : CommandQueue κ ρ ω) (id : CommandId) (status : CommandStatus)
    (other : CommandId) :
    (q.record id status).status? other =
      if other = id then (q.status? other).map fun _ => status else q.status? other := by
  simp only [status?, record, List.getElem?_modify]
  by_cases h : id = other
  · subst h
    cases q.records[id]? <;> simp [CommandRecord.transition]
  · simp [h, Ne.symm h]

theorem status?_record_of_ne {id other : CommandId} (h : other ≠ id) (status : CommandStatus) :
    (q.record id status).status? other = q.status? other := by
  rw [status?_record, if_neg h]

theorem status?_record_of_some {id : CommandId} {before : CommandStatus}
    (h : q.status? id = some before) (status : CommandStatus) :
    (q.record id status).status? id = some status := by
  rw [status?_record, if_pos rfl, h, Option.map_some]

theorem status?_enroll (q : CommandQueue κ ρ ω) (name : String) (id : CommandId) :
    (q.enroll name).1.status? id =
      if id = q.records.length then some .queued else q.status? id := by
  unfold status? enroll
  rcases Nat.lt_trichotomy id q.records.length with h | h | h
  · rw [if_neg (Nat.ne_of_lt h), List.getElem?_append_left h]
  · rw [if_pos h, h, List.getElem?_concat_length]
    rfl
  · rw [if_neg (Nat.ne_of_gt h), List.getElem?_eq_none (Nat.le_of_lt h),
      List.getElem?_eq_none (by simpa using Nat.succ_le_of_lt h)]

theorem status?_enroll_of_some {name : String} {id : CommandId} {status : CommandStatus}
    (h : q.status? id = some status) : (q.enroll name).1.status? id = some status := by
  rw [status?_enroll, if_neg, h]
  rintro rfl
  simp [status?] at h

end CommandQueue

/-! ## The order of commands -/

section Starting

variable {κ ρ : Type}

theorem Job.starting_eq_nil {job : Job κ ρ} (h : job.phase ≠ .taken) : job.starting = [] := by
  unfold Job.starting
  split
  next htaken => exact absurd htaken h
  next => rfl

theorem Worker.starting_of_not_busy {worker : Worker κ ρ} (h : ∀ job, worker ≠ .busy job) :
    worker.starting = [] := by
  cases worker with
  | busy job => exact absurd rfl (h job)
  | seeking => rfl
  | between => rfl
  | parked => rfl
  | exited => rfl

theorem Phase.ne_taken_of_running {phase : Phase ρ} (h : phase.status = .running) :
    phase ≠ .taken := by
  rintro rfl
  cases h

end Starting

namespace CommandQueue

variable {κ ρ ω : Type} {q q' : CommandQueue κ ρ ω}

theorem awaited_atPhase (q : CommandQueue κ ρ ω) (job : Job κ ρ) (phase : Phase ρ) :
    (q.atPhase job phase).awaited = { job with phase }.starting ++ q.waiting := rfl

theorem awaited_of_busy {job : Job κ ρ} (h : q.worker = .busy job) :
    q.awaited = job.starting ++ q.waiting := by
  unfold awaited
  rw [h]
  rfl

theorem Advances.records_length (h : Advances q q') : q'.records.length = q.records.length := by
  cases h with
  | starts => exact List.length_modify _ _ _
  | records => exact List.length_modify _ _ _
  | takes => rfl
  | parks => rfl
  | goesOn => rfl
  | releases => rfl
  | rests => rfl

/-- What the worker starts is what was awaited first. -/
theorem Advances.awaited (h : Advances q q') : q.worker.starting ++ q'.awaited = q.awaited := by
  have hother {job : Job κ ρ} {q' : CommandQueue κ ρ ω} (hworker : q.worker = .busy job)
      (hphase : job.phase ≠ .taken) (h : q'.awaited = q.waiting) :
      q.worker.starting ++ q'.awaited = q.awaited := by
    rw [h, CommandQueue.awaited, hworker, Worker.starting, Job.starting_eq_nil hphase]
  cases h with
  | takes hworker hpending =>
      simp [CommandQueue.awaited, waiting, hworker, hpending, Worker.starting, Job.starting]
  | parks hworker hpending =>
      simp [CommandQueue.awaited, waiting, hworker, hpending, Worker.starting]
  | @starts job hworker hphase run =>
      rw [awaited_atPhase, Job.starting_eq_nil (by simp), awaited_of_busy hworker, hworker]
      rfl
  | goesOn world hworker hbefore hafter hsettled =>
      refine hother hworker (Phase.ne_taken_of_running hbefore) ?_
      rw [awaited_atPhase, Job.starting_eq_nil (Phase.ne_taken_of_running hafter)]
      rfl
  | records hworker hphase =>
      refine hother hworker (by simp [hphase]) ?_
      rw [awaited_atPhase, Job.starting_eq_nil (by simp)]
      rfl
  | releases hworker hphase =>
      exact hother hworker (by simp [hphase]) rfl
  | rests hbefore hafter =>
      simp [CommandQueue.awaited, waiting, Worker.starting_of_not_busy hbefore,
        Worker.starting_of_not_busy hafter]

/-- A command that the worker holds was held before, or has just been taken. -/
theorem Advances.held (h : Advances q q') {job' : Job κ ρ} (hjob' : q'.worker = .busy job') :
    job'.id ∈ q'.worker.starting ∨ ∃ job, q.worker = .busy job ∧ job.id = job'.id := by
  cases h with
  | takes =>
      cases hjob'
      exact .inl (List.mem_singleton.mpr rfl)
  | starts hworker =>
      cases hjob'
      exact .inr ⟨_, hworker, rfl⟩
  | goesOn _ hworker =>
      cases hjob'
      exact .inr ⟨_, hworker, rfl⟩
  | records hworker =>
      cases hjob'
      exact .inr ⟨_, hworker, rfl⟩
  | parks => cases hjob'
  | releases => cases hjob'
  | rests _ hafter => exact absurd hjob' (hafter job')

end CommandQueue

namespace Scene

variable {κ ρ ω : Type} {b : Behaviour κ ρ ω} {s s' : Scene κ ρ ω}

structure InOrder (s : Scene κ ρ ω) : Prop where
  numbered : ∀ id ∈ s.pushed ++ s.enrolled.map (·.1), id < s.queue.records.length
  distinct : (s.pushed ++ s.enrolled.map (·.1)).Nodup
  ordered : (s.started ++ s.queue.awaited).Sublist s.pushed
  held : ∀ job, s.queue.worker = .busy job → job.id ∈ s.started ++ s.queue.worker.starting

theorem InOrder.of_same (h : s.InOrder)
    (hrecords : s'.queue.records.length = s.queue.records.length)
    (henrolled : s'.enrolled = s.enrolled) (hpushed : s'.pushed = s.pushed)
    (hordered : (s'.started ++ s'.queue.awaited).Sublist (s.started ++ s.queue.awaited))
    (hheld : ∀ job, s'.queue.worker = .busy job →
      job.id ∈ s'.started ++ s'.queue.worker.starting) : s'.InOrder where
  numbered := by
    rw [hrecords, henrolled, hpushed]
    exact h.numbered
  distinct := by
    rw [henrolled, hpushed]
    exact h.distinct
  ordered := by
    rw [hpushed]
    exact hordered.trans h.ordered
  held := hheld

theorem InOrder.waiting_subset (h : s.InOrder) : s.queue.waiting ⊆ s.pushed := fun _ hid =>
  h.ordered.subset (List.mem_append_right _ (List.mem_append_right _ hid))

/-- A waiting command is neither enrolled still nor held by the worker. -/
theorem InOrder.not_enrolled (h : s.InOrder) {id : CommandId} (hid : id ∈ s.pushed) :
    id ∉ s.enrolled.map (·.1) := fun henrolled =>
  (List.nodup_append.mp h.distinct).2.2 id hid id henrolled rfl

theorem InOrder.held_pushed (h : s.InOrder) {job : Job κ ρ} (hjob : s.queue.worker = .busy job) :
    job.id ∈ s.pushed := by
  refine h.ordered.subset ?_
  rw [CommandQueue.awaited, ← List.append_assoc]
  exact List.mem_append_left _ (h.held job hjob)

theorem InOrder.not_waiting (h : s.InOrder) {job : Job κ ρ} (hjob : s.queue.worker = .busy job) :
    job.id ∉ s.queue.waiting := by
  have hdistinct : (s.started ++ s.queue.worker.starting ++ s.queue.waiting).Nodup := by
    rw [List.append_assoc]
    exact (List.nodup_append.mp h.distinct).1.sublist h.ordered
  exact fun hwaiting => (List.nodup_append.mp hdistinct).2.2 _ (h.held job hjob) _ hwaiting rfl

theorem InOrder.waiting_nodup (h : s.InOrder) : s.queue.waiting.Nodup :=
  (List.nodup_append.mp h.distinct).1.sublist
    (((List.sublist_append_right _ _).trans (List.sublist_append_right _ _)).trans h.ordered)

theorem inOrder_start (world : ω) : (start world : Scene κ ρ ω).InOrder where
  numbered := by simp [start]
  distinct := by simp [start]
  ordered := .refl _
  held := by simp [start, CommandQueue.empty]

private theorem inOrder_enrolls (h : s.InOrder) (name : String) (command : κ) :
    InOrder { s with
      queue := (s.queue.enroll name).1
      enrolled := s.enrolled ++ [(s.queue.records.length, command)] } where
  numbered := by
    intro id hid
    simp only [CommandQueue.enroll, List.map_append, List.map_cons, List.map_nil,
      ← List.append_assoc, List.mem_append, List.mem_singleton, List.length_append] at hid ⊢
    rcases hid with hid | rfl
    · exact Nat.lt_succ_of_lt (h.numbered id (List.mem_append.mpr hid))
    · exact Nat.lt_succ_self _
  distinct := by
    simp only [List.map_append, List.map_cons, List.map_nil, ← List.append_assoc]
    refine List.nodup_append.mpr ⟨h.distinct, by simp, ?_⟩
    intro id hid new hnew
    rw [List.mem_singleton.mp hnew]
    exact Nat.ne_of_lt (h.numbered id hid)
  ordered := h.ordered
  held := h.held

private theorem inOrder_pushes (h : s.InOrder) {place : Nat} {id : CommandId} {command : κ}
    (hplace : s.enrolled[place]? = some (id, command)) :
    InOrder { s with
      queue := s.queue.push id command
      enrolled := s.enrolled.eraseIdx place
      untold := s.untold + 1
      pushed := s.pushed ++ [id] } := by
  have hperm : (s.pushed ++ [id] ++ (s.enrolled.eraseIdx place).map (·.1)).Perm
      (s.pushed ++ s.enrolled.map (·.1)) := by
    obtain ⟨hlt, hget⟩ := List.getElem?_eq_some_iff.mp hplace
    have hfirst := (List.getElem_cons_eraseIdx_perm hlt).map (·.1)
    rw [hget] at hfirst
    rw [List.append_assoc]
    exact hfirst.append_left s.pushed
  have hawaited : (s.queue.push id command).awaited = s.queue.awaited ++ [id] := by
    simp [CommandQueue.awaited, CommandQueue.waiting, CommandQueue.push]
  refine ⟨fun other hother => h.numbered other (hperm.mem_iff.mp hother),
    hperm.nodup_iff.mpr h.distinct, ?_, h.held⟩
  simp only [hawaited, ← List.append_assoc]
  exact h.ordered.append (.refl [id])

theorem InOrder.acts (h : s.InOrder) (hacts : Acts b s s') : s'.InOrder := by
  cases hacts with
  | stays => exact h
  | enrolls command => exact inOrder_enrolls h _ command
  | pushes _ hplace => exact inOrder_pushes h hplace
  | @drops id command pending _ hpending =>
      refine h.of_same (List.length_modify _ _ _) rfl rfl ?_ h.held
      refine .append_left (.append_left ?_ _) _
      rw [CommandQueue.waiting, CommandQueue.waiting, hpending]
      exact List.sublist_cons_self _ _
  | @asks job _ _ hworker command world =>
      have hstarting : s.queue.worker.starting = job.starting := by rw [hworker]; rfl
      have hheld := h.held job hworker
      rw [hstarting] at hheld
      refine h.of_same rfl rfl rfl ?_ ?_
      · rw [CommandQueue.awaited_of_busy hworker]
        exact .refl _
      · intro job' hjob'
        cases hjob'
        exact hheld
  | idles => exact h.of_same rfl rfl rfl (.refl _) h.held
  | @works queue _ hstep =>
      have hkept : s.started ++ s.queue.worker.starting ++ queue.awaited =
          s.started ++ s.queue.awaited := by
        rw [List.append_assoc, hstep.awaited]
      refine h.of_same hstep.records_length rfl rfl (by rw [hkept]) ?_
      intro job' hjob'
      rcases hstep.held hjob' with hnew | ⟨job, hjob, hid⟩
      · exact List.mem_append_right _ hnew
      · rw [← hid]
        exact List.mem_append_left _ (h.held job hjob)
  | aside => exact h.of_same rfl rfl rfl (.refl _) h.held

/-! ## The statuses of commands -/

/-- Every command has the status that goes with the place where it is. -/
structure Tracked (s : Scene κ ρ ω) : Prop where
  queued : ∀ id, id ∈ s.enrolled.map (·.1) ∨ id ∈ s.queue.waiting →
    s.queue.status? id = some .queued
  held : ∀ job, s.queue.worker = .busy job →
    s.queue.status? job.id = some job.phase.status ∧ job.phase.Settled
  pushed : ∀ id ∈ s.pushed, id ∈ s.queue.waiting ∨
    (∃ job, s.queue.worker = .busy job ∧ job.id = id) ∨
    ∃ status, s.queue.status? id = some status ∧ status.isFinished = true

theorem tracked_start (world : ω) : (start world : Scene κ ρ ω).Tracked where
  queued := by simp [start, CommandQueue.waiting, CommandQueue.empty]
  held := by simp [start, CommandQueue.empty]
  pushed := by simp [start]

theorem Tracked.of_same (h : s.Tracked) (hstatus : s'.queue.status? = s.queue.status?)
    (henrolled : s'.enrolled = s.enrolled) (hwaiting : s'.queue.waiting = s.queue.waiting)
    (hworker : s'.queue.worker = s.queue.worker) (hpushed : s'.pushed = s.pushed) :
    s'.Tracked where
  queued := by
    rw [hstatus, henrolled, hwaiting]
    exact h.queued
  held := by
    rw [hstatus, hworker]
    exact h.held
  pushed := by
    rw [hstatus, hwaiting, hworker, hpushed]
    exact h.pushed

/-- The worker holds the same command as before, and its record stays. -/
theorem Tracked.of_same_job (h : s.Tracked) {job job' : Job κ ρ}
    (hworker : s.queue.worker = .busy job) (hworker' : s'.queue.worker = .busy job')
    (hid : job'.id = job.id) (hphase : job'.phase.status = job.phase.status)
    (hsettled : job.phase.Settled → job'.phase.Settled)
    (hstatus : s'.queue.status? = s.queue.status?) (henrolled : s'.enrolled = s.enrolled)
    (hwaiting : s'.queue.waiting = s.queue.waiting) (hpushed : s'.pushed = s.pushed) :
    s'.Tracked where
  queued := by
    rw [hstatus, henrolled, hwaiting]
    exact h.queued
  held := by
    intro held hheld
    rw [hworker'] at hheld
    cases hheld
    rw [hstatus, hid, hphase]
    exact ⟨(h.held job hworker).1, hsettled (h.held job hworker).2⟩
  pushed := by
    intro id hpast
    rw [hpushed] at hpast
    rw [hstatus, hwaiting]
    rcases h.pushed id hpast with hin | ⟨held, hheld, rfl⟩ | hfinished
    · exact .inl hin
    · rw [hworker] at hheld
      cases hheld
      exact .inr (.inl ⟨job', hworker', hid⟩)
    · exact .inr (.inr hfinished)

/-- The worker holds no command any longer, and a command that it held is finished. -/
theorem Tracked.of_no_job (h : s.Tracked) (hworker' : ∀ job, s'.queue.worker ≠ .busy job)
    (hdone : ∀ job, s.queue.worker = .busy job →
      ∃ status, s.queue.status? job.id = some status ∧ status.isFinished = true)
    (hstatus : s'.queue.status? = s.queue.status?) (henrolled : s'.enrolled = s.enrolled)
    (hwaiting : s'.queue.waiting = s.queue.waiting) (hpushed : s'.pushed = s.pushed) :
    s'.Tracked where
  queued := by
    rw [hstatus, henrolled, hwaiting]
    exact h.queued
  held := fun job hjob => absurd hjob (hworker' job)
  pushed := by
    intro id hpast
    rw [hpushed] at hpast
    rw [hstatus, hwaiting]
    rcases h.pushed id hpast with hin | ⟨job, hjob, rfl⟩ | hfinished
    · exact .inl hin
    · exact .inr (.inr (hdone job hjob))
    · exact .inr (.inr hfinished)

private theorem tracked_enrolls (h : s.Tracked) (name : String) (command : κ) :
    Tracked { s with
      queue := (s.queue.enroll name).1
      enrolled := s.enrolled ++ [(s.queue.records.length, command)] } where
  queued := by
    rintro id (hid | hid)
    · simp only [List.map_append, List.map_cons, List.map_nil, List.mem_append,
        List.mem_singleton] at hid
      rcases hid with hid | rfl
      · exact CommandQueue.status?_enroll_of_some (h.queued id (.inl hid))
      · rw [CommandQueue.status?_enroll, if_pos rfl]
    · exact CommandQueue.status?_enroll_of_some (h.queued id (.inr hid))
  held := fun job hjob =>
    ⟨CommandQueue.status?_enroll_of_some (h.held job hjob).1, (h.held job hjob).2⟩
  pushed := by
    intro id hid
    rcases h.pushed id hid with hwaiting | hheld | ⟨status, hstatus, hfinished⟩
    · exact .inl hwaiting
    · exact .inr (.inl hheld)
    · exact .inr (.inr ⟨status, CommandQueue.status?_enroll_of_some hstatus, hfinished⟩)

private theorem tracked_pushes (h : s.Tracked) {place : Nat} {id : CommandId} {command : κ}
    (hplace : s.enrolled[place]? = some (id, command)) :
    Tracked { s with
      queue := s.queue.push id command
      enrolled := s.enrolled.eraseIdx place
      untold := s.untold + 1
      pushed := s.pushed ++ [id] } := by
  have hwaiting : (s.queue.push id command).waiting = s.queue.waiting ++ [id] := by
    simp [CommandQueue.waiting, CommandQueue.push]
  have hid : id ∈ s.enrolled.map (·.1) :=
    List.mem_map_of_mem (f := (·.1)) (List.mem_of_getElem? hplace)
  refine ⟨?_, h.held, ?_⟩
  · rintro other (hother | hother)
    · refine h.queued other (.inl ?_)
      exact (List.Sublist.map (·.1) (List.eraseIdx_sublist s.enrolled place)).subset hother
    · rw [hwaiting, List.mem_append, List.mem_singleton] at hother
      rcases hother with hother | rfl
      · exact h.queued other (.inr hother)
      · exact h.queued other (.inl hid)
  · intro other hother
    rw [List.mem_append, List.mem_singleton] at hother
    rw [hwaiting, List.mem_append, List.mem_singleton]
    rcases hother with hother | rfl
    · rcases h.pushed other hother with hwaiting | hrest
      · exact .inl (.inl hwaiting)
      · exact .inr hrest
    · exact .inl (.inr rfl)

private theorem tracked_drops (hinOrder : s.InOrder) (h : s.Tracked) {id : CommandId}
    {command : κ} {pending : List (CommandId × κ)}
    (hpending : s.queue.pending = (id, command) :: pending) :
    Tracked { s with queue := { s.queue.record id .aborted with pending } } := by
  have hwaiting : s.queue.waiting = id :: pending.map (·.1) := by
    rw [CommandQueue.waiting, hpending, List.map_cons]
  have hfirst : id ∈ s.queue.waiting := by
    rw [hwaiting]
    exact List.mem_cons_self
  have hdropped := CommandQueue.status?_record_of_some (h.queued id (.inr hfirst)) .aborted
  have hkept {other : CommandId} (hne : other ≠ id) :=
    CommandQueue.status?_record_of_ne (q := s.queue) hne .aborted
  refine ⟨?_, ?_, ?_⟩
  · rintro other (hother | hother)
    · refine (hkept ?_).trans (h.queued other (.inl hother))
      rintro rfl
      exact hinOrder.not_enrolled (hinOrder.waiting_subset hfirst) hother
    · refine (hkept ?_).trans (h.queued other (.inr ?_))
      · rintro rfl
        have hnodup := hinOrder.waiting_nodup
        rw [hwaiting] at hnodup
        exact (List.nodup_cons.mp hnodup).1 hother
      · rw [hwaiting]
        exact List.mem_cons_of_mem id hother
  · intro job hjob
    refine ⟨(hkept ?_).trans (h.held job hjob).1, (h.held job hjob).2⟩
    rintro rfl
    exact hinOrder.not_waiting hjob hfirst
  · intro other hother
    by_cases hne : other = id
    · subst hne
      exact .inr (.inr ⟨.aborted, hdropped, rfl⟩)
    · rcases h.pushed other hother with hin | hheld | ⟨status, hstatus, hfinished⟩
      · rw [hwaiting] at hin
        exact .inl ((List.mem_cons.mp hin).resolve_left hne)
      · exact .inr (.inl hheld)
      · exact .inr (.inr ⟨status, (hkept hne).trans hstatus, hfinished⟩)

/-- The worker has changed the record of the command that it holds. -/
private theorem tracked_records (hinOrder : s.InOrder) (h : s.Tracked) {job : Job κ ρ}
    (hworker : s.queue.worker = .busy job) {status : CommandStatus} (phase : Phase ρ)
    (hphase : phase.status = status) (hsettled : phase.Settled) (started : List CommandId) :
    Tracked { s with queue := (s.queue.record job.id status).atPhase job phase, started } := by
  have hnew : ((s.queue.record job.id status).atPhase job phase).status? job.id = some status :=
    CommandQueue.status?_record_of_some (h.held job hworker).1 status
  have hkept {other : CommandId} (hne : other ≠ job.id) :
      ((s.queue.record job.id status).atPhase job phase).status? other = s.queue.status? other :=
    CommandQueue.status?_record_of_ne hne status
  refine ⟨?_, ?_, ?_⟩
  · intro other hother
    refine (hkept ?_).trans (h.queued other hother)
    rintro rfl
    rcases hother with henrolled | hwaiting
    · exact hinOrder.not_enrolled (hinOrder.held_pushed hworker) henrolled
    · exact hinOrder.not_waiting hworker hwaiting
  · intro job' hjob'
    cases hjob'
    exact ⟨hnew.trans (congrArg some hphase.symm), hsettled⟩
  · intro other hother
    by_cases hne : other = job.id
    · exact .inr (.inl ⟨_, rfl, hne.symm⟩)
    · rcases h.pushed other hother with hin | ⟨job', hjob', hid⟩ | ⟨status', hstatus', hfinished⟩
      · exact .inl hin
      · rw [hworker] at hjob'
        cases hjob'
        exact absurd hid.symm hne
      · exact .inr (.inr ⟨status', (hkept hne).trans hstatus', hfinished⟩)

private theorem tracked_works (hinOrder : s.InOrder) (h : s.Tracked)
    {queue : CommandQueue κ ρ ω} (hstep : s.queue.Advances queue) (started : List CommandId) :
    Tracked { s with queue, started } := by
  cases hstep with
  | @takes id command pending hworker hpending =>
      have hwaiting : s.queue.waiting = id :: pending.map (·.1) := by
        rw [CommandQueue.waiting, hpending, List.map_cons]
      refine ⟨?_, ?_, ?_⟩
      · intro other hother
        refine h.queued other (hother.imp_right fun hin => ?_)
        rw [hwaiting]
        exact List.mem_cons_of_mem id hin
      · intro job hjob
        cases hjob
        refine ⟨h.queued id (.inr ?_), True.intro⟩
        rw [hwaiting]
        exact List.mem_cons_self
      · intro other hother
        rcases h.pushed other hother with hin | ⟨job, hjob, hid⟩ | hfinished
        · rw [hwaiting] at hin
          rcases List.mem_cons.mp hin with rfl | hin
          · exact .inr (.inl ⟨_, rfl, rfl⟩)
          · exact .inl hin
        · rw [hworker] at hjob
          cases hjob
        · exact .inr (.inr hfinished)
  | parks hworker hpending =>
      exact h.of_no_job (by simp) (by simp [hworker]) rfl rfl rfl rfl
  | starts hworker hphase run =>
      exact tracked_records hinOrder h hworker (.started run) rfl True.intro started
  | goesOn world hworker hbefore hafter hsettled =>
      exact h.of_same_job hworker rfl rfl (hafter.trans hbefore.symm) hsettled rfl rfl rfl rfl
  | @records job status result hworker hphase =>
      have hfinished : (Phase.reported (ρ := ρ) status result).Settled := by
        rw [← hphase]
        exact (h.held job hworker).2
      exact tracked_records hinOrder h hworker (.recorded status result) rfl hfinished
        started
  | @releases job status result hworker hphase =>
      refine h.of_no_job (by simp [CommandQueue.release]) ?_ rfl rfl rfl rfl
      intro job' hjob'
      rw [hworker] at hjob'
      cases hjob'
      obtain ⟨hstatus, hsettled⟩ := h.held job hworker
      rw [hphase] at hstatus hsettled
      exact ⟨status, hstatus, hsettled⟩
  | rests hbefore hafter =>
      exact h.of_no_job hafter (fun job hjob => absurd hjob (hbefore job)) rfl rfl rfl rfl

theorem Tracked.acts (hinOrder : s.InOrder) (h : s.Tracked) (hacts : Acts b s s') :
    s'.Tracked := by
  cases hacts with
  | stays => exact h
  | enrolls command => exact tracked_enrolls h _ command
  | pushes _ hplace => exact tracked_pushes h hplace
  | drops _ hpending => exact tracked_drops hinOrder h hpending
  | asks _ _ hworker command world => exact h.of_same_job hworker rfl rfl rfl id rfl rfl rfl rfl
  | idles => exact h.of_same rfl rfl rfl rfl rfl
  | works _ hstep => exact tracked_works hinOrder h hstep _
  | aside => exact h.of_same rfl rfl rfl rfl rfl

/-! ## Runs -/

theorem run_inOrder_tracked (b : Behaviour κ ρ ω) (world : ω) (turns : List (Turn κ ω)) :
    ((start world).run b turns).InOrder ∧ ((start world).run b turns).Tracked :=
  run_induction (P := fun s => s.InOrder ∧ s.Tracked)
    (fun s turn h => ⟨h.1.acts (acts_after b s turn), h.2.acts h.1 (acts_after b s turn)⟩)
    ⟨inOrder_start world, tracked_start world⟩ turns

theorem Tracked.moves (h : s.Tracked) (hacts : Acts b s s') (id : CommandId) :
    Moves (s.queue.status? id) (s'.queue.status? id) := by
  have hrecord {q : CommandQueue κ ρ ω} {changed : CommandId} {status next : CommandStatus}
      (hstatus : q.status? changed = some status) (hnext : Next status next) :
      Moves (q.status? id) ((q.record changed next).status? id) := by
    by_cases hid : id = changed
    · rw [hid, CommandQueue.status?_record_of_some hstatus, hstatus]
      exact .goesOn hnext
    · rw [CommandQueue.status?_record_of_ne hid]
      exact .stays _
  cases hacts with
  | enrolls command =>
      rw [CommandQueue.status?_enroll]
      split
      next hid =>
        rw [hid, CommandQueue.status?, List.getElem?_eq_none (Nat.le_refl _)]
        exact .enrolled
      next => exact .stays _
  | drops _ hpending =>
      refine hrecord (h.queued _ (.inr ?_)) .dropped
      rw [CommandQueue.waiting, hpending]
      exact List.mem_cons_self
  | works _ hstep =>
      cases hstep with
      | starts hworker hphase run =>
          obtain ⟨hstatus, _⟩ := h.held _ hworker
          rw [hphase] at hstatus
          exact hrecord hstatus .starts
      | records hworker hphase =>
          obtain ⟨hstatus, hsettled⟩ := h.held _ hworker
          rw [hphase] at hstatus hsettled
          exact hrecord hstatus (.ends hsettled)
      | takes => exact .stays _
      | parks => exact .stays _
      | goesOn => exact .stays _
      | releases => exact .stays _
      | rests => exact .stays _
  | stays => exact .stays _
  | pushes => exact .stays _
  | asks => exact .stays _
  | idles => exact .stays _
  | aside => exact .stays _

theorem finished_run {id : CommandId} {status : CommandStatus}
    (hfinished : status.isFinished = true) (hinOrder : s.InOrder) (htracked : s.Tracked)
    (hstatus : s.queue.status? id = some status) (later : List (Turn κ ω)) :
    (s.run b later).queue.status? id = some status := by
  refine (run_induction (b := b)
    (P := fun s => s.InOrder ∧ s.Tracked ∧ s.queue.status? id = some status) ?_
    ⟨hinOrder, htracked, hstatus⟩ later).2.2
  intro s turn ⟨hinOrder, htracked, hstatus⟩
  have hacts := acts_after b s turn
  have hmoves := htracked.moves hacts id
  rw [hstatus] at hmoves
  exact ⟨hinOrder.acts hacts, htracked.acts hinOrder hacts, hmoves.finished hfinished⟩

/--
However adding, stopping, looking on and the steps of the worker are mixed,
commands start in the order in which they have been pushed and each at most
once; a status goes on only as `Next` says, and a finished one stays.
-/
theorem commands_in_order (b : Behaviour κ ρ ω) (world : ω) (turns : List (Turn κ ω)) :
    let s := (start world).run b turns
    s.started.Sublist s.pushed ∧ s.pushed.Nodup ∧ s.started.Nodup ∧
      (∀ turn id, Moves (s.queue.status? id) ((s.after b turn).queue.status? id)) ∧
      ∀ id status, s.queue.status? id = some status → status.isFinished = true →
        ∀ later, (s.run b later).queue.status? id = some status := by
  intro s
  obtain ⟨hinOrder, htracked⟩ := run_inOrder_tracked b world turns
  have hstarted : s.started.Sublist s.pushed :=
    (List.sublist_append_left _ _).trans hinOrder.ordered
  have hpushed : s.pushed.Nodup := (List.nodup_append.mp hinOrder.distinct).1
  refine ⟨hstarted, hpushed, hpushed.sublist hstarted, ?_, ?_⟩
  · intro turn id
    exact htracked.moves (acts_after b s turn) id
  · intro id status hstatus hfinished later
    exact finished_run hfinished hinOrder htracked hstatus later

/-! The second of two callers pushes first, and then everything is stopped. -/

example :
    let b : Behaviour Unit Unit Unit :=
      ⟨fun _ => "", id, fun _ _ _ _ => .waiting, fun command world => (command, world),
        fun _ world => world⟩
    let s := (start ()).run b [.enroll (), .enroll (), .push 1, .push 0, .work, .work, .beginStop,
      .dropFirst, .endStop]
    s.pushed = [1, 0] ∧ s.started = [1] ∧ s.queue.status? 1 = some .running ∧
      s.queue.status? 0 = some .aborted := by decide

end Scene

end StackQuery
