import StackQuery.Proofs.CommandQueue.Lifecycle

/-!
# When a queue is idle

The idle flag is raised by the worker when it finds nothing to take or lets the
last command go, and by a stop while no command runs; it is lowered by a push.
While a stop drops what waits, the flag may still be down although nothing is
left, so it says exactly whether anything is left only once the lock is free.
That nothing is left when it is up holds all the time, and those who wait for
the flag look at it without the lock.
-/

namespace StackQuery

namespace CommandQueue

variable {κ ρ ω : Type} {q : CommandQueue κ ρ ω}

theorem running?_of_busy {job : Job κ ρ} (h : q.worker = .busy job) : q.running? = some job := by
  unfold running?
  rw [h]

theorem running?_eq_none (h : ∀ job, q.worker ≠ .busy job) : q.running? = none := by
  unfold running?
  split
  next job hjob => exact absurd hjob (h job)
  next => rfl

end CommandQueue

namespace Scene

variable {κ ρ ω : Type} {b : Behaviour κ ρ ω} {s s' : Scene κ ρ ω}

structure Flagged (s : Scene κ ρ ω) : Prop where
  nothing_left : s.queue.idle = true → s.queue.pending = [] ∧ s.queue.running? = none
  raised : s.stopping = false → s.queue.pending = [] → s.queue.running? = none →
    s.queue.idle = true

theorem flagged_start (world : ω) : (start world : Scene κ ρ ω).Flagged where
  nothing_left _ := ⟨rfl, rfl⟩
  raised _ _ _ := rfl

/-- While the worker holds a command the flag is down. -/
theorem Flagged.not_idle (h : s.Flagged) {job : Job κ ρ} (hjob : s.queue.worker = .busy job) :
    s.queue.idle ≠ true := by
  intro hidle
  have hnone := (h.nothing_left hidle).2
  rw [CommandQueue.running?_of_busy hjob] at hnone
  cases hnone

/-- The worker goes on with the command that it holds, and the flag stays down. -/
theorem Flagged.of_busy (h : s.Flagged) {job job' : Job κ ρ}
    (hjob : s.queue.worker = .busy job) (hjob' : s'.queue.worker = .busy job')
    (hidle : s'.queue.idle = s.queue.idle) : s'.Flagged where
  nothing_left hraised := absurd (hidle.symm.trans hraised) (h.not_idle hjob)
  raised _ _ hnone := by
    rw [CommandQueue.running?_of_busy hjob'] at hnone
    cases hnone

private theorem flagged_works (h : s.Flagged) {queue : CommandQueue κ ρ ω}
    (hstep : s.queue.Advances queue) (started : List CommandId) :
    Flagged { s with queue, started } := by
  cases hstep with
  | takes hworker hpending =>
      refine ⟨fun hidle => ?_, fun _ _ hnone => ?_⟩
      · have hnothing := (h.nothing_left hidle).1
        rw [hpending] at hnothing
        cases hnothing
      · cases hnone
  | parks hworker hpending => exact ⟨fun _ => ⟨hpending, rfl⟩, fun _ _ _ => rfl⟩
  | starts hworker => exact h.of_busy hworker rfl rfl
  | goesOn _ hworker => exact h.of_busy hworker rfl rfl
  | records hworker => exact h.of_busy hworker rfl rfl
  | releases hworker hphase =>
      refine ⟨fun hidle => ?_, fun _ hpending _ => ?_⟩
      · simp only [CommandQueue.release, Bool.or_eq_true, List.isEmpty_iff] at hidle ⊢
        exact ⟨hidle.resolve_left (h.not_idle hworker), rfl⟩
      · simp only [CommandQueue.release, Bool.or_eq_true, List.isEmpty_iff] at hpending ⊢
        exact .inr hpending
  | rests hbefore hafter =>
      have hnone := CommandQueue.running?_eq_none hbefore
      refine ⟨fun hidle => ⟨(h.nothing_left hidle).1, CommandQueue.running?_eq_none hafter⟩, ?_⟩
      exact fun hfree hpending _ => h.raised hfree hpending hnone

theorem Flagged.acts (h : s.Flagged) (hacts : Acts b s s') : s'.Flagged := by
  cases hacts with
  | stays => exact h
  | enrolls command => exact ⟨h.nothing_left, h.raised⟩
  | pushes hfree hplace =>
      refine ⟨fun hidle => ?_, fun _ hpending _ => ?_⟩
      · cases hidle
      · simp [CommandQueue.push] at hpending
  | drops hlocked hpending =>
      refine ⟨fun hidle => ?_, fun hfree => ?_⟩
      · have hnothing := (h.nothing_left hidle).1
        rw [hpending] at hnothing
        cases hnothing
      · exact absurd (hlocked.symm.trans hfree) (by simp)
  | asks hlocked hpending hworker command world => exact h.of_busy hworker rfl rfl
  | idles hlocked hpending hworker =>
      exact ⟨fun _ => ⟨hpending, CommandQueue.running?_eq_none hworker⟩, fun _ _ _ => rfl⟩
  | works hlock hstep => exact flagged_works h hstep _
  | @aside untold stopping notice firstFailure exitSign world hlock =>
      refine ⟨h.nothing_left, fun hfree => h.raised ?_⟩
      cases hlocked : s.stopping with
      | false => rfl
      | true => exact absurd ((hlock hlocked).symm.trans hfree) (by simp)

theorem run_flagged (b : Behaviour κ ρ ω) (world : ω) (turns : List (Turn κ ω)) :
    ((start world).run b turns).Flagged :=
  run_induction (fun s turn h => h.acts (acts_after b s turn)) (flagged_start world) turns

/--
Whatever turns have been taken, the flag is up exactly if nothing waits and
nothing runs, as long as no stop has the lock; and whoever sees it up, lock or
no lock, sees it after every command that has been pushed is finished.
-/
theorem idle_iff_nothing_left (b : Behaviour κ ρ ω) (world : ω) (turns : List (Turn κ ω)) :
    let s := (start world).run b turns
    (s.stopping = false →
      (s.queue.idle = true ↔ s.queue.pending = [] ∧ s.queue.running? = none)) ∧
    (s.queue.idle = true → ∀ id ∈ s.pushed,
      ∃ status, s.queue.status? id = some status ∧ status.isFinished = true) := by
  intro s
  have hflagged := run_flagged b world turns
  constructor
  · intro hfree
    exact ⟨hflagged.nothing_left, fun hnothing => hflagged.raised hfree hnothing.1 hnothing.2⟩
  · intro hidle id hid
    obtain ⟨hpending, hnone⟩ := hflagged.nothing_left hidle
    have htracked := (run_inOrder_tracked b world turns).2
    rcases htracked.pushed id hid with hwaiting | ⟨job, hjob, _⟩ | hfinished
    · rw [CommandQueue.waiting, hpending] at hwaiting
      cases hwaiting
    · exact absurd hidle (hflagged.not_idle hjob)
    · exact hfinished

end Scene

end StackQuery
