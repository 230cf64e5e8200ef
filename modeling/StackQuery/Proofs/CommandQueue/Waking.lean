import StackQuery.Proofs.CommandQueue.History

/-!
# Waking the worker

The worker parks when it finds nothing to take, and looks again only when it
is told.  It is told of a command after the command has been pushed, and
without the lock, so that a push may fall between the look at the queue and the
wait.  A notice that comes too early is kept for the wait.
-/

namespace StackQuery

namespace CommandQueue

variable {κ ρ ω : Type} {b : Behaviour κ ρ ω} {q q' : CommandQueue κ ρ ω}

theorem Steps.pending_of_parked (h : Steps b q q') (hparked : q'.worker = .parked) :
    q'.pending = [] := by
  cases h with
  | parks _ hpending => exact hpending
  | proceeds _ hproceeds => cases hproceeds <;> cases hparked
  | takes | seeks | exits => cases hparked

/-- A worker that cannot go on waits for its command, is parked without a sign, or has exited. -/
theorem advance?_eq_none (h : q.advance? b = none) :
    (∃ job run, q.worker = .busy job ∧ job.phase = .started run ∧
      b.step job.id job.command run q.world = .waiting) ∨
    (q.worker = .parked ∧ q.notice = false ∧ q.exitSign = .unset) ∨ q.worker = .exited := by
  cases hworker : q.worker with
  | seeking => simp [advance?, hworker] at h
  | busy job =>
      rw [advance?_of_busy hworker] at h
      cases hphase : job.phase with
      | started run =>
          refine .inl ⟨job, run, rfl, hphase, ?_⟩
          cases hstep : b.step job.id job.command run q.world with
          | waiting => rfl
          | working next world => simp [advanceJob?, hphase, hstep] at h
          | returned result world => simp [advanceJob?, hphase, hstep] at h
      | taken | returned | judged | reported | recorded => simp [advanceJob?, hphase] at h
  | between =>
      simp only [advance?, hworker] at h
      split at h <;> cases h
  | parked =>
      simp only [advance?, hworker] at h
      split at h
      next => cases h
      next hsign =>
        split at h
        next => cases h
        next hnotice =>
          refine .inr (.inl ⟨rfl, ?_, ?_⟩)
          · simpa using hnotice
          · simpa using hsign
  | exited => exact .inr (.inr rfl)

end CommandQueue

namespace Scene

variable {κ ρ ω : Type} {b : Behaviour κ ρ ω} {s s' : Scene κ ρ ω}

/-- Whoever is parked has nothing to do, has been told, or is yet to be told. -/
def Heard (s : Scene κ ρ ω) : Prop :=
  s.queue.worker = .parked → s.queue.pending = [] ∨ s.queue.notice = true ∨ 0 < s.untold

theorem Heard.leads (h : s.Heard) {turn : Turn κ ω} (hleads : Leads b s turn s') : s'.Heard := by
  cases hleads with
  | works _ hstep =>
      have hsteps := CommandQueue.steps_of_advance? hstep
      exact fun hparked => .inl (hsteps.pending_of_parked hparked)
  | pushes => exact fun _ => .inr (.inr (Nat.succ_pos _))
  | notifies => exact fun _ => .inr (.inl rfl)
  | drops _ hpending =>
      intro hparked
      have hheard := h hparked
      simp only [hpending, List.cons_ne_nil, false_or] at hheard
      exact .inr hheard
  | unlocks _ hpending =>
      unfold CommandQueue.endStop
      split
      next => exact fun hparked => by cases hparked
      next => exact fun _ => .inl hpending
  | signals =>
      unfold CommandQueue.signalExit
      split <;> exact h
  | stays | enrolls | locks | takesFailure | changes => exact h

theorem run_heard (b : Behaviour κ ρ ω) (world : ω) (turns : List (Turn κ ω)) :
    ((start world).run b turns).Heard :=
  run_induction (fun s turn h => h.leads (leads_after b s turn)) (fun hparked => by cases hparked)
    turns

/--
As long as something waits, a worker that has been told and has not exited has
a step to take, unless it waits itself for the command that it runs.
-/
theorem Heard.goes_on (h : s.Heard) (htold : s.untold = 0) (hstays : s.queue.worker ≠ .exited)
    (hpending : s.queue.pending ≠ []) :
    (∃ queue, s.queue.advance? b = some queue) ∨
      ∃ job run, s.queue.worker = .busy job ∧ job.phase = .started run ∧
        b.step job.id job.command run s.queue.world = .waiting := by
  cases hstep : s.queue.advance? b with
  | some queue => exact .inl ⟨queue, rfl⟩
  | none =>
      rcases CommandQueue.advance?_eq_none hstep with hwaits | ⟨hparked, hnotice, _⟩ | hexited
      · exact .inr hwaits
      · have hheard := h hparked
        simp [hpending, hnotice, htold] at hheard
      · exact absurd hexited hstays

end Scene

end StackQuery
