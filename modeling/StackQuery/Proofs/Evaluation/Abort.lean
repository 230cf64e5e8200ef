import StackQuery.Evaluation
import StackQuery.Proofs.Solutions.Stepping

/-!
# What an abort leaves of a stream

Every stream that a query is made of stands behind a guard: the stack that it
starts from, what every step brings, and what comes after every step that looks
at the whole stream.  However the frames of its sequences change, the stream
that is stepped next is one of these, so nothing but the abort error comes out
once the signal is set.
-/

namespace StackQuery

namespace Solutions

/-! ## Guarded streams -/

/-- Every item that the stream can bring passes a guard. -/
inductive Shielded : Solutions → Prop where
  | none : Shielded .none
  | guarded (live : Solutions) : Shielded (.guarded live)
  | sequence {route : Route} {frames : List (Frame Solutions)}
      (h : ∀ f ∈ frames, Shielded f.live) : Shielded (.sequence ⟨route, true⟩ frames)

/-- What a step of a guarded stream may bring, and what it has to leave. -/
def ShieldedStep (aborted : Bool) : Progress EvalError Solutions Stack → Prop
  | .item item next => (aborted = true → item = .error .aborted) ∧ Shielded next
  | .working next => Shielded next
  | .waiting => True
  | .ended => True

variable {s : Surroundings} {live : Solutions}

theorem shielded_run (l : Library) (route : Route) (i : Nat) (stack : Stack) :
    Shielded (Plan.run l ⟨route, true⟩ i stack) := by
  unfold Plan.run
  split
  next => exact .guarded _
  next => exact .none

theorem shielded_kept {applied : Nat} {next : Solutions} {below : List (Frame Solutions)}
    (hnext : Shielded next) (hbelow : ∀ f ∈ below, Shielded f.live) :
    ∀ f ∈ kept applied next below, Shielded f.live := by
  unfold kept
  split
  next => exact hbelow
  next => exact List.forall_mem_cons.mpr ⟨hnext, hbelow⟩

/-- One step keeps the guards, and brings nothing but the abort error once the signal is set. -/
theorem shielded_step (h : Shielded live) : ShieldedStep s.aborted (step s live) := by
  induction h with
  | none => exact True.intro
  | guarded live =>
      cases hstep : step s live with
      | item item next =>
          simp only [step, hstep]
          refine ⟨fun haborted => ?_, .guarded next⟩
          rw [if_pos haborted]
      | working next =>
          rw [Wraps.working hstep]
          exact .guarded next
      | waiting => rw [Wraps.waiting hstep]; exact True.intro
      | ended => rw [Wraps.ended hstep]; exact True.intro
  | @sequence route frames hframes ih =>
      -- Only the topmost frame is stepped, and a frame that it opens has a guard of its own.
      cases frames with
      | nil => exact True.intro
      | cons top below =>
          obtain ⟨applied, live⟩ := top
          have hlive : ShieldedStep s.aborted (step s live) := ih _ List.mem_cons_self
          have hbelow := (List.forall_mem_cons.mp hframes).2
          cases hstep : step s live with
          | item item next =>
              rw [hstep] at hlive
              obtain ⟨hitem, hnext⟩ := hlive
              cases item with
              | error error =>
                  rw [step_sequence_error hstep]
                  exact ⟨hitem, .sequence (List.forall_mem_cons.mpr ⟨hnext, hbelow⟩)⟩
              | ok stack =>
                  by_cases hpassed : applied = route.length
                  · rw [step_sequence_passed hstep hpassed]
                    exact ⟨hitem, .sequence (List.forall_mem_cons.mpr ⟨hnext, hbelow⟩)⟩
                  · rw [step_sequence_opens hstep hpassed]
                    exact .sequence (List.forall_mem_cons.mpr
                      ⟨shielded_run _ route applied stack, shielded_kept hnext hbelow⟩)
          | working next =>
              rw [hstep] at hlive
              rw [step_sequence_working hstep]
              exact .sequence (List.forall_mem_cons.mpr ⟨hlive, hbelow⟩)
          | waiting =>
              rw [step_sequence_waiting hstep]
              exact True.intro
          | ended =>
              rw [step_sequence_ended hstep]
              exact .sequence hbelow

/-! ## Runs -/

/-- The stream after one step; it stays as it is if it waits or has ended. -/
def onward (live : Solutions) (s : Surroundings) : Solutions :=
  match step s live with
  | .item _ next => next
  | .working next => next
  | .waiting => live
  | .ended => live

theorem shielded_onward (h : Shielded live) (s : Surroundings) : Shielded (live.onward s) := by
  have hstep := shielded_step (s := s) h
  unfold onward
  split
  next heq =>
    rw [heq] at hstep
    exact hstep.2
  next heq =>
    rw [heq] at hstep
    exact hstep
  next => exact h
  next => exact h

theorem shielded_history (h : Shielded live) (before : List Surroundings) :
    Shielded (before.foldl onward live) := by
  induction before generalizing live with
  | nil => exact h
  | cons s later ih => exact ih (shielded_onward h s)

end Solutions

/-! ## Queries -/

namespace Operator

open Solutions (Shielded)

theorem shielded_alongSteps {live : Solutions} (h : Shielded live) (steps : List Operator) :
    Shielded (alongSteps true steps live) := by
  unfold alongSteps Solutions.along
  split
  next => exact h
  next => exact .sequence (by simpa using h)

theorem shielded_segmentsOnStream {live : Solutions} (h : Shielded live)
    (steps segment : List Operator) : Shielded (segmentsOnStream true live segment steps) := by
  induction steps generalizing live segment with
  | nil =>
      rw [segmentsOnStream]
      exact shielded_alongSteps h _
  | cons step rest ih =>
      rw [segmentsOnStream]
      split
      next => exact ih (.guarded _) []
      next => exact ih h (step :: segment)

end Operator

theorem shielded_evaluate {s : Surroundings} {tokens : List Token} {stack : Stack}
    {live : Solutions} (h : evaluate s tokens stack = .ok live) : live.Shielded := by
  unfold evaluate at h
  split at h
  next => cases h
  next =>
    cases hsteps : Token.operators s.library tokens with
    | error error =>
        rw [hsteps] at h
        cases h
    | ok steps =>
        rw [hsteps] at h
        cases h
        exact Operator.shielded_segmentsOnStream (.guarded _) steps []

/--
Whatever has come before, a query brings nothing but the abort error from the
moment its signal is set.
-/
theorem aborted_of_brings {s moment : Surroundings} {tokens : List Token} {stack : Stack}
    {live next : Solutions} {item : Item} (hlive : evaluate s tokens stack = .ok live)
    (before : List Surroundings) (haborted : moment.aborted = true)
    (hstep : (before.foldl Solutions.onward live).step moment = .item item next) :
    item = .error .aborted := by
  have hshielded := Solutions.shielded_history (shielded_evaluate hlive) before
  have hbrings := Solutions.shielded_step (s := moment) hshielded
  rw [hstep] at hbrings
  exact hbrings.1 haborted

end StackQuery
