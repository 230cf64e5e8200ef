import StackQuery.Progress

/-!
# Histories of streams

A history lists what shows of a stream while it is stepped, one moment after
another: the items that it brings, and whatever else is noted of a step.  A
stream that waits, or that has ended, stays as it is.
-/

namespace StackQuery

variable {η ε σ α κ : Type}

/-- The state after a step. -/
def Progress.after (state : σ) : Progress ε σ α → σ
  | .item _ next | .working next => next
  | .waiting | .ended => state

theorem Progress.after_mapState {τ : Type} (f : σ → τ) (state : σ) (progress : Progress ε σ α) :
    (progress.mapState f).after (f state) = f (progress.after state) := by
  cases progress <;> rfl

/-- What is noted of the steps taken in some moments, one after another. -/
def history (step : η → σ → Progress ε σ α) (notes : η → σ → List κ) : List η → σ → List κ
  | [], _ => []
  | moment :: later, state =>
      notes moment state ++ history step notes later ((step moment state).after state)

/-- The item that a step brings, if any. -/
def Progress.items : Progress ε σ α → List (Except ε α)
  | .item result _ => [result]
  | _ => []

/-- The items that are brought in some moments, errors among them. -/
def brought (step : η → σ → Progress ε σ α) : List η → σ → List (Except ε α) :=
  history step fun moment state => (step moment state).items

/-- The state that is left after some moments. -/
def reached (step : η → σ → Progress ε σ α) (moments : List η) (state : σ) : σ :=
  moments.foldl (fun state moment => (step moment state).after state) state

@[simp] theorem brought_nil (step : η → σ → Progress ε σ α) (state : σ) :
    brought step [] state = [] := rfl

theorem brought_cons (step : η → σ → Progress ε σ α) (moment : η) (later : List η) (state : σ) :
    brought step (moment :: later) state =
      (step moment state).items ++ brought step later ((step moment state).after state) := rfl

theorem reached_cons (step : η → σ → Progress ε σ α) (moment : η) (later : List η) (state : σ) :
    reached step (moment :: later) state =
      reached step later ((step moment state).after state) := rfl

/-- What holds of the notes of a step, and of two lists if of both, holds of a history. -/
theorem history_induction {step : η → σ → Progress ε σ α} {notes : η → σ → List κ}
    {P : List κ → Prop} {moments : List η} (hnil : P [])
    (happend : ∀ noted later, P noted → P later → P (noted ++ later))
    (hnotes : ∀ moment ∈ moments, ∀ state, P (notes moment state)) (state : σ) :
    P (history step notes moments state) := by
  induction moments generalizing state with
  | nil => exact hnil
  | cons moment later ih =>
      obtain ⟨hnow, hlater⟩ := List.forall_mem_cons.mp hnotes
      exact happend _ _ (hnow state) (ih hlater _)

end StackQuery
