import StackQuery.Progress

/-!
# Runs of streams

A run is what a stream does in some steps, one after another.  What the stream
is surrounded by may be different at each of them.  A step in which it waits
changes nothing, so runs are made only of steps in which it goes on.
-/

namespace StackQuery

variable {η ε σ α : Type} {step : η → σ → Progress ε σ α} {moments more : List η}
  {state next last : σ} {items rest : List (Except ε α)}

/-- The steps taken in some moments, with the items that they bring and the state that is left. -/
inductive Runs (step : η → σ → Progress ε σ α) :
    List η → σ → List (Except ε α) → σ → Prop where
  | refl (state : σ) : Runs step [] state [] state
  | item {moment : η} {moments : List η} {state next last : σ} {result : Except ε α}
      {items : List (Except ε α)} (h : step moment state = .item result next)
      (later : Runs step moments next items last) :
      Runs step (moment :: moments) state (result :: items) last
  | working {moment : η} {moments : List η} {state next last : σ} {items : List (Except ε α)}
      (h : step moment state = .working next) (later : Runs step moments next items last) :
      Runs step (moment :: moments) state items last

namespace Runs

theorem trans (h : Runs step moments state items next)
    (later : Runs step more next rest last) :
    Runs step (moments ++ more) state (items ++ rest) last := by
  induction h with
  | refl _ => exact later
  | item hstep _ ih => exact .item hstep (ih later)
  | working hstep _ ih => exact .working hstep (ih later)

theorem items_length_le (h : Runs step moments state items next) :
    items.length ≤ moments.length := by
  induction h with
  | refl _ => simp
  | item _ _ ih => simpa using ih
  | working _ _ ih =>
      simp only [List.length_cons]
      omega

/-- A longer run of the same stream begins with the shorter one. -/
theorem remainder (h : Runs step moments state items next)
    (longer : Runs step (moments ++ more) state rest last) :
    ∃ later, rest = items ++ later ∧ Runs step more next later last := by
  induction h generalizing rest with
  | refl _ => exact ⟨rest, rfl, longer⟩
  | item hstep _ ih =>
      cases longer with
      | item hstep' longer =>
          rw [hstep] at hstep'
          cases hstep'
          obtain ⟨later, rfl, hlater⟩ := ih longer
          exact ⟨later, rfl, hlater⟩
      | working hstep' _ =>
          rw [hstep] at hstep'
          cases hstep'
  | working hstep _ ih =>
      cases longer with
      | item hstep' _ =>
          rw [hstep] at hstep'
          cases hstep'
      | working hstep' longer =>
          rw [hstep] at hstep'
          cases hstep'
          exact ih longer

theorem of_ended {moment : η} (hended : step moment state = .ended)
    (h : Runs step (moment :: moments) state items next) : False := by
  cases h with
  | item hstep _ => simp [hended] at hstep
  | working hstep _ => simp [hended] at hstep

/-- A stream that has ended takes no more steps. -/
theorem eq_of_ended {moment : η} {count : Nat} (hended : step moment state = .ended)
    (h : Runs step (List.replicate count moment) state items next) :
    items = [] ∧ next = state := by
  cases count with
  | zero =>
      cases h
      exact ⟨rfl, rfl⟩
  | succ count => exact (of_ended hended h).elim

theorem in_moment (moment : η)
    (hsame : ∀ other ∈ moments, ∀ state,
      step other state = .waiting ∨ step other state = step moment state)
    (h : Runs step moments state items next) :
    Runs step (List.replicate moments.length moment) state items next := by
  induction h with
  | refl state => exact .refl state
  | @item other others state _ _ _ _ hstep _ ih =>
      obtain ⟨hfirst, hothers⟩ := List.forall_mem_cons.mp hsame
      rcases hfirst state with hwaiting | hmoment
      · simp [hstep] at hwaiting
      · exact .item (hmoment.symm.trans hstep) (ih hothers)
  | @working other others state _ _ _ hstep _ ih =>
      obtain ⟨hfirst, hothers⟩ := List.forall_mem_cons.mp hsame
      rcases hfirst state with hwaiting | hmoment
      · simp [hstep] at hwaiting
      · exact .working (hmoment.symm.trans hstep) (ih hothers)

end Runs

/-! ## Items that come whatever the moments -/

/-- Whatever the moments, the stream works on for some steps and then brings an item. -/
inductive Delivers (step : η → σ → Progress ε σ α) : Nat → σ → Except ε α → σ → Prop where
  | item {state next : σ} {result : Except ε α}
      (h : ∀ moment, step moment state = .item result next) : Delivers step 1 state result next
  | working {steps : Nat} {state next last : σ} {result : Except ε α}
      (h : ∀ moment, step moment state = .working next)
      (later : Delivers step steps next result last) :
      Delivers step (steps + 1) state result last

theorem Delivers.runs {steps : Nat} (h : Delivers step steps state result last) (moments : List η)
    (hlength : moments.length = steps) : Runs step moments state [result] last := by
  induction h generalizing moments with
  | item h =>
      obtain ⟨moment, rfl⟩ := List.length_eq_one_iff.mp hlength
      exact .item (h moment) (.refl _)
  | working h _ ih =>
      cases moments with
      | nil => simp at hlength
      | cons moment moments => exact .working (h moment) (ih moments (by simpa using hlength))

/-! ## Streams that run down -/

/-- Whatever the stream goes on to has the property. -/
def Progress.Leaves (P : σ → Prop) : Progress ε σ α → Prop
  | .item _ next | .working next => P next
  | .waiting | .ended => True

@[simp] theorem Progress.leaves_item {P : σ → Prop} {result : Except ε α} :
    (Progress.item result next).Leaves P ↔ P next := Iff.rfl

@[simp] theorem Progress.leaves_working {P : σ → Prop} :
    (Progress.working next : Progress ε σ α).Leaves P ↔ P next := Iff.rfl

theorem Progress.Leaves.mono {P Q : σ → Prop} {progress : Progress ε σ α} (h : progress.Leaves P)
    (hPQ : ∀ state, P state → Q state) : progress.Leaves Q := by
  cases progress with
  | item result next => exact hPQ next h
  | working next => exact hPQ next h
  | waiting => exact True.intro
  | ended => exact True.intro

section RunsDown

variable {measure : σ → Nat} {moment : η}

theorem Runs.length_add_le
    (hdown : ∀ moment ∈ moments, ∀ state,
      (step moment state).Leaves (measure · < measure state))
    (h : Runs step moments state items last) : moments.length + measure last ≤ measure state := by
  induction h with
  | refl _ => simp
  | @item moment moments state next _ _ _ hstep _ ih
  | @working moment moments state next _ _ hstep _ ih =>
      obtain ⟨hfirst, hlater⟩ := List.forall_mem_cons.mp hdown
      have hless : measure next < measure state := by
        have hleaves := hfirst state
        rwa [hstep] at hleaves
      have hrest := ih hlater
      simp only [List.length_cons]
      omega

/-- A stream that never waits and always runs down comes to its end. -/
theorem exists_end (hwaits : ∀ state, step moment state ≠ .waiting)
    (hdown : ∀ state, (step moment state).Leaves (measure · < measure state)) (state : σ) :
    ∃ steps items last, Runs step (List.replicate steps moment) state items last ∧
      step moment last = .ended := by
  generalize hrank : measure state = rank
  induction rank using Nat.strongRecOn generalizing state with
  | ind rank ih =>
      have hless := hdown state
      cases hstep : step moment state with
      | item result next =>
          rw [hstep] at hless
          obtain ⟨steps, items, last, hruns, hended⟩ := ih _ (hrank ▸ hless) next rfl
          exact ⟨steps + 1, result :: items, last, .item hstep hruns, hended⟩
      | working next =>
          rw [hstep] at hless
          obtain ⟨steps, items, last, hruns, hended⟩ := ih _ (hrank ▸ hless) next rfl
          exact ⟨steps + 1, items, last, .working hstep hruns, hended⟩
      | waiting => exact absurd hstep (hwaits state)
      | ended => exact ⟨0, [], state, .refl _, hstep⟩

/-- Pulling such a stream brings an item or the end, in no more steps than it can take. -/
theorem pull_of_runs_down (hwaits : ∀ state, step moment state ≠ .waiting)
    (hdown : ∀ state, (step moment state).Leaves (measure · < measure state)) {fuel : Nat}
    (hfuel : measure state < fuel) :
    (∃ result next, pull (step moment) fuel state = .item result next) ∨
      pull (step moment) fuel state = .ended := by
  induction fuel generalizing state with
  | zero => omega
  | succ fuel ih =>
      have hless := hdown state
      cases hstep : step moment state with
      | item result next => exact .inl ⟨result, next, by simp [pull, hstep]⟩
      | working next =>
          rw [hstep] at hless
          simp only [Progress.Leaves] at hless
          simp only [pull, hstep]
          exact ih (by omega)
      | waiting => exact absurd hstep (hwaits state)
      | ended => exact .inr (by simp [pull, hstep])

end RunsDown

end StackQuery
