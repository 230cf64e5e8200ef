import Mathlib.Data.List.Forall2
import Mathlib.Data.List.Induction
import StackQuery.Proofs.Solutions.Alike
import StackQuery.Proofs.Streams.Flattening

/-!
# Sequences, one step at a time

A sequence keeps all its pending streams as frames.  Taking its last step off
and applying it to what the sequence of the others brings gives a stream that is
alike, so a sequence of steps brings what the steps bring when each is applied
to the whole stream that the ones before it have left.
-/

namespace StackQuery

namespace Solutions

variable {l : Library}

/-! ## Sequences without steps -/

/-- A sequence of no steps beside the stream in its only frame. -/
inductive Unsequenced (l : Library) (plan : Plan) : Nat → Solutions → Solutions → Prop where
  | whole (live : Solutions) :
      Unsequenced l plan 1 (.sequence plan [⟨plan.route.length, live⟩]) live
  | gone {live : Solutions} (h : ∀ ask, step (.calm l ask) live = .ended) :
      Unsequenced l plan 0 (.sequence plan []) live

theorem sequence_alike_of_passed (plan : Plan) (live : Solutions) :
    Alike l (.sequence plan [⟨plan.route.length, live⟩]) live := by
  refine alike_of_meets (R := Unsequenced l plan) ?_ 1 (.whole live)
  intro rank a b h ask
  cases h with
  | whole =>
      cases hstep : step (.calm l ask) b with
      | item result next =>
          cases result with
          | error error => exact .item (step_sequence_error hstep) hstep ⟨1, .whole next⟩
          | ok stack => exact .item (step_sequence_passed hstep rfl) hstep ⟨1, .whole next⟩
      | working next => exact .working (step_sequence_working hstep) hstep ⟨1, .whole next⟩
      | waiting => exact .waiting (step_sequence_waiting hstep) hstep
      | ended =>
          exact .left (step_sequence_ended hstep) Nat.zero_lt_one
            (.gone fun _ => ended_of_ended hstep)
  | gone h => exact .ended (by simp only [calmStep, step]) (h ask)

/-! ## Sequences as frames -/

theorem step_sequence (s : Surroundings) (plan : Plan) (frames : List (Frame Solutions)) :
    step s (.sequence plan frames) =
      (Frame.step plan.route.length isSpent (plan.run s.library) (step s) frames).mapState
        (.sequence plan) := by
  cases frames with
  | nil => simp only [step, Frame.step, Progress.mapState]
  | cons top below => simp only [step, Frame.step]

theorem sequence_alike_frames (plan : Plan) (frames : List (Frame Solutions)) :
    StackQuery.Alike (calmStep l)
      (fun ask => Frame.step plan.route.length isSpent (plan.run l) (calmStep l ask))
      (.sequence plan frames) frames :=
  alike_of_mapState (fun ask => step_sequence (.calm l ask) plan) frames

theorem Exhausted.endsWithin {n : Nat} {live : Solutions} (h : Exhausted l n live) :
    EndsWithin (calmStep l) n live := by
  induction h with
  | ended h => exact h
  | working h _ ih => exact fun ask => .inr ⟨_, h ask, ih⟩

theorem endsWithin_of_isSpent (l : Library) {live : Solutions} (h : live.isSpent = true) :
    ∃ steps, EndsWithin (calmStep l) steps live := by
  obtain ⟨n, hn⟩ := exhausted_of_isSpent h
  exact ⟨n, hn.endsWithin⟩

/-! ## Taking the last step off -/

/-- A plan goes on where another one ends, with one operator more. -/
structure Prolongs (l : Library) (plan before : Plan) (op : Operator) : Prop where
  length : plan.route.length = before.route.length + 1
  run {i : Nat} (h : i < before.route.length) : plan.run l i = before.run l i
  last : plan.run l before.route.length = op.apply l

variable {plan before : Plan} {op : Operator}

/-- A flat map of an operator, as it stands inside a query. -/
inductive Mapped (op : Operator) : Solutions → Flattened Solutions Solutions → Prop where
  | outside (live : Solutions) : Mapped op (.through op live) ⟨live, Option.none⟩
  | inside (first live : Solutions) :
      Mapped op (.append first (.through op live)) ⟨live, some first⟩

theorem through_alike_flattened (op : Operator) (live : Solutions) :
    StackQuery.Alike (calmStep l)
      (fun ask => Flattened.step (calmStep l ask) (calmStep l ask) (op.apply l))
      (.through op live) ⟨live, Option.none⟩ := by
  refine alike_of_meets (R := fun _ => Mapped op) ?_ 0 (.outside live)
  intro rank _ _ h ask
  cases h with
  | outside live =>
      cases hstep : calmStep l ask live with
      | item result next =>
          cases result with
          | error error =>
              exact .item (step_through_error hstep) (Flattened.step_error hstep)
                ⟨0, .outside next⟩
          | ok stack =>
              exact .working (step_through_ok hstep) (Flattened.step_ok hstep)
                ⟨0, .inside _ next⟩
      | working next =>
          exact .working (Wraps.working hstep) (Flattened.step_working hstep) ⟨0, .outside next⟩
      | waiting => exact .waiting (Wraps.waiting hstep) (Flattened.step_waiting hstep)
      | ended => exact .ended (Wraps.ended hstep) (Flattened.step_ended hstep)
  | inside first live =>
      cases hstep : calmStep l ask first with
      | item result next =>
          exact .item (step_append_item hstep) (Flattened.inner_item hstep) ⟨0, .inside next live⟩
      | working next =>
          exact .working (step_append_working hstep) (Flattened.inner_working hstep)
            ⟨0, .inside next live⟩
      | waiting => exact .waiting (step_append_waiting hstep) (Flattened.inner_waiting hstep)
      | ended =>
          exact .working (step_append_ended hstep) (Flattened.inner_ended hstep)
            ⟨0, .outside live⟩

theorem sequence_alike_through (hplan : Prolongs l plan before op) (live : Solutions) :
    Alike l (.sequence plan [⟨0, live⟩]) (.through op (.sequence before [⟨0, live⟩])) := by
  have hlong := sequence_alike_frames (l := l) plan [⟨0, live⟩]
  rw [hplan.length] at hlong
  have hpeeled := Frame.alike_flattened (fun _ => endsWithin_of_isSpent l) (fun _ => hplan.run) live
  rw [hplan.last] at hpeeled
  have hshort := (sequence_alike_frames (l := l) before [⟨0, live⟩]).symm
  exact hlong.trans (hpeeled.trans ((Flattened.alike hshort Option.none).trans
    (through_alike_flattened op _).symm))

/-! ## All the steps -/

theorem prolongs_concat (steps : List Operator) (op : Operator) :
    Prolongs l ⟨.steps (steps ++ [op]).toArray, false⟩ ⟨.steps steps.toArray, false⟩ op where
  length := by simp [Route.length]
  run h := by
    simp only [Route.length, List.size_toArray] at h
    funext stack
    simp [Plan.run, Route.operator?, List.getElem?_append_left h]
  last := by
    funext stack
    simp [Plan.run, Route.operator?, Route.length]

/-- A sequence of steps brings what its steps bring, each applied to the whole stream before it. -/
theorem sequence_alike_foldl (steps : List Operator) (live : Solutions) :
    Alike l (.sequence ⟨.steps steps.toArray, false⟩ [⟨0, live⟩])
      (steps.foldl (fun live op => .through op live) live) := by
  induction steps using List.reverseRecOn with
  | nil => exact sequence_alike_of_passed _ live
  | append_singleton steps op ih =>
      rw [List.foldl_append]
      exact (sequence_alike_through (prolongs_concat steps op) live).trans
        (AlikeOver.through (fun _ => .refl _) ih)

/-! ## Guards that never fire -/

/-- A stream beside the one inside its guard, if it has one. -/
inductive Guards : Solutions → Solutions → Prop where
  | none (live : Solutions) : Guards live live
  | one (live : Solutions) : Guards (.guarded live) live

theorem guards_meets {a b : Solutions} (rank : Nat) (h : Guards a b) (ask : Connection) :
    Meets (calmStep l ask) (calmStep l ask) (fun _ => Guards) rank a b := by
  cases h with
  | none =>
      cases hstep : step (.calm l ask) a with
      | item result next => exact .item hstep hstep ⟨0, .none next⟩
      | working next => exact .working hstep hstep ⟨0, .none next⟩
      | waiting => exact .waiting hstep hstep
      | ended => exact .ended hstep hstep
  | one =>
      cases hstep : step (.calm l ask) b with
      | item result next =>
          refine .item ?_ hstep ⟨0, .one next⟩
          simp only [calmStep, step, hstep, Surroundings.calm_aborted, Bool.false_eq_true,
            if_false]
      | working next => exact .working (Wraps.working hstep) hstep ⟨0, .one next⟩
      | waiting => exact .waiting (Wraps.waiting hstep) hstep
      | ended => exact .ended (Wraps.ended hstep) hstep

theorem guarded_alike (live : Solutions) : Alike l (.guarded live) live :=
  alike_of_meets (R := fun _ => Guards) (fun rank _ _ h ask => guards_meets rank h ask) 0
    (.one live)

theorem Guards.isSpent {a b : Solutions} (h : Guards a b) : a.isSpent = b.isSpent := by
  cases h with
  | none => rfl
  | one => rfl

theorem guards_run (route : Route) (i : Nat) (stack : Stack) :
    Guards (Plan.run l ⟨route, true⟩ i stack) (Plan.run l ⟨route, false⟩ i stack) := by
  unfold Plan.run
  split
  next op hop =>
    simp only [hop]
    exact .one _
  next hop =>
    simp only [hop]
    exact .none _

/-- A guarded sequence beside the same sequence without its guards. -/
inductive Unguarded (route : Route) : Nat → Solutions → Solutions → Prop where
  | intro {frames frames' : List (Frame Solutions)}
      (h : List.Forall₂ (fun f f' => f.applied = f'.applied ∧ Guards f.live f'.live)
        frames frames') :
      Unguarded route 0 (.sequence ⟨route, true⟩ frames) (.sequence ⟨route, false⟩ frames')

theorem sequence_guarded_alike (route : Route) (live : Solutions) :
    Alike l (.sequence ⟨route, true⟩ [⟨0, live⟩]) (.sequence ⟨route, false⟩ [⟨0, live⟩]) := by
  refine alike_of_meets (R := Unguarded route) ?_ 0
    (.intro (.cons ⟨rfl, .none live⟩ .nil))
  rintro _ _ _ ⟨h⟩ ask
  cases h with
  | nil => exact .ended (by simp only [calmStep, step]) (by simp only [calmStep, step])
  | @cons f f' below below' htop hbelow =>
      obtain ⟨applied, a⟩ := f
      obtain ⟨_, b⟩ := f'
      obtain ⟨rfl, hlive⟩ := htop
      cases guards_meets (l := l) 0 hlive ask with
      | @item result a' b' h₁ h₂ related =>
          obtain ⟨_, hnext⟩ := related
          cases result with
          | error error =>
              exact .item (step_sequence_error h₁) (step_sequence_error h₂)
                ⟨0, .intro (.cons ⟨rfl, hnext⟩ hbelow)⟩
          | ok stack =>
              by_cases hpassed : applied = route.length
              · exact .item (step_sequence_passed h₁ hpassed) (step_sequence_passed h₂ hpassed)
                  ⟨0, .intro (.cons ⟨rfl, hnext⟩ hbelow)⟩
              · refine .working (step_sequence_opens h₁ hpassed) (step_sequence_opens h₂ hpassed)
                  ⟨0, .intro (.cons ⟨rfl, guards_run route applied stack⟩ ?_)⟩
                simp only [kept, hnext.isSpent]
                split
                next => exact hbelow
                next => exact .cons ⟨rfl, hnext⟩ hbelow
      | working h₁ h₂ related =>
          obtain ⟨_, hnext⟩ := related
          exact .working (step_sequence_working h₁) (step_sequence_working h₂)
            ⟨0, .intro (.cons ⟨rfl, hnext⟩ hbelow)⟩
      | waiting h₁ h₂ => exact .waiting (step_sequence_waiting h₁) (step_sequence_waiting h₂)
      | ended h₁ h₂ =>
          exact .working (step_sequence_ended h₁) (step_sequence_ended h₂) ⟨0, .intro hbelow⟩
      | left _ hlt => exact absurd hlt (Nat.not_lt_zero _)
      | right _ hlt => exact absurd hlt (Nat.not_lt_zero _)

end Solutions

end StackQuery
