import StackQuery.Proofs.Streams.Alike
import StackQuery.Solutions.Sequence

/-!
# Flat maps within flat maps

A flat map replaces every item of a stream by the items of another stream, all
of them before those of the next one, and leaves errors where they are.
Applying steps one after another is a flat map around a flat map, as many as
there are steps.  Frames bring the same as that: all but the last step are done
by the frames of a shorter machine, and the topmost frame holds what the last
one has made of an item.

A stream that is known to be spent is not kept in a frame, so it must have
nothing left to show.
-/

namespace StackQuery

variable {η ε σ τ υ α β : Type}

/-! ## Flat maps -/

/-- A stream, and what is left of the stream that its last item has been replaced by. -/
structure Flattened (τ σ : Type) where
  outer : τ
  inner : Option σ

namespace Flattened

/-- One step of a flat map, given those of the stream and of what its items are replaced by. -/
def step (stepOuter : τ → Progress ε τ α) (stepInner : σ → Progress ε σ β) (run : α → σ) :
    Flattened τ σ → Progress ε (Flattened τ σ) β
  | ⟨outer, none⟩ =>
      match stepOuter outer with
      | .item (.ok a) next => .working ⟨next, some (run a)⟩
      | .item (.error error) next => .item (.error error) ⟨next, none⟩
      | .working next => .working ⟨next, none⟩
      | .waiting => .waiting
      | .ended => .ended
  | ⟨outer, some inner⟩ =>
      match stepInner inner with
      | .item result next => .item result ⟨outer, some next⟩
      | .working next => .working ⟨outer, some next⟩
      | .waiting => .waiting
      | .ended => .working ⟨outer, none⟩

section Outer

variable {stepOuter : τ → Progress ε τ α} {stepInner : σ → Progress ε σ β} {run : α → σ}
  {outer next : τ}

theorem step_ok {a : α} (h : stepOuter outer = .item (.ok a) next) :
    step stepOuter stepInner run ⟨outer, none⟩ = .working ⟨next, some (run a)⟩ := by
  simp only [step, h]

theorem step_error {error : ε} (h : stepOuter outer = .item (.error error) next) :
    step stepOuter stepInner run ⟨outer, none⟩ = .item (.error error) ⟨next, none⟩ := by
  simp only [step, h]

theorem step_working (h : stepOuter outer = .working next) :
    step stepOuter stepInner run ⟨outer, none⟩ = .working ⟨next, none⟩ := by
  simp only [step, h]

theorem step_waiting (h : stepOuter outer = .waiting) :
    step stepOuter stepInner run ⟨outer, none⟩ = .waiting := by
  simp only [step, h]

theorem step_ended (h : stepOuter outer = .ended) :
    step stepOuter stepInner run ⟨outer, none⟩ = .ended := by
  simp only [step, h]

theorem works (h : Works stepOuter outer next) :
    Works (step stepOuter stepInner run) ⟨outer, none⟩ ⟨next, none⟩ := by
  induction h with
  | refl _ => exact .refl _
  | head hstep _ ih => exact .head (step_working hstep) ih

end Outer

section Inner

variable {stepOuter : τ → Progress ε τ α} {stepInner : σ → Progress ε σ β} {run : α → σ}
  {outer : τ} {inner next : σ}

theorem inner_item {result : Except ε β} (h : stepInner inner = .item result next) :
    step stepOuter stepInner run ⟨outer, some inner⟩ = .item result ⟨outer, some next⟩ := by
  simp only [step, h]

theorem inner_working (h : stepInner inner = .working next) :
    step stepOuter stepInner run ⟨outer, some inner⟩ = .working ⟨outer, some next⟩ := by
  simp only [step, h]

theorem inner_waiting (h : stepInner inner = .waiting) :
    step stepOuter stepInner run ⟨outer, some inner⟩ = .waiting := by
  simp only [step, h]

theorem inner_ended (h : stepInner inner = .ended) :
    step stepOuter stepInner run ⟨outer, some inner⟩ = .working ⟨outer, none⟩ := by
  simp only [step, h]

end Inner

section Follows

variable {step₁ : η → τ → Progress ε τ α} {step₂ : η → υ → Progress ε υ α}
  {stepInner : η → σ → Progress ε σ β} {run : α → σ} {R : τ → υ → Prop}

/-- Flat maps that have the same stream inside, and related streams outside. -/
inductive Both (R : τ → υ → Prop) : Flattened τ σ → Flattened υ σ → Prop where
  | intro {a : τ} {b : υ} (inner : Option σ) (h : R a b) : Both R ⟨a, inner⟩ ⟨b, inner⟩

/-- Flat maps follow each other when the streams whose items they replace do. -/
theorem follows (h : Follows step₁ step₂ R) :
    Follows (fun moment => step (step₁ moment) (stepInner moment) run)
      (fun moment => step (step₂ moment) (stepInner moment) run) (Both R) := by
  rintro moment _ _ ⟨inner, hab⟩
  dsimp only
  cases inner with
  | none =>
      have hanswer := h moment _ _ hab
      generalize hstep : step₁ moment _ = p at hanswer
      cases hanswer with
      | @item result next b' next' hworks hstep' hrelated =>
          refine .after (works hworks) ?_
          cases result with
          | error error =>
              rw [step_error hstep]
              exact .item (.refl _) (step_error hstep') (.intro none hrelated)
          | ok a =>
              rw [step_ok hstep]
              exact .working (.head (step_ok hstep') (.refl _)) (.intro _ hrelated)
      | working hworks hrelated =>
          rw [step_working hstep]
          exact .working (works hworks) (.intro none hrelated)
      | waiting hworks hstep' hrelated =>
          rw [step_waiting hstep]
          exact .waiting (works hworks) (step_waiting hstep') (.intro none hrelated)
      | ended hworks hstep' =>
          rw [step_ended hstep]
          exact .ended (works hworks) (step_ended hstep')
  | some inner =>
      cases hstep : stepInner moment inner with
      | item result next =>
          rw [inner_item hstep]
          exact .item (.refl _) (inner_item hstep) (.intro _ hab)
      | working next =>
          rw [inner_working hstep]
          exact .working (.head (inner_working hstep) (.refl _)) (.intro _ hab)
      | waiting =>
          rw [inner_waiting hstep]
          exact .waiting (.refl _) (inner_waiting hstep) (.intro _ hab)
      | ended =>
          rw [inner_ended hstep]
          exact .working (.head (inner_ended hstep) (.refl _)) (.intro none hab)

theorem alike {a : τ} {b : υ} (h : Alike step₁ step₂ a b) (inner : Option σ) :
    Alike (fun moment => step (step₁ moment) (stepInner moment) run)
      (fun moment => step (step₂ moment) (stepInner moment) run) ⟨a, inner⟩ ⟨b, inner⟩ := by
  obtain ⟨R, hfollows, hback, hab⟩ := h
  refine ⟨Both R, follows hfollows, ?_, .intro inner hab⟩
  rintro moment _ _ ⟨inner, hab⟩
  refine (follows hback moment _ _ (.intro inner hab)).mono ?_
  rintro _ _ ⟨inner, hab⟩
  exact .intro inner hab

end Follows

section Inside

variable {stepOuter : η → τ → Progress ε τ α} {stepInner : η → σ → Progress ε σ β}
  {stepInner' : η → υ → Progress ε υ β} {run : α → σ} {run' : α → υ}

/-- Flat maps of the same stream, with streams inside that are alike. -/
inductive Inside (stepInner : η → σ → Progress ε σ β) (stepInner' : η → υ → Progress ε υ β) :
    Flattened τ σ → Flattened τ υ → Prop where
  | outside (outer : τ) : Inside stepInner stepInner' ⟨outer, none⟩ ⟨outer, none⟩
  | inside (outer : τ) {inner : σ} {inner' : υ} (h : Alike stepInner stepInner' inner inner') :
      Inside stepInner stepInner' ⟨outer, some inner⟩ ⟨outer, some inner'⟩

theorem inside_works {moment : η} {outer : τ} {inner next : σ}
    (h : Works (stepInner moment) inner next) :
    Works (step (stepOuter moment) (stepInner moment) run) ⟨outer, some inner⟩
      ⟨outer, some next⟩ := by
  induction h with
  | refl _ => exact .refl _
  | head hstep _ ih => exact .head (inner_working hstep) ih

theorem inside_follows (hrun : ∀ a, Alike stepInner stepInner' (run a) (run' a)) :
    Follows (fun moment => step (stepOuter moment) (stepInner moment) run)
      (fun moment => step (stepOuter moment) (stepInner' moment) run')
      (Inside stepInner stepInner') := by
  intro moment _ _ h
  dsimp only
  cases h with
  | outside outer =>
      cases hstep : stepOuter moment outer with
      | item result next =>
          cases result with
          | error error =>
              rw [step_error hstep]
              exact .item (.refl _) (step_error hstep) (.outside next)
          | ok a =>
              rw [step_ok hstep]
              exact .working (.head (step_ok hstep) (.refl _)) (.inside next (hrun a))
      | working next =>
          rw [step_working hstep]
          exact .working (.head (step_working hstep) (.refl _)) (.outside next)
      | waiting =>
          rw [step_waiting hstep]
          exact .waiting (.refl _) (step_waiting hstep) (.outside outer)
      | ended =>
          rw [step_ended hstep]
          exact .ended (.refl _) (step_ended hstep)
  | @inside outer inner inner' h =>
      have hanswer := alike_follows moment inner inner' h
      generalize hstep : stepInner moment inner = p at hanswer
      cases hanswer with
      | item hworks hstep' hrelated =>
          rw [inner_item hstep]
          exact .item (inside_works hworks) (inner_item hstep') (.inside outer hrelated)
      | working hworks hrelated =>
          rw [inner_working hstep]
          exact .working (inside_works hworks) (.inside outer hrelated)
      | waiting hworks hstep' hrelated =>
          rw [inner_waiting hstep]
          exact .waiting (inside_works hworks) (inner_waiting hstep') (.inside outer hrelated)
      | ended hworks hstep' =>
          rw [inner_ended hstep]
          exact .working ((inside_works hworks).trans (.head (inner_ended hstep') (.refl _)))
            (.outside outer)

/-- What items are replaced by may be exchanged for streams that are alike. -/
theorem alike_of_run (hrun : ∀ a, Alike stepInner stepInner' (run a) (run' a)) (outer : τ) :
    Alike (fun moment => step (stepOuter moment) (stepInner moment) run)
      (fun moment => step (stepOuter moment) (stepInner' moment) run') ⟨outer, none⟩
      ⟨outer, none⟩ := by
  refine ⟨Inside stepInner stepInner', inside_follows hrun, ?_, .outside outer⟩
  intro moment b a h
  have hback : Inside stepInner' stepInner b a := by
    cases h with
    | outside outer => exact .outside outer
    | inside outer h => exact .inside outer h.symm
  refine (inside_follows (fun a => (hrun a).symm) moment b a hback).mono ?_
  rintro _ _ (outer | ⟨outer, h⟩)
  · exact .outside outer
  · exact .inside outer h.symm

end Inside

end Flattened

/-! ## One within another -/

/-- A stream; nothing is left of it once it has ended. -/
def fuse (stepLive : σ → Progress ε σ α) : Option σ → Progress ε (Option σ) α
  | none => .ended
  | some live =>
      match stepLive live with
      | .item result next => .item result (some next)
      | .working next => .working (some next)
      | .waiting => .waiting
      | .ended => .working none

/-- A number of flat maps, each around the one before, and a stream inside them all. -/
def Nested (σ : Type) : Nat → Type
  | 0 => Option σ
  | n + 1 => Flattened (Nested σ n) σ

namespace Nested

def start (live : σ) : (n : Nat) → Nested σ n
  | 0 => some live
  | n + 1 => ⟨start live n, none⟩

/-- One step of flat maps, the innermost of which replaces an item by what step 0 makes of it. -/
def step (run : Nat → α → σ) (stepLive : σ → Progress ε σ α) :
    (n : Nat) → Nested σ n → Progress ε (Nested σ n) α
  | 0 => fuse stepLive
  | n + 1 => Flattened.step (step run stepLive n) stepLive (run n)

end Nested

/-! ## Streams without items -/

/-- Whatever the moments, the stream comes to its end within a number of steps and shows nothing. -/
def EndsWithin (step : η → σ → Progress ε σ α) : Nat → σ → Prop
  | 0, state => ∀ moment, step moment state = .ended
  | n + 1, state => ∀ moment, step moment state = .ended ∨
      ∃ next, step moment state = .working next ∧ EndsWithin step n next

/-! ## Frames -/

namespace Frame

section Step

variable {length applied : Nat} {spent : σ → Bool} {run : Nat → α → σ}
  {stepLive : σ → Progress ε σ α} {live next : σ} {below : List (Frame σ)}

theorem step_working (h : stepLive live = .working next) :
    step length spent run stepLive (⟨applied, live⟩ :: below) =
      .working (⟨applied, next⟩ :: below) := by
  simp only [step, h, advance]

theorem step_waiting (h : stepLive live = .waiting) :
    step length spent run stepLive (⟨applied, live⟩ :: below) = .waiting := by
  simp only [step, h, advance]

theorem step_ended (h : stepLive live = .ended) :
    step length spent run stepLive (⟨applied, live⟩ :: below) = .working below := by
  simp only [step, h, advance]

theorem step_error {error : ε} (h : stepLive live = .item (.error error) next) :
    step length spent run stepLive (⟨applied, live⟩ :: below) =
      .item (.error error) (⟨applied, next⟩ :: below) := by
  simp only [step, h, advance]

theorem step_passed {a : α} (h : stepLive live = .item (.ok a) next) (happlied : applied = length) :
    step length spent run stepLive (⟨applied, live⟩ :: below) =
      .item (.ok a) (⟨applied, next⟩ :: below) := by
  simp only [step, h, advance, if_pos happlied]

/-- The frames below the one that an item of the topmost frame opens. -/
def keep (spent : σ → Bool) (applied : Nat) (next : σ) (below : List (Frame σ)) :
    List (Frame σ) :=
  if spent next then below else ⟨applied, next⟩ :: below

theorem step_opens {a : α} (h : stepLive live = .item (.ok a) next) (happlied : applied ≠ length) :
    step length spent run stepLive (⟨applied, live⟩ :: below) =
      .working (⟨applied + 1, run applied a⟩ :: keep spent applied next below) := by
  simp only [step, h, advance, if_neg happlied, keep]

theorem keep_sublist (spent : σ → Bool) (applied : Nat) (next : σ) (below : List (Frame σ)) :
    (keep spent applied next below).Sublist (⟨applied, next⟩ :: below) := by
  unfold keep
  split
  next => exact List.sublist_cons_self _ _
  next => exact List.Sublist.refl _

end Step

variable {stepLive : η → σ → Progress ε σ α} {spent : σ → Bool} {run run' : Nat → α → σ} {n : Nat}

/-! ### Frames of no steps -/

/-- Frames of no steps beside the stream in the only one of them. -/
inductive Unstepped : List (Frame σ) → Option σ → Prop where
  | whole (live : σ) : Unstepped [⟨0, live⟩] (some live)
  | gone : Unstepped [] none

theorem alike_fuse (live : σ) :
    Alike (fun moment => step 0 spent run (stepLive moment)) (fun moment => fuse (stepLive moment))
      [⟨0, live⟩] (some live) := by
  refine alike_of_meets (R := fun _ => Unstepped) ?_ 0 (.whole live)
  intro rank _ _ h moment
  cases h with
  | whole live =>
      cases hstep : stepLive moment live with
      | item result next =>
          have hfuse : fuse (stepLive moment) (some live) = .item result (some next) := by
            simp only [fuse, hstep]
          cases result with
          | error error => exact .item (step_error hstep) hfuse ⟨0, .whole next⟩
          | ok a => exact .item (step_passed hstep rfl) hfuse ⟨0, .whole next⟩
      | working next =>
          exact .working (step_working hstep) (by simp only [fuse, hstep]) ⟨0, .whole next⟩
      | waiting => exact .waiting (step_waiting hstep) (by simp only [fuse, hstep])
      | ended => exact .working (step_ended hstep) (by simp only [fuse, hstep]) ⟨0, .gone⟩
  | gone => exact .ended rfl rfl

/-! ### Taking the last step off -/

/-- Frames that differ by one whose stream is spent. -/
inductive SpentAbove (stepLive : η → σ → Progress ε σ α) (passed : Nat) :
    Nat → List (Frame σ) → List (Frame σ) → Prop where
  | none (frames : List (Frame σ)) : SpentAbove stepLive passed 0 frames frames
  | one {rank : Nat} {live : σ} (h : EndsWithin stepLive rank live) (frames : List (Frame σ)) :
      SpentAbove stepLive passed (rank + 1) frames (⟨passed, live⟩ :: frames)

/-- Frames of some steps beside those of one step less, around which a flat map applies it. -/
inductive Peeled (stepLive : η → σ → Progress ε σ α) (n : Nat) :
    Nat → List (Frame σ) → Flattened (List (Frame σ)) σ → Prop where
  | along {rank : Nat} {frames frames' : List (Frame σ)} (hframes : ∀ f ∈ frames, f.applied ≤ n)
      (habove : SpentAbove stepLive n rank frames frames') :
      Peeled stepLive n rank frames ⟨frames', none⟩
  | last {rank : Nat} {live : σ} {frames frames' : List (Frame σ)}
      (hframes : ∀ f ∈ frames, f.applied ≤ n) (habove : SpentAbove stepLive n rank frames frames') :
      Peeled stepLive n 0 (⟨n + 1, live⟩ :: frames) ⟨frames', some live⟩

theorem keep_applied {applied : Nat} {next : σ} {below : List (Frame σ)} (happlied : applied ≤ n)
    (hbelow : ∀ f ∈ below, f.applied ≤ n) : ∀ f ∈ keep spent applied next below, f.applied ≤ n := by
  intro f hf
  rcases List.mem_cons.mp ((keep_sublist _ _ _ _).subset hf) with rfl | hf
  · exact happlied
  · exact hbelow f hf

/-- The topmost frame holds what the last step has made of an item. -/
theorem peeled_meets_last {rank : Nat} {live : σ} {frames frames' : List (Frame σ)}
    (hframes : ∀ f ∈ frames, f.applied ≤ n) (habove : SpentAbove stepLive n rank frames frames')
    (moment : η) :
    Meets (step (n + 1) spent run (stepLive moment))
      (Flattened.step (step n spent run' (stepLive moment)) (stepLive moment) (run n))
      (Peeled stepLive n) 0 (⟨n + 1, live⟩ :: frames) ⟨frames', some live⟩ := by
  cases hstep : stepLive moment live with
  | item result next =>
      refine .item ?_ (Flattened.inner_item hstep) ⟨0, .last hframes habove⟩
      cases result with
      | error error => exact step_error hstep
      | ok a => exact step_passed hstep rfl
  | working next =>
      exact .working (step_working hstep) (Flattened.inner_working hstep)
        ⟨0, .last hframes habove⟩
  | waiting => exact .waiting (step_waiting hstep) (Flattened.inner_waiting hstep)
  | ended =>
      exact .working (step_ended hstep) (Flattened.inner_ended hstep)
        ⟨rank, .along hframes habove⟩

section Peel

variable (hspent : ∀ live, spent live = true → ∃ rank, EndsWithin stepLive rank live)

include hspent

theorem spentAbove_keep (passed : Nat) (next : σ) (below : List (Frame σ)) :
    ∃ rank, SpentAbove stepLive passed rank (keep spent passed next below)
      (⟨passed, next⟩ :: below) := by
  unfold keep
  split
  next h =>
    obtain ⟨rank, hrank⟩ := hspent next h
    exact ⟨rank + 1, .one hrank below⟩
  next => exact ⟨0, .none _⟩

/-- The topmost frame is the same in both machines, and its items have not passed the last step. -/
theorem peeled_meets_along (hrun : ∀ i < n, run i = run' i) {applied : Nat} {live : σ}
    {below : List (Frame σ)} (happlied : applied ≤ n) (hbelow : ∀ f ∈ below, f.applied ≤ n)
    (moment : η) :
    Meets (step (n + 1) spent run (stepLive moment))
      (Flattened.step (step n spent run' (stepLive moment)) (stepLive moment) (run n))
      (Peeled stepLive n) 0 (⟨applied, live⟩ :: below) ⟨⟨applied, live⟩ :: below, none⟩ := by
  have hframes (next : σ) : ∀ f ∈ (⟨applied, next⟩ :: below : List (Frame σ)), f.applied ≤ n :=
    List.forall_mem_cons.mpr ⟨happlied, hbelow⟩
  have hopen : applied ≠ n + 1 := by omega
  cases hstep : stepLive moment live with
  | item result next =>
      cases result with
      | error error =>
          exact .item (step_error hstep) (Flattened.step_error (step_error hstep))
            ⟨0, .along (hframes next) (.none _)⟩
      | ok a =>
          -- Either only the last step is left, or both machines open the same frame.
          by_cases hpassed : applied = n
          · subst hpassed
            obtain ⟨rank, habove⟩ := spentAbove_keep hspent applied next below
            exact .working (step_opens hstep hopen) (Flattened.step_ok (step_passed hstep rfl))
              ⟨0, .last (keep_applied (Nat.le_refl _) hbelow) habove⟩
          · have hlt : applied < n := by omega
            refine .working (step_opens hstep hopen)
              (Flattened.step_working (step_opens hstep hpassed)) ⟨0, ?_⟩
            rw [hrun applied hlt]
            refine .along ?_ (.none _)
            exact List.forall_mem_cons.mpr ⟨hlt, keep_applied happlied hbelow⟩
  | working next =>
      exact .working (step_working hstep) (Flattened.step_working (step_working hstep))
        ⟨0, .along (hframes next) (.none _)⟩
  | waiting => exact .waiting (step_waiting hstep) (Flattened.step_waiting (step_waiting hstep))
  | ended =>
      exact .working (step_ended hstep) (Flattened.step_working (step_ended hstep))
        ⟨0, .along hbelow (.none _)⟩

/-- A machine does what one with the same steps but the last does, and a flat map around it. -/
theorem alike_flattened (hrun : ∀ i < n, run i = run' i) (live : σ) :
    Alike (fun moment => step (n + 1) spent run (stepLive moment))
      (fun moment => Flattened.step (step n spent run' (stepLive moment)) (stepLive moment) (run n))
      [⟨0, live⟩] ⟨[⟨0, live⟩], none⟩ := by
  refine alike_of_meets (R := Peeled stepLive n) ?_ 0 (.along (by simp) (.none _))
  intro rank frames _ h moment
  cases h with
  | along hframes habove =>
      cases habove with
      | none =>
          cases frames with
          | nil => exact .ended rfl (Flattened.step_ended rfl)
          | cons top below =>
              obtain ⟨htop, hbelow⟩ := List.forall_mem_cons.mp hframes
              exact peeled_meets_along hspent hrun htop hbelow moment
      | @one rank _ hends =>
          -- Only the shorter machine still has the frame, and it works on alone until it is gone.
          cases rank with
          | zero =>
              exact .right (Flattened.step_working (step_ended (hends moment))) (Nat.lt_succ_self 0)
                (.along hframes (.none _))
          | succ rank =>
              rcases hends moment with hended | ⟨next, hworking, hlater⟩
              · exact .right (Flattened.step_working (step_ended hended)) (Nat.succ_pos _)
                  (.along hframes (.none _))
              · exact .right (Flattened.step_working (step_working hworking)) (Nat.lt_succ_self _)
                  (.along hframes (.one hlater _))
  | last hframes habove => exact peeled_meets_last hframes habove moment

/-! ### All the steps -/

/-- Frames bring what flat maps within one another bring, one for every step. -/
theorem alike_nested (length : Nat) (live : σ) :
    Alike (fun moment => step length spent run (stepLive moment))
      (fun moment => Nested.step run (stepLive moment) length)
      [⟨0, live⟩] (Nested.start live length) := by
  induction length with
  | zero => exact alike_fuse live
  | succ n ih =>
      exact (alike_flattened hspent (fun _ _ => rfl) live).trans (Flattened.alike ih none)

end Peel

end Frame

end StackQuery
