import Mathlib.Data.List.Perm.Subperm
import StackQuery.Proofs.Solutions.Sequence
import StackQuery.Proofs.Streams.Histories
import StackQuery.Proofs.Streams.Runs

/-!
# How far the frames have come

The frames of a sequence have passed some of its steps, the topmost one the
most.  A frame is opened with one step more than the frame that its item comes
from, and that frame stays below it unless its stream is spent; frames go from
the top only.  So the numbers of steps rise strictly from the bottom to the
top, whichever frames have been dropped, and none of them exceeds the number of
all steps.  There is room for one frame more than there are steps.

A step is applied to an item only if the item has not passed them all, so the
operator that a plan looks up for it is there.
-/

namespace StackQuery

variable {η ε σ α : Type}

namespace Frame

/-- The numbers of steps that the frames have passed, from the top to the bottom. -/
def ranks (frames : List (Frame σ)) : List Nat := frames.map applied

/-- Numbers of steps that fall strictly, none of them more than there are steps. -/
structure Descends (length : Nat) (ranks : List Nat) : Prop where
  strict : ranks.Pairwise (· > ·)
  bounded : ∀ rank ∈ ranks, rank ≤ length

namespace Descends

variable {length rank : Nat} {ranks ranks' : List Nat}

theorem start (length : Nat) : Descends length [0] :=
  ⟨List.pairwise_singleton _ _, by simp⟩

theorem sublist (h : Descends length ranks) (hsub : ranks'.Sublist ranks) :
    Descends length ranks' :=
  ⟨h.strict.sublist hsub, fun rank hrank => h.bounded rank (hsub.subset hrank)⟩

/-- A frame is opened above one that has steps left. -/
theorem push (h : Descends length (rank :: ranks)) (hopen : rank ≠ length) :
    Descends length ((rank + 1) :: rank :: ranks) := by
  have hrank : rank ≤ length := h.bounded rank List.mem_cons_self
  obtain ⟨habove, _⟩ := List.pairwise_cons.mp h.strict
  refine ⟨List.pairwise_cons.mpr ⟨fun other hother => ?_, h.strict⟩,
    List.forall_mem_cons.mpr ⟨by omega, h.bounded⟩⟩
  rcases List.mem_cons.mp hother with rfl | hother
  · exact Nat.lt_succ_self _
  · have hlt := habove other hother
    omega

/-- Numbers that fall strictly are different from each other, so there are no more than fit. -/
theorem length_le (h : Descends length ranks) : ranks.length ≤ length + 1 := by
  have hnodup : ranks.Nodup := h.strict.imp Nat.ne_of_gt
  have hsub : ranks ⊆ List.range (length + 1) := fun rank hrank =>
    List.mem_range.mpr (Nat.lt_succ_of_le (h.bounded rank hrank))
  simpa using (hnodup.subperm hsub).length_le

theorem frames_length_le {frames : List (Frame σ)} (h : Descends length (Frame.ranks frames)) :
    frames.length ≤ length + 1 := by
  simpa [Frame.ranks] using h.length_le

end Descends

/-! ## One step -/

/-- A step about to be applied to an item, and the frames as they stand then. -/
structure Call (σ α : Type) where
  index : Nat
  item : α
  kept : List (Frame σ)

/-- The call that the next step of the machine makes, if it makes one. -/
def call? (length : Nat) (spent : σ → Bool) (stepLive : σ → Progress ε σ α) :
    List (Frame σ) → Option (Call σ α)
  | [] => none
  | top :: below =>
      match stepLive top.live with
      | .item (.ok a) next =>
          if top.applied = length then none
          else some ⟨top.applied, a, keep spent top.applied next below⟩
      | _ => none

section Step

variable {length : Nat} {spent : σ → Bool} {run run' : Nat → α → σ}
  {stepLive : σ → Progress ε σ α} {frames : List (Frame σ)} {call : Call σ α}

theorem call?_eq_some (h : call? length spent stepLive frames = some call) :
    ∃ live next below, frames = ⟨call.index, live⟩ :: below ∧ call.index ≠ length ∧
      stepLive live = .item (.ok call.item) next ∧
      call.kept = keep spent call.index next below := by
  cases frames with
  | nil => simp [call?] at h
  | cons top below =>
      cases hstep : stepLive top.live with
      | item result next =>
          cases result with
          | error error => simp [call?, hstep] at h
          | ok a =>
              by_cases hpassed : top.applied = length
              · simp [call?, hstep, hpassed] at h
              · simp only [call?, hstep, if_neg hpassed, Option.some.injEq] at h
                subst h
                exact ⟨top.live, next, below, rfl, hpassed, hstep, rfl⟩
      | working next => simp [call?, hstep] at h
      | waiting => simp [call?, hstep] at h
      | ended => simp [call?, hstep] at h

/-- What has been called for is put on top of the frames that were kept. -/
theorem step_of_call (h : call? length spent stepLive frames = some call) :
    step length spent run stepLive frames =
      .working (⟨call.index + 1, run call.index call.item⟩ :: call.kept) := by
  obtain ⟨live, next, below, rfl, hopen, hstep, hkept⟩ := call?_eq_some h
  rw [step_opens hstep hopen, hkept]

/-- Without a call it does not matter what the steps do, and at most a frame has gone. -/
theorem step_of_no_call (run run' : Nat → α → σ)
    (h : call? length spent stepLive frames = none) :
    step length spent run stepLive frames = step length spent run' stepLive frames ∧
      (step length spent run stepLive frames).Leaves fun next =>
        (ranks next).Sublist (ranks frames) := by
  cases frames with
  | nil => exact ⟨rfl, True.intro⟩
  | cons top below =>
      -- The topmost stream may go on, but its frame has passed as many steps as before.
      have hsame (next : σ) :
          (ranks (⟨top.applied, next⟩ :: below)).Sublist (ranks (top :: below)) := List.Sublist.refl _
      cases hstep : stepLive top.live with
      | item result next =>
          cases result with
          | error error =>
              rw [step_error hstep, step_error hstep]
              exact ⟨rfl, hsame next⟩
          | ok a =>
              by_cases hpassed : top.applied = length
              · rw [step_passed hstep hpassed, step_passed hstep hpassed]
                exact ⟨rfl, hsame next⟩
              · simp [call?, hstep, hpassed] at h
      | working next =>
          rw [step_working hstep, step_working hstep]
          exact ⟨rfl, hsame next⟩
      | waiting =>
          rw [step_waiting hstep, step_waiting hstep]
          exact ⟨rfl, True.intro⟩
      | ended =>
          rw [step_ended hstep, step_ended hstep]
          exact ⟨rfl, List.sublist_cons_self _ _⟩

theorem ranks_keep_sublist (spent : σ → Bool) (applied : Nat) (next : σ)
    (below : List (Frame σ)) :
    (ranks (keep spent applied next below)).Sublist (applied :: ranks below) :=
  (keep_sublist spent applied next below).map Frame.applied

/-- A call is for a step that there is; numbers are in order before it returns and afterwards. -/
theorem Descends.of_call (h : Descends length (ranks frames))
    (hcall : call? length spent stepLive frames = some call) :
    call.index < length ∧ Descends length (ranks call.kept) ∧
      Descends length ((call.index + 1) :: ranks call.kept) := by
  obtain ⟨live, next, below, rfl, hopen, _, hkept⟩ := call?_eq_some hcall
  have hindex : call.index ≤ length := h.bounded _ List.mem_cons_self
  have hsub : (ranks call.kept).Sublist (ranks (⟨call.index, live⟩ :: below)) := by
    rw [hkept]
    exact ranks_keep_sublist spent call.index next below
  have hpushed := h.push hopen
  exact ⟨by omega, h.sublist hsub, hpushed.sublist (hsub.cons_cons _)⟩

theorem Descends.step (h : Descends length (ranks frames)) :
    (step length spent run stepLive frames).Leaves fun next => Descends length (ranks next) := by
  cases hcall : call? length spent stepLive frames with
  | none =>
      obtain ⟨_, hleaves⟩ := step_of_no_call run run hcall
      exact hleaves.mono fun next hsub => h.sublist hsub
  | some call =>
      obtain ⟨_, _, hpushed⟩ := h.of_call hcall
      rw [step_of_call hcall]
      exact hpushed

/-- Steps that are the same below the number of steps are the same for frames in order. -/
theorem Descends.step_congr (h : Descends length (ranks frames))
    (hrun : ∀ i < length, run i = run' i) :
    Frame.step length spent run stepLive frames = Frame.step length spent run' stepLive frames := by
  cases hcall : call? length spent stepLive frames with
  | none =>
      obtain ⟨hsame, _⟩ := step_of_no_call run run' hcall
      exact hsame
  | some call =>
      obtain ⟨hindex, _⟩ := h.of_call hcall
      rw [step_of_call hcall, step_of_call hcall, hrun call.index hindex]

end Step

end Frame

/-! ## Whole runs -/

theorem Progress.Leaves.after {P : σ → Prop} {state : σ} {progress : Progress ε σ α}
    (h : progress.Leaves P) (hstate : P state) : P (progress.after state) := by
  cases progress with
  | item result next => exact h
  | working next => exact h
  | waiting => exact hstate
  | ended => exact hstate

namespace Frame

/-- The frames that are left after some moments, in each of which the steps may do otherwise. -/
def loop (length : Nat) (spent : σ → Bool) (run : η → Nat → α → σ)
    (stepLive : η → σ → Progress ε σ α) (moments : List η) (frames : List (Frame σ)) :
    List (Frame σ) :=
  reached (fun moment => step length spent (run moment) (stepLive moment)) moments frames

section Run

variable {length : Nat} {spent : σ → Bool} {run run' : η → Nat → α → σ}
  {stepLive : η → σ → Progress ε σ α} {frames : List (Frame σ)}

theorem Descends.loop (h : Descends length (ranks frames)) (moments : List η) :
    Descends length (ranks (loop length spent run stepLive moments frames)) := by
  induction moments generalizing frames with
  | nil => exact h
  | cons moment later ih => exact ih (h.step.after h)

theorem Descends.loop_congr (h : Descends length (ranks frames))
    (hrun : ∀ moment, ∀ i < length, run moment i = run' moment i) (moments : List η) :
    Frame.loop length spent run stepLive moments frames =
      Frame.loop length spent run' stepLive moments frames := by
  induction moments generalizing frames with
  | nil => rfl
  | cons moment later ih =>
      unfold Frame.loop
      rw [reached_cons, reached_cons, ← h.step_congr (hrun moment)]
      exact ih (h.step.after h)

end Run

end Frame

/-! ## Plans -/

theorem Route.exists_operator {route : Route} {i : Nat} (h : i < route.length) :
    ∃ op, route.operator? i = some op := by
  cases route with
  | steps operators => exact ⟨operators[i], Array.getElem?_eq_getElem h⟩
  | repeated op count => exact ⟨op, if_pos h⟩

namespace Solutions

/-- A sequence stays a sequence, and its frames go on as frames of its plan do. -/
theorem reached_sequence (surroundings : List Surroundings) (plan : Plan)
    (frames : List (Frame Solutions)) :
    reached step surroundings (.sequence plan frames) =
      .sequence plan (Frame.loop plan.route.length isSpent (fun s => plan.run s.library) step
        surroundings frames) := by
  induction surroundings generalizing frames with
  | nil => rfl
  | cons s later ih =>
      rw [reached_cons, step_sequence, Progress.after_mapState, ih]
      rfl

/--
However long a sequence runs, and whatever its streams and its steps do, the
numbers of steps passed rise strictly from the bottom frame to the top one, up
to the number of all steps at most.  A step is asked for only if there is one,
so what is done beyond the last one makes no difference, and a plan finds an
operator for every call.
-/
theorem frames_in_bounds (length : Nat) (spent : σ → Bool) (run : η → Nat → α → σ)
    (stepLive : η → σ → Progress ε σ α) (live : σ) (moments : List η) (plan : Plan)
    (source : Solutions) (surroundings : List Surroundings) :
    (∃ frames, Frame.loop length spent run stepLive moments [⟨0, live⟩] = frames ∧
        Frame.Descends length (Frame.ranks frames) ∧ frames.length ≤ length + 1 ∧
        (∀ moment call, Frame.call? length spent (stepLive moment) frames = some call →
          call.index < length ∧ Frame.Descends length (Frame.ranks call.kept) ∧
            Frame.Descends length ((call.index + 1) :: Frame.ranks call.kept)) ∧
        ∀ run' : η → Nat → α → σ, (∀ moment, ∀ i < length, run moment i = run' moment i) →
          Frame.loop length spent run' stepLive moments [⟨0, live⟩] = frames) ∧
      ∃ frames, reached step surroundings (.sequence plan [⟨0, source⟩]) = .sequence plan frames ∧
        Frame.Descends plan.route.length (Frame.ranks frames) ∧
        frames.length ≤ plan.route.length + 1 ∧
        ∀ s call, Frame.call? plan.route.length isSpent (step s) frames = some call →
          ∃ op, plan.route.operator? call.index = some op := by
  constructor
  · have hstart : Frame.Descends length (Frame.ranks [⟨0, live⟩]) := .start length
    have hframes :
        Frame.Descends length
          (Frame.ranks (Frame.loop length spent run stepLive moments [⟨0, live⟩])) :=
      hstart.loop moments
    exact ⟨_, rfl, hframes, hframes.frames_length_le,
      fun moment call hcall => hframes.of_call hcall,
      fun run' hrun => (hstart.loop_congr hrun moments).symm⟩
  · have hstart : Frame.Descends plan.route.length (Frame.ranks [⟨0, source⟩]) := .start _
    refine ⟨_, reached_sequence surroundings plan _, hstart.loop surroundings,
      (hstart.loop surroundings).frames_length_le, fun s call hcall => ?_⟩
    obtain ⟨hindex, _⟩ := (hstart.loop surroundings).of_call hcall
    exact Route.exists_operator hindex

end Solutions

end StackQuery
