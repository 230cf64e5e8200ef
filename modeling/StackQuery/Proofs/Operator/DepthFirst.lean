import StackQuery.Evaluation
import StackQuery.Proofs.Solutions.Sequence

/-!
# Evaluation is depth first

A query is driven by segments of steps, each of them along a stack of frames.
What it brings is nevertheless what its operators bring when they are applied
one after another, each to the whole stream that the ones before it have left.
Applying an operator that does not look at the whole stream replaces every
stack by all that the operator makes of it, so all solutions from one stack
come before any from the next.
-/

namespace StackQuery

namespace Solutions

variable {l : Library} {op : Operator}

/-! ## Operators that make one stack of every stack -/

/--
A stream whose stacks are changed one by one, beside the flat map of an
operator that does the same.
-/
inductive Singly (l : Library) (op : Operator) (wrap : Solutions → Solutions) :
    Nat → Solutions → Solutions → Prop where
  | before (live : Solutions) : Singly l op wrap 1 (wrap live) (.through op live)
  | opened {live next : Solutions} {stack : Stack}
      (h : ∀ ask, step (.calm l ask) live = .item (.ok stack) next) :
      Singly l op wrap 0 (wrap live) (.append (op.apply l stack) (.through op next))
  | after (live : Solutions) :
      Singly l op wrap 2 (wrap live) (.append (.items []) (.through op live))

theorem alike_through_of_single {f : Stack → Stack} (wrap : Solutions → Solutions)
    [∀ ask, Wraps (step (.calm l ask)) wrap] (hop : ∀ stack, op.apply l stack = .single (f stack))
    (hwrap : ∀ ask live result next, step (.calm l ask) live = .item result next →
      step (.calm l ask) (wrap live) = .item (result.map f) (wrap next)) (live : Solutions) :
    Alike l (wrap live) (.through op live) := by
  refine alike_of_meets (R := Singly l op wrap) ?_ 1 (.before live)
  intro rank a b h ask
  cases h with
  | before live =>
      cases hstep : step (.calm l ask) live with
      | item result next =>
          cases result with
          | error error =>
              exact .item (hwrap _ _ _ _ hstep) (step_through_error hstep) ⟨1, .before next⟩
          | ok stack =>
              exact .right (step_through_ok hstep) Nat.zero_lt_one (.opened (item_of_item hstep))
      | working next =>
          exact .working (Wraps.working hstep) (Wraps.working hstep) ⟨1, .before next⟩
      | waiting => exact .waiting (Wraps.waiting hstep) (Wraps.waiting hstep)
      | ended => exact .ended (Wraps.ended hstep) (Wraps.ended hstep)
  | opened h =>
      refine .item (hwrap _ _ _ _ (h ask)) (step_append_item ?_) ⟨2, .after _⟩
      rw [hop]
      rfl
  | after live =>
      exact .right (step_append_ended (by simp only [step])) (Nat.lt_succ_self 1) (.before live)

theorem pushing_alike (v : Value) (live : Solutions) :
    Alike l (.pushing v live) (.through (.constant v) live) := by
  refine alike_through_of_single (f := (v :: ·)) (.pushing v) (fun stack => ?_) ?_ live
  · simp only [Operator.apply]
  · intro ask live result next h
    simp only [step, h]

/-! ## Sequences inside streams -/

/-- The stacks that are still to come, beside the frame that holds them, if there is one. -/
inductive Pending (l : Library) : Nat → Solutions → List (Frame Solutions) → Prop where
  | whole (live : Solutions) : Pending l 1 live [⟨0, live⟩]
  | gone {n : Nat} {live : Solutions} (h : Exhausted l n live) : Pending l n live []

theorem pending_kept (next : Solutions) : ∃ rank, Pending l rank next (kept 0 next []) := by
  unfold kept
  split
  next hspent =>
    obtain ⟨n, hn⟩ := exhausted_of_isSpent hspent
    exact ⟨n, .gone hn⟩
  next => exact ⟨1, .whole next⟩

/-- One sequence for every stack, beside one sequence for the whole stream. -/
inductive Sequenced (l : Library) (plan : Plan) (op : Operator) :
    Nat → Solutions → Solutions → Prop where
  | between {rank : Nat} {live : Solutions} {rest : List (Frame Solutions)}
      (h : Pending l rank live rest) :
      Sequenced l plan op rank (.through op live) (.sequence plan rest)
  | inside {rank : Nat} {live : Solutions} {rest : List (Frame Solutions)}
      (h : Pending l rank live rest) (frames : List (Frame Solutions)) :
      Sequenced l plan op (rank + 1) (.append (.sequence plan frames) (.through op live))
        (.sequence plan (frames ++ rest))
  | opened {rank : Nat} {live : Solutions} {rest : List (Frame Solutions)}
      (h : Pending l rank live rest) (stack : Stack) :
      Sequenced l plan op (rank + 2)
        (.append (.sequence plan [⟨0, .single stack⟩]) (.through op live))
        (.sequence plan (⟨1, plan.run l 0 stack⟩ :: rest))

variable {plan : Plan}

theorem sequenced_meets_inside {rank applied : Nat} {live top : Solutions}
    {below rest : List (Frame Solutions)} (h : Pending l rank live rest) (ask : Connection) :
    Meets (calmStep l ask) (calmStep l ask) (Sequenced l plan op) (rank + 1)
      (.append (.sequence plan (⟨applied, top⟩ :: below)) (.through op live))
      (.sequence plan (⟨applied, top⟩ :: (below ++ rest))) := by
  have hframes : ∀ next, Sequenced l plan op (rank + 1)
      (.append (.sequence plan (⟨applied, next⟩ :: below)) (.through op live))
      (.sequence plan (⟨applied, next⟩ :: (below ++ rest))) :=
    fun next => .inside h (⟨applied, next⟩ :: below)
  cases hstep : step (.calm l ask) top with
  | item result next =>
      cases result with
      | error error =>
          exact .item (step_append_item (step_sequence_error hstep)) (step_sequence_error hstep)
            ⟨_, hframes next⟩
      | ok stack =>
          by_cases hpassed : applied = plan.route.length
          · exact .item (step_append_item (step_sequence_passed hstep hpassed))
              (step_sequence_passed hstep hpassed) ⟨_, hframes next⟩
          · have hkept : kept applied next (below ++ rest) = kept applied next below ++ rest := by
              unfold kept
              split <;> rfl
            refine .working (step_append_working (step_sequence_opens hstep hpassed))
              (step_sequence_opens hstep hpassed) ⟨rank + 1, ?_⟩
            rw [hkept]
            exact .inside h (⟨applied + 1, _⟩ :: kept applied next below)
  | working next =>
      exact .working (step_append_working (step_sequence_working hstep))
        (step_sequence_working hstep) ⟨_, hframes next⟩
  | waiting =>
      exact .waiting (step_append_waiting (step_sequence_waiting hstep))
        (step_sequence_waiting hstep)
  | ended =>
      exact .working (step_append_working (step_sequence_ended hstep))
        (step_sequence_ended hstep) ⟨_, .inside h below⟩

theorem sequenced_meets_between
    (hop : ∀ stack, op.apply l stack = .sequence plan [⟨0, .single stack⟩])
    (hplan : 0 ≠ plan.route.length) {rank : Nat} {live : Solutions}
    {rest : List (Frame Solutions)} (h : Pending l rank live rest) (ask : Connection) :
    Meets (calmStep l ask) (calmStep l ask) (Sequenced l plan op) rank (.through op live)
      (.sequence plan rest) := by
  cases h with
  | whole =>
      cases hstep : step (.calm l ask) live with
      | item result next =>
          cases result with
          | error error =>
              exact .item (step_through_error hstep) (step_sequence_error hstep)
                ⟨1, .between (.whole next)⟩
          | ok stack =>
              obtain ⟨rank, hrest⟩ := pending_kept (l := l) next
              refine .working (step_through_ok hstep) (step_sequence_opens hstep hplan)
                ⟨rank + 2, ?_⟩
              rw [Surroundings.calm_library, hop]
              exact .opened hrest stack
      | working next =>
          exact .working (Wraps.working hstep) (step_sequence_working hstep)
            ⟨1, .between (.whole next)⟩
      | waiting => exact .waiting (Wraps.waiting hstep) (step_sequence_waiting hstep)
      | ended =>
          exact .right (step_sequence_ended hstep) Nat.zero_lt_one
            (.between (.gone (.ended fun _ => ended_of_ended hstep)))
  | gone h =>
      cases h with
      | ended h => exact .ended (Wraps.ended (h ask)) (by simp only [calmStep, step])
      | working h hrest =>
          exact .left (Wraps.working (h ask)) (Nat.lt_succ_self _) (.between (.gone hrest))

theorem through_alike_sequence
    (hop : ∀ stack, op.apply l stack = .sequence plan [⟨0, .single stack⟩])
    (hplan : 0 ≠ plan.route.length) (live : Solutions) :
    Alike l (.through op live) (.sequence plan [⟨0, live⟩]) := by
  refine alike_of_meets (R := Sequenced l plan op) ?_ 1 (.between (.whole live))
  intro rank a b h ask
  cases h with
  | between h => exact sequenced_meets_between hop hplan h ask
  | inside h frames =>
      cases frames with
      | nil =>
          exact .left (step_append_ended (by simp only [step])) (Nat.lt_succ_self _) (.between h)
      | cons top below => exact sequenced_meets_inside h ask
  | @opened rank live rest h stack =>
      refine .left (step_append_working (step_sequence_opens rfl hplan)) (Nat.lt_succ_self _) ?_
      exact .inside h [⟨1, plan.run l 0 stack⟩]

end Solutions

namespace Operator

variable {l : Library}

/-! ## Steps that do not look at the whole stream -/

theorem segmentsOnStream_eq_alongSteps (guarded : Bool) (live : Solutions)
    (segment steps : List Operator) (hsteps : anyNeedsStream steps = false) :
    segmentsOnStream guarded live segment steps =
      alongSteps guarded (segment.reverse ++ steps) live := by
  induction steps generalizing segment with
  | nil => rw [segmentsOnStream, List.append_nil]
  | cons step rest ih =>
      obtain ⟨hstep, hrest⟩ := Bool.or_eq_false_iff.mp hsteps
      rw [segmentsOnStream, if_neg (by simp [hstep]), ih _ hrest, List.reverse_cons,
        List.append_assoc, List.singleton_append]

theorem alongSteps_alike_foldl (steps : List Operator) (live : Solutions) :
    Solutions.Alike l (alongSteps false steps live)
      (steps.foldl (fun live op => .through op live) live) := by
  unfold alongSteps Solutions.along
  split
  next hlength =>
    obtain rfl : steps = [] := by simpa [Route.length] using hlength
    exact .refl live
  next => exact Solutions.sequence_alike_foldl steps live

theorem composed_alike_through {steps : List Operator} (source : Option (List Value))
    (hsteps : anyNeedsStream steps = false) (live : Solutions) :
    Solutions.Alike l (alongSteps false steps live) (.through (.composed steps source) live) := by
  have happly : ∀ stack, Operator.apply l (.composed steps source) stack =
      alongSteps false steps (.single stack) := fun stack => by
    rw [Operator.apply, stepsOnStream, segmentsOnStream_eq_alongSteps _ _ _ _ hsteps]
    rfl
  cases steps with
  | nil =>
      have hid : ∀ ask, Wraps (Solutions.step (.calm l ask)) id :=
        fun ask => ⟨fun h => h, fun h => h, fun h => h⟩
      refine Solutions.alike_through_of_single (f := id) id happly ?_ live
      intro ask live result next h
      simpa using h
  | cons step rest =>
      have hlength : Route.length (.steps (step :: rest).toArray) ≠ 0 := by simp [Route.length]
      have halong : ∀ live, alongSteps false (step :: rest) live =
          .sequence ⟨.steps (step :: rest).toArray, false⟩ [⟨0, live⟩] := fun live => by
        rw [alongSteps, Solutions.along, if_neg hlength]
      rw [halong]
      exact (Solutions.through_alike_sequence (fun stack => by rw [happly, halong])
        hlength.symm live).symm

/-- Applying an operator to a whole stream is a flat map, unless it looks at the whole stream. -/
theorem onStream_alike_through : ∀ (op : Operator) (live : Solutions), op.needsStream = false →
    Solutions.Alike l (op.onStream live) (.through op live)
  | .primitive p, live, h => by
      rw [onStream, if_neg (by simpa [needsStream] using h)]
      exact .refl _
  | .composed steps source, live, h => by
      rw [onStream, segmentsOnStream_eq_alongSteps _ _ _ _ h]
      exact composed_alike_through source h live
  | .inverted forward inverse, live, h => by
      rw [onStream]
      refine (onStream_alike_through inverse live h).trans (Solutions.AlikeOver.through ?_ (.refl live))
      intro stack
      rw [Operator.apply]
      exact .refl _
  | .constant v, live, _ => by
      rw [onStream]
      exact Solutions.pushing_alike v live

/-! ## All steps -/

section Over

variable {η : Type} {asks : η → Connection}

theorem foldl_alike {f : Solutions → Operator → Solutions} {steps : List Operator}
    (hf : ∀ op ∈ steps, ∀ {a b}, Solutions.AlikeOver l asks a b →
      Solutions.AlikeOver l asks (f a op) (f b op))
    {a b : Solutions} (h : Solutions.AlikeOver l asks a b) :
    Solutions.AlikeOver l asks (steps.foldl f a) (steps.foldl f b) := by
  induction steps generalizing a b with
  | nil => exact h
  | cons op rest ih =>
      obtain ⟨hop, hrest⟩ := List.forall_mem_cons.mp hf
      exact ih hrest (hop h)

theorem alongSteps_alike (steps : List Operator) {a b : Solutions}
    (h : Solutions.AlikeOver l asks a b) :
    Solutions.AlikeOver l asks (alongSteps false steps a) (alongSteps false steps b) := by
  have hfold (live : Solutions) := (alongSteps_alike_foldl (l := l) steps live).over asks
  refine (hfold a).trans (.trans ?_ (hfold b).symm)
  refine foldl_alike (fun op _ a b hab => ?_) h
  exact Solutions.AlikeOver.through (fun _ => .refl _) hab

mutual

/-- Streams that are alike stay so when an operator is applied to them. -/
theorem onStream_alike : ∀ (op : Operator) {a b : Solutions}, Solutions.AlikeOver l asks a b →
    Solutions.AlikeOver l asks (op.onStream a) (op.onStream b)
  | .primitive p, a, b, h => by
      rw [onStream, onStream]
      split
      next => exact (h.deep p.name p.arity).distinct []
      next => exact Solutions.AlikeOver.through (fun _ => .refl _) h
  | .composed steps _, a, b, h => by
      rw [onStream, onStream]
      exact segmentsOnStream_alike steps [] h
  | .inverted _ inverse, a, b, h => by
      rw [onStream, onStream]
      exact onStream_alike inverse h
  | .constant v, a, b, h => by
      rw [onStream, onStream]
      exact h.pushing v

theorem segmentsOnStream_alike : ∀ (steps segment : List Operator) {a b : Solutions},
    Solutions.AlikeOver l asks a b →
    Solutions.AlikeOver l asks (segmentsOnStream false a segment steps)
      (segmentsOnStream false b segment steps)
  | [], segment, a, b, h => by
      rw [segmentsOnStream, segmentsOnStream]
      exact alongSteps_alike _ h
  | step :: rest, segment, a, b, h => by
      rw [segmentsOnStream, segmentsOnStream]
      split
      next => exact segmentsOnStream_alike rest [] (onStream_alike step (alongSteps_alike _ h))
      next => exact segmentsOnStream_alike rest (step :: segment) h

end

end Over

/-- The segments bring what the steps bring, each applied to the whole stream before it. -/
theorem segmentsOnStream_alike_foldl (steps segment : List Operator) (live : Solutions) :
    Solutions.Alike l (segmentsOnStream false live segment steps)
      (steps.foldl (fun live op => op.onStream live)
        (alongSteps false segment.reverse live)) := by
  induction steps generalizing segment live with
  | nil =>
      rw [segmentsOnStream]
      exact .refl _
  | cons step rest ih =>
      rw [segmentsOnStream]
      split
      next => exact ih [] (step.onStream (alongSteps false segment.reverse live))
      next hstep =>
        -- The step joins the segment, where it is the flat map that it is when it stands alone.
        refine (ih (step :: segment) live).trans
          (foldl_alike (fun op _ _ _ => onStream_alike op) ?_)
        rw [List.reverse_cons]
        refine (alongSteps_alike_foldl _ live).trans ?_
        rw [List.foldl_append]
        refine .trans ?_ (onStream_alike_through step _ (by simpa using hstep)).symm
        exact Solutions.AlikeOver.through (fun _ => .refl _) (alongSteps_alike_foldl _ live).symm

/-! ## Guards -/

theorem alongSteps_guarded_alike (steps : List Operator) (live : Solutions) :
    Solutions.Alike l (alongSteps true steps live) (alongSteps false steps live) := by
  unfold alongSteps Solutions.along
  split
  next => exact .refl live
  next => exact Solutions.sequence_guarded_alike _ live

theorem segmentsOnStream_guarded_alike (steps segment : List Operator) {a b : Solutions}
    (h : Solutions.Alike l a b) :
    Solutions.Alike l (segmentsOnStream true a segment steps)
      (segmentsOnStream false b segment steps) := by
  induction steps generalizing segment a b with
  | nil =>
      rw [segmentsOnStream, segmentsOnStream]
      exact (alongSteps_guarded_alike _ a).trans (alongSteps_alike _ h)
  | cons step rest ih =>
      rw [segmentsOnStream, segmentsOnStream]
      split
      next =>
        refine ih [] ((Solutions.guarded_alike _).trans (onStream_alike step ?_))
        exact (alongSteps_guarded_alike _ a).trans (alongSteps_alike _ h)
      next => exact ih (step :: segment) h

/-! ## Queries -/

/--
Applies one operator to the stream that the ones before it have left: all that
it makes of a stack takes the place of the stack, unless it looks at the whole
stream.
-/
def inTurn (live : Solutions) (op : Operator) : Solutions :=
  if op.needsStream then op.onStream live else .through op live

theorem inTurn_alike (op : Operator) {a b : Solutions} (h : Solutions.Alike l a b) :
    Solutions.Alike l (op.onStream a) (inTurn b op) := by
  unfold inTurn
  split
  next => exact onStream_alike op h
  next hop => exact (onStream_alike op h).trans (onStream_alike_through op b (by simpa using hop))

theorem foldl_onStream_alike (steps : List Operator) {a b : Solutions}
    (h : Solutions.Alike l a b) :
    Solutions.Alike l (steps.foldl (fun live op => op.onStream live) a)
      (steps.foldl inTurn b) := by
  induction steps generalizing a b with
  | nil => exact h
  | cons op rest ih => exact ih (inTurn_alike op h)

theorem evaluate_of_operators {tokens : List Token} {steps : List Operator}
    (h : Token.operators l tokens = .ok steps) (ask : Connection) (stack : Stack) :
    ∃ live, evaluate (.calm l ask) tokens stack = .ok live ∧
      Solutions.Alike l live (steps.foldl (fun live op => op.onStream live) (.single stack)) := by
  refine ⟨stepsOnStream true (.guarded (.single stack)) steps, ?_, ?_⟩
  · simp only [evaluate, Surroundings.calm_aborted, Surroundings.calm_library, Bool.false_eq_true,
      if_false, h]
    rfl
  · exact (segmentsOnStream_guarded_alike steps [] (Solutions.guarded_alike _)).trans
      (segmentsOnStream_alike_foldl steps [] (.single stack))

/--
Driving steps by segments and frames brings, item for item and with the errors
in their places, what applying each step in turn to the whole stream brings;
and a query whose signal is not set brings the solutions of its operators one
after another, depth first.
-/
theorem evaluation_depthFirst (l : Library) :
    (∀ (steps : List Operator) (live : Solutions),
      Solutions.Alike l (stepsOnStream false live steps)
        (steps.foldl (fun live op => op.onStream live) live)) ∧
    ∀ (ask : Connection) (tokens : List Token) (stack : Stack),
      match Token.operators l tokens with
      | .ok steps => ∃ live, evaluate (.calm l ask) tokens stack = .ok live ∧
          Solutions.Alike l live (steps.foldl inTurn (.single stack))
      | .error error => evaluate (.calm l ask) tokens stack = .error error := by
  constructor
  · intro steps live
    exact segmentsOnStream_alike_foldl steps [] live
  · intro ask tokens stack
    have hevaluate : evaluate (.calm l ask) tokens stack =
        (Token.operators l tokens).map (stepsOnStream true (.guarded (.single stack))) := by
      simp only [evaluate, Surroundings.calm_aborted, Surroundings.calm_library,
        Bool.false_eq_true, if_false]
      cases Token.operators l tokens <;> rfl
    rw [hevaluate]
    cases Token.operators l tokens with
    | error error => rfl
    | ok steps =>
        refine ⟨_, rfl, ?_⟩
        refine (segmentsOnStream_guarded_alike steps []
          (Solutions.guarded_alike (.single stack))).trans ?_
        exact (segmentsOnStream_alike_foldl steps [] (.single stack)).trans
          (foldl_onStream_alike steps (.refl _))

end Operator

end StackQuery
