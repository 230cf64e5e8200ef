import StackQuery.Proofs.Evaluation.Substitution

/-!
# One stack, whole streams, and repetition

An operator is applied to one stack in one way and to a whole stream in another.
The two agree: a single stack is a stream of one, and an operator that does not
look at the whole stream replaces every stack of it by what it makes of that
stack alone.  Repeating an operator has two ways as well, of which the operator
takes one.  Both bring what a composition of as many copies of it brings.
-/

namespace StackQuery

namespace Solutions

variable {l : Library}

/-! ## Streams of one stack -/

/-- The flat map of an operator over one stack is the operator applied to that stack. -/
theorem through_single_alike (op : Operator) (stack : Stack) :
    Alike l (.through op (.single stack)) (op.apply l stack) := by
  have hstep (ask : Connection) : step (.calm l ask) (.through op (.single stack)) =
      .working (.append (op.apply l stack) (.through op .none)) := rfl
  exact .head hstep (append_alike_of_ended (fun s => rfl) _)

theorem single_alike_deep {operator : String} {arity : Nat} {stack : Stack}
    (h : arity ≤ stack.length) :
    Alike l (.single stack) (.deep operator arity (.single stack)) := by
  have hstep (ask : Connection) : calmStep l ask (.deep operator arity (.single stack)) =
      .item (.ok stack) (.deep operator arity .none) := by
    simp only [calmStep, step, single, if_neg (Nat.not_lt.mpr h), none]
  exact .item (fun _ => rfl) hstep (alike_of_ended (fun _ => rfl) fun _ => rfl)

theorem fail_alike_deep {operator : String} {arity : Nat} {stack : Stack}
    (h : stack.length < arity) :
    Alike l (.fail (.arity operator arity stack.length)) (.deep operator arity (.single stack)) := by
  have hstep (ask : Connection) : calmStep l ask (.deep operator arity (.single stack)) =
      .item (.error (.arity operator arity stack.length)) (.deep operator arity .none) := by
    simp only [calmStep, step, single, if_pos h, none]
  exact .item (fun _ => rfl) hstep (alike_of_ended (fun _ => rfl) fun _ => rfl)

theorem fail_alike_distinct (error : EvalError) (seen : List Stack) :
    Alike l (.fail error) (.distinct seen (.fail error)) := by
  have hend : Alike l .none (.distinct seen .none) := alike_of_ended (fun _ => rfl) fun _ => rfl
  exact .item (fun _ => rfl) (fun _ => rfl) hend

/-! ## Sequences by their routes -/

/-- A route matters to a sequence by its length and by what its steps make of stacks. -/
theorem sequence_alike_of_run {plan plan' : Plan} (hlength : plan.route.length = plan'.route.length)
    (hrun : plan.run l = plan'.run l) (frames : List (Frame Solutions)) :
    Alike l (.sequence plan frames) (.sequence plan' frames) := by
  have hframes := sequence_alike_frames (l := l) plan frames
  rw [hlength, hrun] at hframes
  exact hframes.trans (sequence_alike_frames plan' frames).symm

theorem along_repeated_alike (op : Operator) (count : Nat) (live : Solutions) :
    Alike l (live.along ⟨.repeated op count, false⟩)
      (Operator.alongSteps false (List.replicate count op) live) := by
  have hlength : Route.length (.repeated op count) =
      Route.length (.steps (List.replicate count op).toArray) := by simp [Route.length]
  unfold Operator.alongSteps along
  rw [hlength]
  split
  next => exact .refl live
  next =>
    refine sequence_alike_of_run hlength ?_ _
    funext i stack
    simp [Plan.run, Route.operator?, Array.getElem?_replicate]

end Solutions

namespace Operator

variable {l : Library}

/-! ## One stack -/

theorem primitive_apply_alike (p : Primitive) (stack : Stack) :
    Solutions.Alike l (p.apply l stack) ((Operator.primitive p).onStream (.single stack)) := by
  cases hneeds : p.action.needsStream with
  | false =>
      rw [onStream, hneeds]
      exact (Solutions.through_single_alike (.primitive p) stack).symm
  | true =>
      rw [onStream, Primitive.apply, if_pos hneeds, if_pos hneeds]
      split
      next hshallow =>
        exact (Solutions.fail_alike_distinct _ []).trans
          (Solutions.AlikeOver.distinct [] (Solutions.fail_alike_deep hshallow))
      next hdeep =>
        exact Solutions.AlikeOver.distinct [] (Solutions.single_alike_deep (Nat.le_of_not_lt hdeep))

/-- Applied to one stack, an operator brings what it brings from the stream of that stack. -/
theorem apply_alike_onStream : ∀ (op : Operator) (stack : Stack),
    Solutions.Alike l (op.apply l stack) (op.onStream (.single stack))
  | .primitive p, stack => by
      rw [apply]
      exact primitive_apply_alike p stack
  | .composed steps _, stack => by
      rw [apply, onStream]
      exact .refl _
  | .inverted _ inverse, stack => by
      rw [apply, onStream]
      exact apply_alike_onStream inverse stack
  | .constant v, stack => by
      rw [onStream]
      exact ((Solutions.pushing_alike v _).trans
        (Solutions.through_single_alike (.constant v) stack)).symm

/--
An operator makes the same of one stack and of the stream of that stack alone.
If it does not look at the whole stream, then all that it makes of a stack takes
the place of the stack in any stream, and errors stay where they are.
-/
theorem apply_and_onStream_agree (l : Library) (op : Operator) :
    (∀ stack, Solutions.Alike l (op.apply l stack) (op.onStream (.single stack))) ∧
    (op.needsStream = false → ∀ live : Solutions,
      Alike (Solutions.calmStep l)
        (fun ask => Flattened.step (Solutions.calmStep l ask) (Solutions.calmStep l ask) (op.apply l))
        (op.onStream live) ⟨live, none⟩) := by
  refine ⟨apply_alike_onStream op, fun hop live => ?_⟩
  exact (onStream_alike_through op live hop).trans (Solutions.through_alike_flattened op live)

/-! ## Repetition -/

theorem anyNeedsStream_replicate {op : Operator} (h : op.needsStream = false) (count : Nat) :
    anyNeedsStream (List.replicate count op) = false := by
  induction count with
  | zero => rfl
  | succ count ih => rw [List.replicate_succ, anyNeedsStream, h, ih, Bool.or_self]

theorem onStreamTimes_eq_inOrder (op : Operator) (count : Nat) (live : Solutions) :
    op.onStreamTimes count live = inOrder (List.replicate count op) live := by
  induction count generalizing live with
  | zero => rfl
  | succ count ih => rw [onStreamTimes, ih, List.replicate_succ, inOrder, inOrder, List.foldl_cons]

/-- Both ways of repeating an operator bring what as many copies of it bring in a row. -/
theorem applyTimes_alike_inOrder (op : Operator) (stack : Stack) (count : Nat) :
    Solutions.Alike l (op.applyTimes stack count)
      (inOrder (List.replicate count op) (.single stack)) := by
  unfold applyTimes
  split
  next =>
    rw [onStreamTimes_eq_inOrder]
    exact .refl _
  next hop =>
    have hsteps := anyNeedsStream_replicate (Bool.eq_false_iff.mpr hop) count
    refine (Solutions.along_repeated_alike op count _).trans ?_
    have hcomposed := composed_apply_alike (l := l) (List.replicate count op) none stack
    rw [apply, stepsOnStream, segmentsOnStream_eq_alongSteps _ _ _ _ hsteps] at hcomposed
    exact hcomposed

theorem applyTimes_alike_compose (op : Operator) (stack : Stack) (count : Nat) :
    Solutions.Alike l (op.applyTimes stack count)
      ((compose (List.replicate count op)).apply l stack) :=
  (applyTimes_alike_inOrder op stack count).trans (composed_apply_alike _ none stack).symm

theorem applyTimes_zero (op : Operator) (stack : Stack) : op.applyTimes stack 0 = .single stack := by
  unfold applyTimes
  split <;> rfl

/-- More repetitions are made of every stack that the first ones have brought. -/
theorem applyTimes_add_alike {op : Operator} (hop : op.needsStream = false) (stack : Stack)
    (first more : Nat) :
    Alike (Solutions.calmStep l)
      (fun ask => Flattened.step (Solutions.calmStep l ask) (Solutions.calmStep l ask)
        fun stack => op.applyTimes stack more)
      (op.applyTimes stack (first + more)) ⟨op.applyTimes stack first, none⟩ := by
  have hall := applyTimes_alike_inOrder (l := l) op stack (first + more)
  rw [← List.replicate_append_replicate, inOrder, List.foldl_append] at hall
  have hfirst := (applyTimes_alike_inOrder (l := l) op stack first).symm
  have hmore : Solutions.Alike l
      (inOrder (List.replicate more op) (inOrder (List.replicate first op) (.single stack)))
      (inOrder (List.replicate more op) (op.applyTimes stack first)) :=
    foldl_alike (fun op _ _ _ => onStream_alike op) hfirst
  have hflat := foldl_alike_through (l := l) _ (anyNeedsStream_replicate hop more)
    (op.applyTimes stack first)
  refine hall.trans (hmore.trans (hflat.trans ?_))
  refine (Solutions.through_alike_flattened _ _).trans (Flattened.alike_of_run ?_ _)
  exact fun stack => (applyTimes_alike_compose op stack more).symm

/--
Repeating any operator brings what the composition of as many copies of it
brings.  So no repetition leaves the stack as it is, and an operator that does
not look at the whole stream may be repeated in two parts, the second of them on
every stack that the first has brought.
-/
theorem repetition_is_composition (l : Library) (op : Operator) :
    (∀ stack count, Solutions.Alike l (op.applyTimes stack count)
      ((compose (List.replicate count op)).apply l stack)) ∧
    (∀ stack, op.applyTimes stack 0 = .single stack) ∧
    (op.needsStream = false → ∀ stack first more,
      Alike (Solutions.calmStep l)
        (fun ask => Flattened.step (Solutions.calmStep l ask) (Solutions.calmStep l ask)
          fun stack => op.applyTimes stack more)
        (op.applyTimes stack (first + more)) ⟨op.applyTimes stack first, none⟩) :=
  ⟨applyTimes_alike_compose op, applyTimes_zero op, fun hop => applyTimes_add_alike hop⟩

end Operator

end StackQuery
