import StackQuery.Proofs.Value.Order
import StackQuery.Solutions.Step

/-!
# Streams above a stack

A stream is put above a stack by putting every stack in it above that stack:
the solutions at hand, those seen before, and what is left of a stack once the
arguments have been taken off.  Applying an operator to a whole stream goes
along with this, and so does applying it to one stack that has all the
arguments.
-/

namespace StackQuery

/-! ## Stacks -/

theorem Stack.length_eq_of_same {a b : Stack} (h : a.same b) : a.length = b.length := by
  rw [Stack.same, beq_iff_eq] at h
  induction a generalizing b with
  | nil =>
      cases b with
      | nil => rfl
      | cons y ys => simp [Value.orderLists] at h
  | cons x xs ih =>
      cases b with
      | nil => simp [Value.orderLists] at h
      | cons y ys =>
          rw [Value.orderLists, Ordering.then_eq_eq] at h
          rw [List.length_cons, List.length_cons, ih h.2]

/-- What lies beneath both stacks does not tell them apart, nor does it make them the same. -/
theorem Stack.same_append (a b t : Stack) : Stack.same (a ++ t) (b ++ t) = Stack.same a b := by
  by_cases hlength : a.length = b.length
  · unfold Stack.same
    induction a generalizing b with
    | nil =>
        obtain rfl := List.eq_nil_of_length_eq_zero hlength.symm
        have hself : Value.orderLists t t = .eq := Std.ReflCmp.compare_self
        rw [List.nil_append, hself]
        rfl
    | cons x xs ih =>
        cases b with
        | nil => cases hlength
        | cons y ys =>
            have hrest := ih ys (Nat.succ.inj hlength)
            simp only [List.cons_append, Value.orderLists]
            cases x.order y with
            | lt => rfl
            | gt => rfl
            | eq => exact hrest
  · have hne : (a ++ t).length ≠ (b ++ t).length := by simpa using hlength
    rw [Bool.eq_false_iff.mpr fun h => hlength (Stack.length_eq_of_same h),
      Bool.eq_false_iff.mpr fun h => hne (Stack.length_eq_of_same h)]

namespace Solutions

/-! ## Streams -/

mutual

/-- The stream with a stack beneath every stack in it. -/
@[simp] def above (t : Stack) : Solutions → Solutions
  | .items ready => .items (ready.map (Except.map (· ++ t)))
  | .unending item n => .unending (fun n => (item n).map (· ++ t)) n
  | .guarded live => .guarded (above t live)
  | .pushing v live => .pushing v (above t live)
  | .through op live => .through op (above t live)
  | .deep operator arity live => .deep operator arity (above t live)
  | .distinct seen live => .distinct (seen.map (· ++ t)) (above t live)
  | .sequence plan frames => .sequence plan (aboveFrames t frames)
  | .lists use rest reading => .lists use (rest ++ t) reading
  | .operators use rest reading => .operators use (rest ++ t) reading
  | .objects subject predicate rest => .objects subject predicate (rest ++ t)
  | .append first second => .append (above t first) (above t second)

@[simp] def aboveFrames (t : Stack) : List (Frame Solutions) → List (Frame Solutions)
  | [] => []
  | ⟨applied, live⟩ :: below => ⟨applied, above t live⟩ :: aboveFrames t below

end

variable {t : Stack}

@[simp] theorem above_single (stack : Stack) : above t (.single stack) = .single (stack ++ t) := by
  rw [single, above]
  rfl

@[simp] theorem above_fail (error : EvalError) : above t (.fail error) = .fail error := by
  rw [fail, above]
  rfl

@[simp] theorem above_none : above t .none = .none := by
  rw [none, above]
  rfl

@[simp] theorem isSpent_above : ∀ live, (above t live).isSpent = live.isSpent
  | .items ready => by rw [above, isSpent, isSpent, List.isEmpty_map]
  | .guarded live => by rw [above, isSpent, isSpent, isSpent_above live]
  | .pushing _ live => by rw [above, isSpent, isSpent, isSpent_above live]
  | .deep _ _ live => by rw [above, isSpent, isSpent, isSpent_above live]
  | .distinct _ live => by rw [above, isSpent, isSpent, isSpent_above live]
  | .append first second => by
      rw [above, isSpent, isSpent, isSpent_above first, isSpent_above second]
  | .sequence _ [] => rfl
  | .sequence _ (_ :: _) => rfl
  | .lists _ _ _ => rfl
  | .operators _ _ _ => rfl
  | .unending _ _ => rfl
  | .through _ _ => rfl
  | .objects _ _ _ => rfl

theorem above_andThen (first second : Solutions) :
    above t (first.andThen second) = (above t first).andThen (above t second) := by
  unfold andThen
  rw [isSpent_above, apply_ite (above t), above]

theorem above_along (plan : Plan) (live : Solutions) :
    above t (live.along plan) = (above t live).along plan := by
  unfold along
  rw [apply_ite (above t), above, aboveFrames, aboveFrames]

@[simp] theorem above_ofStacks (all : List Stack) :
    above t (.ofStacks all) = .ofStacks (all.map (· ++ t)) := by
  rw [ofStacks, above, ofStacks, List.map_map, List.map_map]
  rfl

theorem above_orFail {α : Type} (result : Except EvalError α) (f : α → Solutions) :
    above t (Action.orFail (result.map f)) = Action.orFail (result.map fun a => above t (f a)) := by
  cases result with
  | ok a => rfl
  | error error => exact above_fail error

theorem above_push (rest : Stack) (v : Value) :
    above t (Action.push rest v) = Action.push (rest ++ t) v := above_single _

theorem above_pushSome (rest : Stack) (v : Option Value) :
    above t (Action.pushSome rest v) = Action.pushSome (rest ++ t) v := by
  cases v with
  | none => exact above_none
  | some v => exact above_push rest v

end Solutions

namespace Operator

open Solutions (above above_along)

variable {t : Stack}

theorem above_alongSteps (guarded : Bool) (steps : List Operator) (live : Solutions) :
    above t (alongSteps guarded steps live) = alongSteps guarded steps (above t live) :=
  above_along _ live

mutual

/-- An operator looks no deeper into a stream that it is applied to than into the stacks in it. -/
theorem above_onStream : ∀ (op : Operator) (live : Solutions),
    above t (op.onStream live) = op.onStream (above t live)
  | .primitive p, live => by
      rw [onStream, onStream]
      split
      next => rw [above, above, List.map_nil]
      next => rw [above]
  | .composed steps _, live => by
      rw [onStream, onStream]
      exact above_segmentsOnStream false steps [] live
  | .inverted _ inverse, live => by
      rw [onStream, onStream]
      exact above_onStream inverse live
  | .constant v, live => by rw [onStream, onStream, above]

theorem above_segmentsOnStream (guarded : Bool) : ∀ (steps segment : List Operator)
    (live : Solutions), above t (segmentsOnStream guarded live segment steps) =
      segmentsOnStream guarded (above t live) segment steps
  | [], segment, live => by
      rw [segmentsOnStream, segmentsOnStream]
      exact above_alongSteps guarded _ live
  | step :: rest, segment, live => by
      have hseen : above t (step.onStream (alongSteps guarded segment.reverse live)) =
          step.onStream (alongSteps guarded segment.reverse (above t live)) := by
        rw [above_onStream step, above_alongSteps]
      rw [segmentsOnStream, segmentsOnStream]
      split
      next =>
        cases guarded with
        | false => exact (above_segmentsOnStream false rest [] _).trans (by rw [← hseen]; rfl)
        | true =>
            refine (above_segmentsOnStream true rest [] _).trans ?_
            rw [← hseen]
            rfl
      next => exact above_segmentsOnStream guarded rest (step :: segment) live

end

theorem above_onStreamTimes (op : Operator) (count : Nat) (live : Solutions) :
    above t (op.onStreamTimes count live) = op.onStreamTimes count (above t live) := by
  induction count generalizing live with
  | zero => rfl
  | succ count ih => rw [onStreamTimes, onStreamTimes, ih, above_onStream]

theorem above_applyTimes (op : Operator) (stack : Stack) (count : Nat) :
    above t (op.applyTimes stack count) = op.applyTimes (stack ++ t) count := by
  unfold applyTimes
  split
  next => rw [above_onStreamTimes, Solutions.above_single]
  next => rw [above_along, Solutions.above_single]

end Operator

/-! ## Arguments -/

theorem takeArguments_append {n : Nat} {arguments taken : List Value} {stack rest : Stack}
    (h : takeArguments n arguments stack = .ok (taken, rest)) (t : Stack) :
    takeArguments n arguments (stack ++ t) = .ok (taken, rest ++ t) := by
  induction n generalizing arguments stack with
  | zero =>
      cases h
      rfl
  | succ n ih =>
      cases stack with
      | nil => cases h
      | cons v below => exact ih h

namespace Action

open Solutions (above)

variable {t : Stack}

theorem above_arithmetic (f : Number → Number → Option Number) (x y : Value) (rest : Stack) :
    above t (arithmetic f x y rest) = arithmetic f x y (rest ++ t) := by
  unfold arithmetic
  cases x.readNumber with
  | error error => exact Solutions.above_fail error
  | ok a =>
      cases y.readNumber with
      | error error => exact Solutions.above_fail error
      | ok b => exact Solutions.above_pushSome rest _

/-- An action makes the same of its arguments, whatever lies beneath. -/
theorem above_perform (l : Library) (rest : Stack) (action : Action) (arguments : List Value) :
    above t (action.perform l rest arguments) = action.perform l (rest ++ t) arguments := by
  fun_cases perform l rest action arguments
  -- Repeating looks at a count first, and counting up is a function; the rest only pushes.
  case case10 p n =>
    rw [perform]
    cases n.readNumber with
    | error error => exact Solutions.above_fail error
    | ok n =>
        simp only [bind, Except.bind, orFail]
        split
        next => rw [above]
        next => exact Solutions.above_none
  case case32 => rfl
  all_goals
    simp only [perform, above, Solutions.above_single, Solutions.above_none,
      Solutions.above_push, Solutions.above_pushSome, Solutions.above_ofStacks,
      Solutions.above_orFail, above_arithmetic, List.cons_append, List.map_map,
      Function.comp_def]

end Action

/-! ## Applying operators -/

namespace Primitive

open Solutions (above)

/-- A stack that has the arguments may lie above another one. -/
theorem above_apply (l : Library) (p : Primitive) (stack t : Stack) :
    p.apply l (stack ++ t) = above t (p.apply l stack) ∨
      ∃ found, p.apply l stack = .fail (p.arityError found) := by
  unfold apply
  split
  next =>
    by_cases hdeep : stack.length < p.arity
    · exact .inr ⟨stack.length, if_pos hdeep⟩
    · have hdeeper : ¬ (stack ++ t).length < p.arity := by
        rw [List.length_append]
        omega
      rw [if_neg hdeep, if_neg hdeeper, above, Solutions.above_single, List.map_nil]
      exact .inl rfl
  next =>
    cases htaken : takeArguments p.arity [] stack with
    | error found => exact .inr ⟨found, rfl⟩
    | ok taken =>
        obtain ⟨arguments, rest⟩ := taken
        rw [takeArguments_append htaken]
        exact .inl (Action.above_perform l rest p.action arguments).symm

end Primitive

namespace Operator

open Solutions (above)

/-- An operator makes the same of a stack, whatever lies beneath, unless items are missing. -/
theorem above_apply (l : Library) (stack t : Stack) (op : Operator) :
    op.apply l (stack ++ t) = above t (op.apply l stack) ∨
      ∃ p found, op.apply l stack = .fail (Primitive.arityError p found) := by
  cases op with
  | primitive p =>
      rw [apply, apply]
      exact (p.above_apply l stack t).imp_right fun h => ⟨p, h⟩
  | composed steps source =>
      rw [apply, apply, stepsOnStream, stepsOnStream, above_segmentsOnStream,
        Solutions.above_single]
      exact .inl rfl
  | inverted forward inverse =>
      rw [apply, apply]
      exact above_apply l stack t inverse
  | constant v =>
      rw [apply, apply, Solutions.above_single]
      exact .inl rfl

end Operator

end StackQuery
