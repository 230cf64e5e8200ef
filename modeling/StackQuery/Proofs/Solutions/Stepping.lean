import StackQuery.Proofs.Streams.Alike
import StackQuery.Solutions.Step

/-!
# What the steps of a stream depend on

One step of a stream steps at most one stream inside it, and induction follows
that one.  Only some steps depend on what the store says: an end and a solution
come whatever it says, and a stream that is known to be spent works on to its
end without asking.
-/

namespace StackQuery

def Surroundings.calm (l : Library) (ask : Connection) : Surroundings := ⟨l, ask, false⟩

@[simp] theorem Surroundings.calm_library (l : Library) (ask : Connection) :
    (calm l ask).library = l := rfl

@[simp] theorem Surroundings.calm_aborted (l : Library) (ask : Connection) :
    (calm l ask).aborted = false := rfl

namespace Solutions

/-! ## Induction along the stream that is stepped -/

@[elab_as_elim] theorem stepInduction {motive : Solutions → Prop}
    (items : ∀ ready, motive (.items ready))
    (unending : ∀ item n, motive (.unending item n))
    (guarded : ∀ live, motive live → motive (.guarded live))
    (pushing : ∀ v live, motive live → motive (.pushing v live))
    (through : ∀ op live, motive live → motive (.through op live))
    (deep : ∀ operator arity live, motive live → motive (.deep operator arity live))
    (distinct : ∀ seen live, motive live → motive (.distinct seen live))
    (finished : ∀ plan, motive (.sequence plan []))
    (sequence : ∀ plan applied live below, motive live →
      motive (.sequence plan (⟨applied, live⟩ :: below)))
    (lists : ∀ use rest reading, motive (.lists use rest reading))
    (operators : ∀ use rest reading, motive (.operators use rest reading))
    (objects : ∀ subject predicate rest, motive (.objects subject predicate rest))
    (append : ∀ first second, motive first → motive (.append first second)) :
    ∀ live, motive live
  | .items ready => items ready
  | .unending item n => unending item n
  | .guarded live => guarded live (stepInduction items unending guarded pushing through deep
      distinct finished sequence lists operators objects append live)
  | .pushing v live => pushing v live (stepInduction items unending guarded pushing through deep
      distinct finished sequence lists operators objects append live)
  | .through op live => through op live (stepInduction items unending guarded pushing through deep
      distinct finished sequence lists operators objects append live)
  | .deep operator arity live => deep operator arity live (stepInduction items unending guarded
      pushing through deep distinct finished sequence lists operators objects append live)
  | .distinct seen live => distinct seen live (stepInduction items unending guarded pushing through
      deep distinct finished sequence lists operators objects append live)
  | .sequence plan [] => finished plan
  | .sequence plan (⟨applied, live⟩ :: below) => sequence plan applied live below
      (stepInduction items unending guarded pushing through deep distinct finished sequence lists
        operators objects append live)
  | .lists use rest reading => lists use rest reading
  | .operators use rest reading => operators use rest reading
  | .objects subject predicate rest => objects subject predicate rest
  | .append first second => append first second (stepInduction items unending guarded pushing
      through deep distinct finished sequence lists operators objects append first)

/-! ## Streams around streams -/

section Wraps

variable {s : Surroundings}

instance wraps_guarded : Wraps (step s) .guarded := by
  constructor <;> intros <;> simp only [step, *]

instance wraps_pushing {v : Value} : Wraps (step s) (.pushing v) := by
  constructor <;> intros <;> simp only [step, *]

instance wraps_through {op : Operator} : Wraps (step s) (.through op) := by
  constructor <;> intros <;> simp only [step, *]

instance wraps_deep {operator : String} {arity : Nat} : Wraps (step s) (.deep operator arity) := by
  constructor <;> intros <;> simp only [step, *]

instance wraps_distinct {seen : List Stack} : Wraps (step s) (.distinct seen) := by
  constructor <;> intros <;> simp only [step, *]

end Wraps

/-! ## Flat maps and concatenations -/

section Joins

variable {s : Surroundings} {op : Operator} {live next first second : Solutions}

theorem step_through_ok {stack : Stack} (h : step s live = .item (.ok stack) next) :
    step s (.through op live) =
      .working (.append (op.apply s.library stack) (.through op next)) := by
  simp only [step, h]

theorem step_through_error {error : EvalError} (h : step s live = .item (.error error) next) :
    step s (.through op live) = .item (.error error) (.through op next) := by
  simp only [step, h]

theorem step_append_item {item : Item} (h : step s first = .item item next) :
    step s (.append first second) = .item item (.append next second) := by
  simp only [step, h]

theorem step_append_working (h : step s first = .working next) :
    step s (.append first second) = .working (.append next second) := by
  simp only [step, h]

theorem step_append_waiting (h : step s first = .waiting) :
    step s (.append first second) = .waiting := by
  simp only [step, h]

theorem step_append_ended (h : step s first = .ended) :
    step s (.append first second) = .working second := by
  simp only [step, h]

end Joins

/-! ## The topmost frame -/

section Frames

variable {s : Surroundings} {plan : Plan} {applied : Nat} {live next : Solutions}
  {below : List (Frame Solutions)}

theorem step_sequence_working (h : step s live = .working next) :
    step s (.sequence plan (⟨applied, live⟩ :: below)) =
      .working (.sequence plan (⟨applied, next⟩ :: below)) := by
  simp only [step, h, Frame.advance, Progress.mapState]

theorem step_sequence_waiting (h : step s live = .waiting) :
    step s (.sequence plan (⟨applied, live⟩ :: below)) = .waiting := by
  simp only [step, h, Frame.advance, Progress.mapState]

theorem step_sequence_ended (h : step s live = .ended) :
    step s (.sequence plan (⟨applied, live⟩ :: below)) = .working (.sequence plan below) := by
  simp only [step, h, Frame.advance, Progress.mapState]

theorem step_sequence_error {error : EvalError} (h : step s live = .item (.error error) next) :
    step s (.sequence plan (⟨applied, live⟩ :: below)) =
      .item (.error error) (.sequence plan (⟨applied, next⟩ :: below)) := by
  simp only [step, h, Frame.advance, Progress.mapState]

theorem step_sequence_passed {stack : Stack} (h : step s live = .item (.ok stack) next)
    (happlied : applied = plan.route.length) :
    step s (.sequence plan (⟨applied, live⟩ :: below)) =
      .item (.ok stack) (.sequence plan (⟨applied, next⟩ :: below)) := by
  simp only [step, h, Frame.advance, if_pos happlied, Progress.mapState]

/-- The frames below the one that an item of the topmost frame opens. -/
def kept (applied : Nat) (next : Solutions) (below : List (Frame Solutions)) :
    List (Frame Solutions) :=
  if next.isSpent then below else ⟨applied, next⟩ :: below

theorem step_sequence_opens {stack : Stack} (h : step s live = .item (.ok stack) next)
    (happlied : applied ≠ plan.route.length) :
    step s (.sequence plan (⟨applied, live⟩ :: below)) = .working (.sequence plan
      (⟨applied + 1, plan.run s.library applied stack⟩ :: kept applied next below)) := by
  simp only [step, h, Frame.advance, if_neg happlied, Progress.mapState, kept]

end Frames

end Solutions

/-! ## Ends -/

theorem ListReading.ended_of_ended {ask ask' : Connection} {reading : ListReading}
    (h : reading.step ask = .ended) : reading.step ask' = .ended := by
  fun_cases ListReading.step ask reading <;> simp_all [ListReading.step]

theorem OperatorReading.ended_of_ended {l l' : Library} {ask ask' : Connection}
    {reading : OperatorReading} (h : reading.step l ask = .ended) :
    reading.step l' ask' = .ended := by
  cases reading with
  | done => rfl
  | once result => cases h
  | programs lists =>
      cases hstep : lists.step ask with
      | ended => simp only [step, ListReading.ended_of_ended hstep]
      | item result next => simp [step, hstep] at h
      | working next => simp [step, hstep] at h
      | waiting => simp [step, hstep] at h

theorem ListReading.ended_of_isSpent {ask : Connection} {reading : ListReading}
    (h : reading.isSpent) : reading.step ask = .ended := by
  fun_cases ListReading.isSpent reading with
  | case1 => rfl
  | case2 pending =>
      obtain rfl := List.isEmpty_iff.mp h
      rfl
  | case3 reading hdone hwalk => simp [isSpent] at h

theorem OperatorReading.ended_of_isSpent {l : Library} {ask : Connection}
    {reading : OperatorReading} (h : reading.isSpent) : reading.step l ask = .ended := by
  cases reading with
  | done => rfl
  | once result => cases h
  | programs lists => simp only [step, ListReading.ended_of_isSpent h]

namespace Solutions

/-- A stream that has ended has ended for good. -/
theorem ended_of_ended {s s' : Surroundings} {live : Solutions} (h : step s live = .ended) :
    step s' live = .ended := by
  induction live using stepInduction with
  | items ready =>
      cases ready with
      | nil => rfl
      | cons item rest => cases h
  | unending item n => cases h
  | finished plan => rfl
  | guarded live ih | pushing v live ih | through op live ih | deep operator arity live ih
  | distinct seen live ih =>
      cases hlive : step s live with
      | item result next => cases result <;> grind [step]
      | working next =>
          rw [Wraps.working hlive] at h
          cases h
      | waiting =>
          rw [Wraps.waiting hlive] at h
          cases h
      | ended => exact Wraps.ended (ih hlive)
  | sequence plan applied live below ih =>
      cases hlive : step s live with
      | item result next =>
          cases result with
          | error error =>
              rw [step_sequence_error hlive] at h
              cases h
          | ok stack =>
              by_cases hpassed : applied = plan.route.length
              · rw [step_sequence_passed hlive hpassed] at h
                cases h
              · rw [step_sequence_opens hlive hpassed] at h
                cases h
      | working next =>
          rw [step_sequence_working hlive] at h
          cases h
      | waiting =>
          rw [step_sequence_waiting hlive] at h
          cases h
      | ended =>
          rw [step_sequence_ended hlive] at h
          cases h
  | lists use rest reading =>
      have hreading : reading.step s.ask = .ended := by
        revert h
        simp only [step]
        split <;> simp_all
      simp only [step, ListReading.ended_of_ended hreading]
  | operators use rest reading =>
      have hreading : reading.step s.library s.ask = .ended := by
        revert h
        simp only [step]
        split <;> simp_all
      simp only [step, OperatorReading.ended_of_ended hreading]
  | objects subject predicate rest =>
      revert h
      simp only [step]
      split <;> simp
  | append first second ih =>
      revert h
      simp only [step]
      split <;> simp

/-! ## Solutions -/

variable {l : Library} {ask : Connection} {live next : Solutions} {stack : Stack} {n : Nat}

/-- A solution that is next comes whatever the store says. -/
theorem item_of_item (h : step (.calm l ask) live = .item (.ok stack) next) (ask' : Connection) :
    step (.calm l ask') live = .item (.ok stack) next := by
  induction live using stepInduction generalizing stack next with
  | items ready =>
      cases ready with
      | nil => cases h
      | cons item rest => exact h
  | unending item n => exact h
  | finished plan => cases h
  | guarded live ih | pushing v live ih | through op live ih | deep operator arity live ih
  | distinct seen live ih =>
      cases hlive : step (.calm l ask) live with
      | item result rest =>
          cases result with
          | error error => simp [step, hlive, Except.map] at h
          | ok inner =>
              have hcalm := ih hlive
              simp only [step, hlive, hcalm, Surroundings.calm_aborted,
                Surroundings.calm_library] at h ⊢
              exact h
      | working rest =>
          rw [Wraps.working hlive] at h
          cases h
      | waiting =>
          rw [Wraps.waiting hlive] at h
          cases h
      | ended =>
          rw [Wraps.ended hlive] at h
          cases h
  | sequence plan applied live below ih =>
      cases hlive : step (.calm l ask) live with
      | item result rest =>
          cases result with
          | error error =>
              rw [step_sequence_error hlive] at h
              cases h
          | ok inner =>
              by_cases hpassed : applied = plan.route.length
              · rw [step_sequence_passed hlive hpassed] at h
                rw [step_sequence_passed (ih hlive) hpassed, h]
              · rw [step_sequence_opens hlive hpassed] at h
                cases h
      | working rest =>
          rw [step_sequence_working hlive] at h
          cases h
      | waiting =>
          rw [step_sequence_waiting hlive] at h
          cases h
      | ended =>
          rw [step_sequence_ended hlive] at h
          cases h
  | lists use rest reading =>
      cases hreading : reading.step ask with
      | item result later => cases result <;> simp [step, hreading, Surroundings.calm] at h
      | working later => simp [step, hreading, Surroundings.calm] at h
      | waiting => simp [step, hreading, Surroundings.calm] at h
      | ended => simp [step, hreading, Surroundings.calm] at h
  | operators use rest reading =>
      cases hreading : reading.step l ask with
      | item result later => cases result <;> simp [step, hreading, Surroundings.calm] at h
      | working later => simp [step, hreading, Surroundings.calm] at h
      | waiting => simp [step, hreading, Surroundings.calm] at h
      | ended => simp [step, hreading, Surroundings.calm] at h
  | objects subject predicate rest =>
      simp only [step] at h
      split at h <;> cases h
  | append first second ih =>
      cases hfirst : step (.calm l ask) first with
      | item result rest =>
          rw [step_append_item hfirst] at h
          cases h
          exact step_append_item (ih hfirst)
      | working rest =>
          rw [step_append_working hfirst] at h
          cases h
      | waiting =>
          rw [step_append_waiting hfirst] at h
          cases h
      | ended =>
          rw [step_append_ended hfirst] at h
          cases h

/-! ## Streams without items -/

/-- A stream that works on for a number of steps and then ends, whatever the store says. -/
inductive Exhausted (l : Library) : Nat → Solutions → Prop where
  | ended {live : Solutions} (h : ∀ ask, step (.calm l ask) live = .ended) : Exhausted l 0 live
  | working {n : Nat} {live next : Solutions} (h : ∀ ask, step (.calm l ask) live = .working next)
      (rest : Exhausted l n next) : Exhausted l (n + 1) live

theorem Exhausted.wrap (wrap : Solutions → Solutions)
    [∀ ask, Wraps (step (.calm l ask)) wrap] (h : Exhausted l n live) :
    Exhausted l n (wrap live) := by
  induction h with
  | ended h => exact .ended fun ask => Wraps.ended (h ask)
  | working h _ ih => exact .working (fun ask => Wraps.working (h ask)) ih

theorem Exhausted.append {m : Nat} {first second : Solutions} (h : Exhausted l n first)
    (h' : Exhausted l m second) : Exhausted l (n + 1 + m) (.append first second) := by
  induction h with
  | ended h =>
      rw [Nat.add_comm 0, Nat.add_comm]
      exact .working (fun ask => step_append_ended (h ask)) h'
  | working h _ ih =>
      rw [Nat.add_right_comm _ 1 m]
      exact .working (fun ask => step_append_working (h ask)) ih

/-- What is known to be spent brings no items. -/
theorem exhausted_of_isSpent (h : live.isSpent) : ∃ n, Exhausted l n live := by
  -- Both streams of a concatenation are spent, and `stepInduction` would follow only the first.
  fun_induction isSpent live with
  | case1 ready =>
      obtain rfl := List.isEmpty_iff.mp h
      exact ⟨0, .ended fun ask => rfl⟩
  | case2 live ih =>
      obtain ⟨n, hn⟩ := ih h
      exact ⟨n, hn.wrap _⟩
  | case3 v live ih =>
      obtain ⟨n, hn⟩ := ih h
      exact ⟨n, hn.wrap _⟩
  | case4 operator arity live ih =>
      obtain ⟨n, hn⟩ := ih h
      exact ⟨n, hn.wrap _⟩
  | case5 seen live ih =>
      obtain ⟨n, hn⟩ := ih h
      exact ⟨n, hn.wrap _⟩
  | case6 plan frames =>
      obtain rfl := List.isEmpty_iff.mp h
      exact ⟨0, .ended fun ask => by simp only [step]⟩
  | case7 use rest reading =>
      exact ⟨0, .ended fun ask => by
        simp only [step, Surroundings.calm, ListReading.ended_of_isSpent h]⟩
  | case8 use rest reading =>
      exact ⟨0, .ended fun ask => by
        simp only [step, Surroundings.calm, OperatorReading.ended_of_isSpent h]⟩
  | case9 first second ih ih' =>
      obtain ⟨hfirst, hsecond⟩ := Bool.and_eq_true_iff.mp h
      obtain ⟨n, hn⟩ := ih hfirst
      obtain ⟨m, hm⟩ := ih' hsecond
      exact ⟨n + 1 + m, hn.append hm⟩
  | case10 live => cases h

end Solutions

end StackQuery
