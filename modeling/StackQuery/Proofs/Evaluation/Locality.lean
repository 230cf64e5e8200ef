import StackQuery.Evaluation
import StackQuery.Proofs.Library.Standard
import StackQuery.Proofs.Solutions.Above
import StackQuery.Proofs.Solutions.Stepping

/-!
# What lies beneath a stack does not matter

A query that runs without arity errors runs the same above any other stack.
The two runs go side by side, step by step, until an operator misses an item in
the first one.  From then on the first run owes an arity error, which nothing
drops, so that it comes out before the end.
-/

namespace StackQuery

namespace Solutions

/-! ## Errors that are owed -/

/-- An arity error is among the items at hand. -/
inductive Owes : Solutions → Prop where
  | items {ready : List Item} {error : EvalError} (h : .error error ∈ ready)
      (herror : error.kind = .arity) : Owes (.items ready)
  | guarded {live : Solutions} (h : Owes live) : Owes (.guarded live)
  | pushing {v : Value} {live : Solutions} (h : Owes live) : Owes (.pushing v live)
  | through {op : Operator} {live : Solutions} (h : Owes live) : Owes (.through op live)
  | deep {operator : String} {arity : Nat} {live : Solutions} (h : Owes live) :
      Owes (.deep operator arity live)
  | distinct {seen : List Stack} {live : Solutions} (h : Owes live) : Owes (.distinct seen live)
  | sequence {plan : Plan} {frames : List (Frame Solutions)} {f : Frame Solutions}
      (hf : f ∈ frames) (h : Owes f.live) : Owes (.sequence plan frames)
  | first {first second : Solutions} (h : Owes first) : Owes (.append first second)
  | second {first second : Solutions} (h : Owes second) : Owes (.append first second)

theorem isSpent_of_owes {live : Solutions} (h : Owes live) : live.isSpent = false := by
  induction h with
  | @items ready error h =>
      cases ready with
      | nil => cases h
      | cons item rest => rfl
  | guarded _ ih | pushing _ ih | deep _ ih | distinct _ ih => rw [isSpent, ih]
  | through => rfl
  | @sequence plan frames f hf =>
      cases frames with
      | nil => cases hf
      | cons top below => rfl
  | first _ ih => rw [isSpent, ih, Bool.false_and]
  | second _ ih => rw [isSpent, ih, Bool.and_false]

theorem owes_fail {error : EvalError} (h : error.kind = .arity) : Owes (.fail error) :=
  .items List.mem_cons_self h

theorem owes_andThen {first second : Solutions} (h : Owes first) :
    Owes (first.andThen second) := by
  unfold andThen
  split
  next => exact h
  next => exact .first h

theorem owes_kept {applied : Nat} {next : Solutions} {below : List (Frame Solutions)}
    (h : Owes next) : ⟨applied, next⟩ ∈ kept applied next below := by
  rw [kept, if_neg (by simp [isSpent_of_owes h])]
  exact List.mem_cons_self

theorem mem_kept {applied : Nat} {next : Solutions} {below : List (Frame Solutions)}
    {f : Frame Solutions} (h : f ∈ below) : f ∈ kept applied next below := by
  unfold kept
  split
  next => exact h
  next => exact List.mem_cons_of_mem _ h

/-! ## Steps that pay -/

/-- A step brings an arity error, or leaves a stream that owes one. -/
inductive Pays : Progress EvalError Solutions Stack → Prop where
  | arity {error : EvalError} {next : Solutions} (h : error.kind = .arity) :
      Pays (.item (.error error) next)
  | item {item : Item} {next : Solutions} (h : Owes next) : Pays (.item item next)
  | working {next : Solutions} (h : Owes next) : Pays (.working next)

section Pays

variable {s : Surroundings} {live : Solutions}

/-- A stream pays if one that it is stepped by pays, and it passes errors on. -/
theorem Pays.wrap (wrap : Solutions → Solutions) [Wraps (step s) wrap]
    (howes : ∀ {live}, Owes live → Owes (wrap live))
    (herror : ∀ {error next}, step s live = .item (.error error) next →
      step s (wrap live) = .item (.error error) (wrap next))
    (hok : ∀ {stack next}, step s live = .item (.ok stack) next → Owes next →
      Pays (step s (wrap live)))
    (h : Pays (step s live)) : Pays (step s (wrap live)) := by
  generalize hp : step s live = p at h
  cases h with
  | arity h =>
      rw [herror hp]
      exact .arity h
  | @item item next h =>
      cases item with
      | error error =>
          rw [herror hp]
          exact .item (howes h)
      | ok stack => exact hok hp h
  | working h =>
      rw [Wraps.working hp]
      exact .working (howes h)

theorem pays_guarded (hcalm : s.aborted = false) (h : Pays (step s live)) :
    Pays (step s (.guarded live)) := by
  have hpass : ∀ {item next}, step s live = .item item next →
      step s (.guarded live) = .item item (.guarded next) := fun hstep => by
    simp only [step, hstep, hcalm, Bool.false_eq_true, if_false]
  refine h.wrap .guarded .guarded hpass fun hstep hnext => ?_
  rw [hpass hstep]
  exact .item (.guarded hnext)

theorem pays_pushing {v : Value} (h : Pays (step s live)) : Pays (step s (.pushing v live)) := by
  refine h.wrap (.pushing v) .pushing (fun hstep => ?_) fun hstep hnext => ?_
  · simp only [step, hstep, Except.map]
  · simp only [step, hstep]
    exact .item (.pushing hnext)

theorem pays_through {op : Operator} (h : Pays (step s live)) :
    Pays (step s (.through op live)) := by
  refine h.wrap (.through op) .through step_through_error fun hstep hnext => ?_
  rw [step_through_ok hstep]
  exact .working (.second (.through hnext))

theorem pays_deep {operator : String} {arity : Nat} (h : Pays (step s live)) :
    Pays (step s (.deep operator arity live)) := by
  refine h.wrap (.deep operator arity) .deep (fun hstep => ?_) fun {stack _} hstep hnext => ?_
  · simp only [step, hstep]
  · by_cases hshallow : stack.length < arity
    · simp only [step, hstep, if_pos hshallow]
      exact .item (.deep hnext)
    · simp only [step, hstep, if_neg hshallow]
      exact .item (.deep hnext)

theorem pays_distinct {seen : List Stack} (h : Pays (step s live)) :
    Pays (step s (.distinct seen live)) := by
  refine h.wrap (.distinct seen) .distinct (fun hstep => ?_) fun {stack _} hstep hnext => ?_
  · simp only [step, hstep]
  · by_cases hseen : seen.any stack.same
    · simp only [step, hstep, if_pos hseen]
      exact .working (.distinct hnext)
    · simp only [step, hstep, if_neg hseen]
      exact .item (.distinct hnext)

theorem pays_append {second : Solutions} (h : Pays (step s live)) :
    Pays (step s (.append live second)) := by
  generalize hp : step s live = p at h
  cases h with
  | arity h =>
      rw [step_append_item hp]
      exact .arity h
  | item h =>
      rw [step_append_item hp]
      exact .item (.first h)
  | working h =>
      rw [step_append_working hp]
      exact .working (.first h)

theorem pays_sequence {plan : Plan} {applied : Nat} {below : List (Frame Solutions)}
    (h : Pays (step s live)) : Pays (step s (.sequence plan (⟨applied, live⟩ :: below))) := by
  generalize hp : step s live = p at h
  cases h with
  | arity h =>
      rw [step_sequence_error hp]
      exact .arity h
  | @item item next h =>
      cases item with
      | error error =>
          rw [step_sequence_error hp]
          exact .item (.sequence List.mem_cons_self h)
      | ok stack =>
          by_cases hpassed : applied = plan.route.length
          · rw [step_sequence_passed hp hpassed]
            exact .item (.sequence List.mem_cons_self h)
          · rw [step_sequence_opens hp hpassed]
            exact .working (.sequence (List.mem_cons_of_mem _ (owes_kept h)) h)
  | working h =>
      rw [step_sequence_working hp]
      exact .working (.sequence List.mem_cons_self h)

/-- A frame below the topmost one stays, and with it what it owes. -/
theorem pays_sequence_below {plan : Plan} {applied : Nat} {below : List (Frame Solutions)}
    {f : Frame Solutions} (hf : f ∈ below) (h : Owes f.live) :
    step s (.sequence plan (⟨applied, live⟩ :: below)) = .waiting ∨
      Pays (step s (.sequence plan (⟨applied, live⟩ :: below))) := by
  cases hstep : step s live with
  | item item next =>
      cases item with
      | error error =>
          rw [step_sequence_error hstep]
          exact .inr (.item (.sequence (List.mem_cons_of_mem _ hf) h))
      | ok stack =>
          by_cases hpassed : applied = plan.route.length
          · rw [step_sequence_passed hstep hpassed]
            exact .inr (.item (.sequence (List.mem_cons_of_mem _ hf) h))
          · rw [step_sequence_opens hstep hpassed]
            exact .inr (.working (.sequence (List.mem_cons_of_mem _ (mem_kept hf)) h))
  | working next =>
      rw [step_sequence_working hstep]
      exact .inr (.working (.sequence (List.mem_cons_of_mem _ hf) h))
  | waiting => exact .inl (step_sequence_waiting hstep)
  | ended =>
      rw [step_sequence_ended hstep]
      exact .inr (.working (.sequence hf h))

/-- What is owed is not dropped: a stream goes on until it has brought the error. -/
theorem pays_of_owes (hcalm : s.aborted = false) (h : Owes live) :
    step s live = .waiting ∨ Pays (step s live) := by
  induction h with
  | @items ready error h herror =>
      cases ready with
      | nil => cases h
      | cons item rest =>
          refine .inr ?_
          rcases List.mem_cons.mp h with rfl | hrest
          · exact .arity herror
          · exact .item (.items hrest herror)
  | guarded _ ih => exact ih.imp Wraps.waiting (pays_guarded hcalm)
  | pushing _ ih => exact ih.imp Wraps.waiting pays_pushing
  | through _ ih => exact ih.imp Wraps.waiting pays_through
  | deep _ ih => exact ih.imp Wraps.waiting pays_deep
  | distinct _ ih => exact ih.imp Wraps.waiting pays_distinct
  | @sequence plan frames f hf h ih =>
      cases frames with
      | nil => cases hf
      | cons top below =>
          obtain ⟨applied, live⟩ := top
          rcases List.mem_cons.mp hf with rfl | hbelow
          · exact ih.imp step_sequence_waiting pays_sequence
          · exact pays_sequence_below hbelow h
  | first _ ih => exact ih.imp step_append_waiting pays_append
  | @second first second h _ =>
      cases hstep : step s first with
      | item item next =>
          rw [step_append_item hstep]
          exact .inr (.item (.second h))
      | working next =>
          rw [step_append_working hstep]
          exact .inr (.working (.second h))
      | waiting => exact .inl (step_append_waiting hstep)
      | ended =>
          rw [step_append_ended hstep]
          exact .inr (.working h)

end Pays

/-! ## Steps above a stack -/

/-- What a step brings, with a stack beneath every stack in it. -/
def stepAbove (t : Stack) :
    Progress EvalError Solutions Stack → Progress EvalError Solutions Stack
  | .item item next => .item (item.map (· ++ t)) (above t next)
  | .working next => .working (above t next)
  | .waiting => .waiting
  | .ended => .ended

variable {t : Stack}

theorem above_respond_list (use : ListUse) (rest : Stack) (list : List Value) :
    above t (.items (use.respond rest list)) = .items (use.respond (rest ++ t) list) := by
  rw [above]
  cases use with
  | swons first => rfl
  | uncons => cases list <;> rfl
  | each =>
      simp only [ListUse.respond, List.map_map]
      rfl

theorem above_respond_operator (l : Library) (use : OperatorUse) (rest : Stack) (op : Operator) :
    use.respond l (rest ++ t) op = above t (use.respond l rest op) ∨
      Owes (use.respond l rest op) := by
  cases use with
  | run =>
      refine (op.above_apply l rest t).imp_right ?_
      rintro ⟨p, found, h⟩
      rw [OperatorUse.respond, h]
      exact owes_fail rfl
  | times count => exact .inl (op.above_applyTimes rest count).symm
  | invert =>
      simp only [OperatorUse.respond]
      split
      next inverse _ => exact .inl (above_single (.operator inverse :: rest)).symm
      next error _ => exact .inl (above_fail error).symm

theorem above_run (l : Library) (plan : Plan) (i : Nat) (stack : Stack) :
    plan.run l i (stack ++ t) = above t (plan.run l i stack) ∨ Owes (plan.run l i stack) := by
  unfold Plan.run
  split
  next op _ =>
    have happly : op.apply l (stack ++ t) = above t (op.apply l stack) ∨ Owes (op.apply l stack) :=
      above_respond_operator l .run stack op
    split
    next => exact happly.imp (fun h => by rw [h, above]) .guarded
    next => exact happly
  next => exact .inl above_none.symm

theorem aboveFrames_kept (applied : Nat) (next : Solutions) (below : List (Frame Solutions)) :
    aboveFrames t (kept applied next below) =
      kept applied (above t next) (aboveFrames t below) := by
  unfold kept
  rw [isSpent_above, apply_ite (aboveFrames t), aboveFrames]

theorem any_same_above (seen : List Stack) (stack : Stack) :
    (seen.map (· ++ t)).any (stack ++ t).same = seen.any stack.same := by
  rw [List.any_map]
  congr 1
  funext a
  exact Stack.same_append stack a t

/-- Above a stack a stream does the same step, unless it owes an arity error after it. -/
def StepsAbove (s : Surroundings) (t : Stack) (live : Solutions) : Prop :=
  step s (above t live) = stepAbove t (step s live) ∨ Pays (step s live)

section StepsAbove

variable {s : Surroundings} {live : Solutions}

theorem StepsAbove.wrap (wrap wrap' : Solutions → Solutions) [Wraps (step s) wrap]
    [Wraps (step s) wrap'] (habove : ∀ live, above t (wrap live) = wrap' (above t live))
    (hpays : Pays (step s live) → Pays (step s (wrap live)))
    (hitem : ∀ {item next}, step s live = .item item next →
      step s (above t live) = .item (item.map (· ++ t)) (above t next) →
      step s (wrap' (above t live)) = stepAbove t (step s (wrap live)) ∨
        Pays (step s (wrap live)))
    (h : StepsAbove s t live) : StepsAbove s t (wrap live) := by
  unfold StepsAbove
  rw [habove]
  rcases h with h | h
  · cases hstep : step s live with
    | item item next =>
        rw [hstep] at h
        exact hitem hstep h
    | working next =>
        rw [hstep] at h
        rw [Wraps.working h, Wraps.working hstep, stepAbove, habove]
        exact .inl rfl
    | waiting =>
        rw [hstep] at h
        rw [Wraps.waiting h, Wraps.waiting hstep]
        exact .inl rfl
    | ended =>
        rw [hstep] at h
        rw [Wraps.ended h, Wraps.ended hstep]
        exact .inl rfl
  · exact .inr (hpays h)

theorem StepsAbove.guarded (hcalm : s.aborted = false) (h : StepsAbove s t live) :
    StepsAbove s t (.guarded live) := by
  refine h.wrap .guarded .guarded (fun _ => by rw [above]) (pays_guarded hcalm) ?_
  intro item next hstep habove
  refine .inl ?_
  simp only [step, hstep, habove, hcalm, Bool.false_eq_true, if_false, stepAbove, above]

theorem StepsAbove.pushing (v : Value) (h : StepsAbove s t live) :
    StepsAbove s t (.pushing v live) := by
  refine h.wrap (.pushing v) (.pushing v) (fun _ => by rw [above]) pays_pushing ?_
  intro item next hstep habove
  simp only [step, hstep, habove, stepAbove, above]
  cases item <;> exact .inl rfl

theorem StepsAbove.through (op : Operator) (h : StepsAbove s t live) :
    StepsAbove s t (.through op live) := by
  refine h.wrap (.through op) (.through op) (fun _ => by rw [above]) pays_through ?_
  intro item next hstep habove
  cases item with
  | error error =>
      rw [step_through_error hstep, step_through_error habove, stepAbove, above]
      exact .inl rfl
  | ok stack =>
      rw [step_through_ok hstep, step_through_ok habove, stepAbove, above, above]
      rcases above_respond_operator (t := t) s.library .run stack op with happly | howes
      · simp only [OperatorUse.respond] at happly
        exact .inl (by rw [happly])
      · exact .inr (.working (.first howes))

theorem StepsAbove.deep (operator : String) (arity : Nat) (h : StepsAbove s t live) :
    StepsAbove s t (.deep operator arity live) := by
  refine h.wrap (.deep operator arity) (.deep operator arity) (fun _ => by rw [above]) pays_deep ?_
  intro item next hstep habove
  cases item with
  | error error =>
      refine .inl ?_
      simp only [step, hstep, habove, stepAbove, above, Except.map]
  | ok stack =>
      by_cases hshallow : stack.length < arity
      · simp only [step, hstep, if_pos hshallow]
        exact .inr (.arity rfl)
      · have hdeep : ¬ (stack ++ t).length < arity := by
          rw [List.length_append]
          omega
        refine .inl ?_
        simp only [step, hstep, habove, Except.map, if_neg hshallow, if_neg hdeep, stepAbove, above]

theorem StepsAbove.distinct (seen : List Stack) (h : StepsAbove s t live) :
    StepsAbove s t (.distinct seen live) := by
  refine h.wrap (.distinct seen) (.distinct (seen.map (· ++ t))) (fun _ => by rw [above])
    pays_distinct ?_
  intro item next hstep habove
  cases item with
  | error error =>
      refine .inl ?_
      simp only [step, hstep, habove, stepAbove, above, Except.map]
  | ok stack =>
      by_cases hseen : seen.any stack.same
      · have hseen' := (any_same_above (t := t) seen stack).trans hseen
        refine .inl ?_
        simp only [step, hstep, habove, Except.map, if_pos hseen, if_pos hseen', stepAbove, above]
      · have hseen' : ¬ (seen.map (· ++ t)).any (stack ++ t).same := by
          rwa [any_same_above]
        refine .inl ?_
        simp only [step, hstep, habove, Except.map, if_neg hseen, if_neg hseen', stepAbove, above,
          List.map_cons]

theorem StepsAbove.sequence (plan : Plan) (applied : Nat) (below : List (Frame Solutions))
    (h : StepsAbove s t live) : StepsAbove s t (.sequence plan (⟨applied, live⟩ :: below)) := by
  unfold StepsAbove
  rw [above, aboveFrames]
  rcases h with h | h
  · cases hstep : step s live with
    | item item next =>
        rw [hstep] at h
        cases item with
        | error error =>
            rw [step_sequence_error h, step_sequence_error hstep, stepAbove, above, aboveFrames]
            exact .inl rfl
        | ok stack =>
            by_cases hpassed : applied = plan.route.length
            · rw [step_sequence_passed h hpassed, step_sequence_passed hstep hpassed, stepAbove,
                above, aboveFrames]
              exact .inl rfl
            · rw [step_sequence_opens h hpassed, step_sequence_opens hstep hpassed, stepAbove,
                above, aboveFrames, aboveFrames_kept]
              refine (above_run s.library plan applied stack).imp (fun hrun => by rw [hrun]) ?_
              exact fun howes => .working (.sequence List.mem_cons_self howes)
    | working next =>
        rw [hstep] at h
        rw [step_sequence_working h, step_sequence_working hstep, stepAbove, above, aboveFrames]
        exact .inl rfl
    | waiting =>
        rw [hstep] at h
        rw [step_sequence_waiting h, step_sequence_waiting hstep]
        exact .inl rfl
    | ended =>
        rw [hstep] at h
        rw [step_sequence_ended h, step_sequence_ended hstep, stepAbove, above]
        exact .inl rfl
  · exact .inr (pays_sequence h)

theorem StepsAbove.append (second : Solutions) (h : StepsAbove s t live) :
    StepsAbove s t (.append live second) := by
  unfold StepsAbove
  rw [above]
  rcases h with h | h
  · cases hstep : step s live with
    | item item next =>
        rw [hstep] at h
        rw [step_append_item h, step_append_item hstep, stepAbove, above]
        exact .inl rfl
    | working next =>
        rw [hstep] at h
        rw [step_append_working h, step_append_working hstep, stepAbove, above]
        exact .inl rfl
    | waiting =>
        rw [hstep] at h
        rw [step_append_waiting h, step_append_waiting hstep]
        exact .inl rfl
    | ended =>
        rw [hstep] at h
        rw [step_append_ended h, step_append_ended hstep]
        exact .inl rfl
  · exact .inr (pays_append h)

theorem stepsAbove_lists (use : ListUse) (rest : Stack) (reading : ListReading) :
    StepsAbove s t (.lists use rest reading) := by
  refine .inl ?_
  rw [above]
  simp only [step]
  cases reading.step s.ask with
  | item result next =>
      cases result with
      | error error => simp only [stepAbove, above, Except.map]
      | ok list => rw [stepAbove, above_andThen, above_respond_list, above]
  | working next => simp only [stepAbove, above]
  | waiting => rfl
  | ended => rfl

theorem stepsAbove_operators (use : OperatorUse) (rest : Stack) (reading : OperatorReading) :
    StepsAbove s t (.operators use rest reading) := by
  unfold StepsAbove
  rw [above]
  simp only [step]
  cases reading.step s.library s.ask with
  | item result next =>
      cases result with
      | error error => exact .inl (by simp only [stepAbove, above, Except.map])
      | ok op =>
          rcases above_respond_operator (t := t) s.library use rest op with hrespond | howes
          · exact .inl (by simp only [stepAbove, above_andThen, hrespond, above])
          · exact .inr (.working (owes_andThen howes))
  | working next => exact .inl (by simp only [stepAbove, above])
  | waiting => exact .inl rfl
  | ended => exact .inl rfl

theorem stepsAbove_objects (subject predicate : String) (rest : Stack) :
    StepsAbove s t (.objects subject predicate rest) := by
  refine .inl ?_
  rw [above]
  simp only [step]
  cases s.ask subject predicate with
  | waiting => rfl
  | failed error => simp only [stepAbove, above_none, Except.map]
  | found values =>
      simp only [stepAbove, above_ofStacks, List.map_map]
      rfl

end StepsAbove

theorem stepsAbove {s : Surroundings} (hcalm : s.aborted = false) (t : Stack) (live : Solutions) :
    StepsAbove s t live := by
  induction live using stepInduction with
  | items ready => cases ready <;> exact .inl rfl
  | unending item n => exact .inl rfl
  | guarded live ih => exact ih.guarded hcalm
  | pushing v live ih => exact ih.pushing v
  | through op live ih => exact ih.through op
  | deep operator arity live ih => exact ih.deep operator arity
  | distinct seen live ih => exact ih.distinct seen
  | finished plan => exact .inl rfl
  | sequence plan applied live below ih => exact ih.sequence plan applied below
  | lists use rest reading => exact stepsAbove_lists use rest reading
  | operators use rest reading => exact stepsAbove_operators use rest reading
  | objects subject predicate rest => exact stepsAbove_objects subject predicate rest
  | append first second ih => exact ih.append second

/-! ## Runs -/

/--
All that a stream brings until it ends.  The store says what the connections
say, one for every step.
-/
inductive Brings (l : Library) : Solutions → List Connection → List Item → Prop where
  | ended {live : Solutions} {ask : Connection} (h : step (.calm l ask) live = .ended) :
      Brings l live [ask] []
  | item {live next : Solutions} {ask : Connection} {asks : List Connection} {item : Item}
      {items : List Item} (h : step (.calm l ask) live = .item item next)
      (later : Brings l next asks items) : Brings l live (ask :: asks) (item :: items)
  | working {live next : Solutions} {ask : Connection} {asks : List Connection}
      {items : List Item} (h : step (.calm l ask) live = .working next)
      (later : Brings l next asks items) : Brings l live (ask :: asks) items
  | waiting {live : Solutions} {ask : Connection} {asks : List Connection} {items : List Item}
      (h : step (.calm l ask) live = .waiting) (later : Brings l live asks items) :
      Brings l live (ask :: asks) items

def WithoutArity (items : List Item) : Prop :=
  ∀ error : EvalError, .error error ∈ items → error.kind ≠ .arity

variable {l : Library} {live : Solutions} {asks : List Connection} {items : List Item}

theorem WithoutArity.tail {item : Item} (h : WithoutArity (item :: items)) :
    WithoutArity items :=
  fun error herror => h error (List.mem_cons_of_mem item herror)

theorem pays_of_step {ask : Connection} {p : Progress EvalError Solutions Stack}
    (h : step (.calm l ask) live = p) (howes : Owes live) : p = .waiting ∨ Pays p := by
  subst h
  exact pays_of_owes rfl howes

theorem step_above {ask : Connection} {p : Progress EvalError Solutions Stack}
    (h : step (.calm l ask) live = p) (t : Stack) :
    step (.calm l ask) (above t live) = stepAbove t p ∨ Pays p := by
  subst h
  exact stepsAbove rfl t live

/-- What is owed comes before the end. -/
theorem not_owes_of_brings (h : Brings l live asks items) (harity : WithoutArity items) :
    ¬ Owes live := by
  intro howes
  induction h with
  | ended h =>
      rcases pays_of_step h howes with hwaiting | hpays
      · cases hwaiting
      · cases hpays
  | item h later ih =>
      rcases pays_of_step h howes with hwaiting | hpays
      · cases hwaiting
      · cases hpays with
        | arity herror => exact harity _ List.mem_cons_self herror
        | item hnext => exact ih harity.tail hnext
  | working h later ih =>
      rcases pays_of_step h howes with hwaiting | hpays
      · cases hwaiting
      · cases hpays with
        | working hnext => exact ih harity hnext
  | waiting h later ih => exact ih harity howes

theorem brings_above (h : Brings l live asks items) (harity : WithoutArity items) (t : Stack) :
    Brings l (above t live) asks (items.map (Except.map (· ++ t))) := by
  -- A step that pays leaves a debt, and what follows would have to bring it.
  induction h with
  | ended h =>
      rcases step_above h t with habove | hpays
      · exact .ended habove
      · cases hpays
  | item h later ih =>
      rcases step_above h t with habove | hpays
      · exact .item habove (ih harity.tail)
      · cases hpays with
        | arity herror => exact absurd herror (harity _ List.mem_cons_self)
        | item hnext => exact absurd hnext (not_owes_of_brings later harity.tail)
  | working h later ih =>
      rcases step_above h t with habove | hpays
      · exact .working habove (ih harity)
      · cases hpays with
        | working hnext => exact absurd hnext (not_owes_of_brings later harity)
  | waiting h later ih =>
      rcases step_above h t with habove | hpays
      · exact .waiting habove (ih harity)
      · cases hpays

end Solutions

/-! ## Queries -/

/-- Names are looked up alike, and the streams differ in what lies beneath. -/
theorem evaluate_above (s : Surroundings) (tokens : List Token) (stack t : Stack) :
    evaluate s tokens (stack ++ t) = (evaluate s tokens stack).map (Solutions.above t) := by
  unfold evaluate
  split
  next => rfl
  next =>
    cases Token.operators s.library tokens with
    | error error => rfl
    | ok steps =>
        refine congrArg Except.ok ?_
        rw [Operator.stepsOnStream, Operator.stepsOnStream, Operator.above_segmentsOnStream,
          Solutions.above, Solutions.above_single]

/--
A query that ends without arity errors brings the same above any stack: the same
number of items in the same order, the same errors, and every solution with that
stack beneath it, while the store says the same at every step.
-/
theorem evaluate_append (l : Library) (tokens : List Token) (stack t : Stack) (ask : Connection)
    (live : Solutions) (asks : List Connection) (items : List Item)
    (hevaluate : evaluate (.calm l ask) tokens stack = .ok live)
    (hbrings : live.Brings l asks items) (harity : Solutions.WithoutArity items) :
    ∃ live', evaluate (.calm l ask) tokens (stack ++ t) = .ok live' ∧
      live'.Brings l asks (items.map (Except.map (· ++ t))) := by
  refine ⟨Solutions.above t live, ?_, Solutions.brings_above hbrings harity t⟩
  rw [evaluate_above, hevaluate]
  rfl

/--
The members of a list are squared by a program and told apart, with something
beneath the list, and then with more beneath that.
-/
theorem evaluate_append_of_squares :
    let tokens (dup mul : Operator) : List Token :=
      [.call "each", .push (.list [.operator dup, .operator mul]), .call "i", .call "unique"]
    let stack : Stack := [.list [.integer 2, .integer (-2), .integer 3], .boolean true]
    let beneath : Stack := [.text "beneath"]
    let asks : List Connection := List.replicate 27 fun _ _ => .waiting
    let items : List Item := [.ok [.integer 4, .boolean true], .ok [.integer 9, .boolean true]]
    ∃ dup mul, Library.standard.resolve? "dup" = some dup ∧
      Library.standard.resolve? "mul" = some mul ∧
      ∃ live, evaluate (.calm .standard fun _ _ => .waiting) (tokens dup mul) stack = .ok live ∧
        live.Brings .standard asks items ∧ Solutions.WithoutArity items ∧
        ∃ live', evaluate (.calm .standard fun _ _ => .waiting) (tokens dup mul)
            (stack ++ beneath) = .ok live' ∧
          live'.Brings .standard asks (items.map (Except.map (· ++ beneath))) := by
  intro tokens stack beneath asks items
  let dup : Operator := .primitive (Standard.words.get ⟨0, by decide⟩)
  let mul : Operator := .primitive (Standard.words.get ⟨23, by decide⟩)
  let each : Operator := .primitive (Standard.words.get ⟨33, by decide⟩)
  let run : Operator := .primitive (Standard.words.get ⟨7, by decide⟩)
  let unique : Operator := .primitive (Standard.words.get ⟨34, by decide⟩)
  -- The library is kept a variable while the query is run in it.
  have hruns (l : Library) (heach : l.resolve? "each" = some each)
      (hrun : l.resolve? "i" = some run) (hunique : l.resolve? "unique" = some unique) :
      ∃ live, evaluate (.calm l fun _ _ => .waiting) (tokens dup mul) stack = .ok live ∧
        live.Brings l asks items := by
    have hsteps : Token.operators l (tokens dup mul) =
        .ok [each, .constant (.list [.operator dup, .operator mul]), run, unique] := by
      simp only [tokens, Token.operators, List.mapM_cons, List.mapM_nil, Token.operator, heach,
        hrun, hunique]
      rfl
    simp only [evaluate, Surroundings.calm_library, hsteps]
    refine ⟨_, rfl, ?_⟩
    refine .working rfl (.working rfl (.working rfl (.working rfl (.working rfl (.working rfl
      (.working rfl (.item rfl ?_)))))))
    refine .working rfl (.working rfl (.working rfl (.working rfl (.working rfl (.working rfl
      (.working rfl (.working rfl (.working rfl (.working rfl (.working rfl (.working rfl
        (.working rfl (.working rfl (.working rfl (.item rfl ?_)))))))))))))))
    exact .working rfl (.working rfl (.ended rfl))
  obtain ⟨live, hlive, hbrings⟩ := hruns .standard (Standard.resolve?_word (i := 33) rfl rfl)
    (Standard.resolve?_word (i := 7) rfl rfl) (Standard.resolve?_word (i := 34) rfl rfl)
  have harity : Solutions.WithoutArity items := by simp [Solutions.WithoutArity, items]
  exact ⟨dup, mul, Standard.resolve?_word (i := 0) rfl rfl,
    Standard.resolve?_word (i := 23) rfl rfl, live, hlive, hbrings, harity,
    evaluate_append _ _ stack beneath _ live asks items hlive hbrings harity⟩

end StackQuery
