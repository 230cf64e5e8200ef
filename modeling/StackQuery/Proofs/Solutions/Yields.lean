import StackQuery.Proofs.Evaluation.Locality
import StackQuery.Proofs.Evaluation.StoreFailures
import StackQuery.Proofs.Solutions.Alike

/-!
# What a stream yields

A stream yields some items if it brings just these and then ends, while the
store answers from one graph and takes its time.  What a stream yields does not
depend on when the store answers: a stream yields some items just if a store
that answers at once cannot tell it from these items.
-/

namespace StackQuery

variable {l : Library} {graph : Graph}

/-! ## Waiting for the graph -/

theorem OperatorReading.step_of_waiting {ask : Connection} {reading : OperatorReading}
    {subject predicate : String} (hquestion : reading.question? = some (subject, predicate))
    (h : ask subject predicate = .waiting) : reading.step l ask = .waiting := by
  cases reading with
  | done => cases hquestion
  | once result => cases hquestion
  | programs lists => simp only [step, ListReading.step_of_waiting hquestion h]

namespace Solutions

theorem step_of_waiting {s : Surroundings} {live : Solutions} {subject predicate : String}
    (hquestion : live.question? = some (subject, predicate))
    (h : s.ask subject predicate = .waiting) : step s live = .waiting := by
  induction live using stepInduction with
  | items ready => cases hquestion
  | unending item n => cases hquestion
  | finished plan => cases hquestion
  | guarded live ih | pushing v live ih | through op live ih | deep operator arity live ih
  | distinct seen live ih | sequence plan applied live below ih | append first second ih =>
      simp only [step, ih hquestion, Frame.advance, Progress.mapState]
  | lists use rest reading => simp only [step, ListReading.step_of_waiting hquestion h]
  | operators use rest reading => simp only [step, OperatorReading.step_of_waiting hquestion h]
  | objects subject' predicate' rest =>
      cases hquestion
      simp only [step, h]

/-- A store that is held to a graph lets a stream wait, or go on as if it answered at once. -/
theorem step_of_heldTo {ask : Connection} (live : Solutions) (h : graph.HeldTo ask) :
    calmStep l ask live = .waiting ∨ calmStep l ask live = calmStep l graph.atOnce live := by
  rcases h.waits_or_answers live.question? with ⟨_, _, hquestion, hwaiting⟩ | hsame
  · exact .inl (step_of_waiting hquestion hwaiting)
  · exact .inr (live.step_congr hsame)

/-! ## Yielding -/

/-- All that a stream brings until it ends, from a store that gives the answers of a graph. -/
def Yields (l : Library) (graph : Graph) (live : Solutions) (items : List Item) : Prop :=
  ∃ asks : List Connection, (∀ ask ∈ asks, graph.HeldTo ask) ∧ live.Brings l asks items

/-- A store that answers from a graph at once cannot tell two streams apart. -/
abbrev AlikeAtOnce (l : Library) (graph : Graph) (a b : Solutions) : Prop :=
  AlikeOver l (fun _ : Unit => graph.atOnce) a b

variable {live next : Solutions} {items items' : List Item}

theorem Brings.of_works {ask : Connection} {asks : List Connection}
    (hworks : Works (calmStep l ask) live next) (h : next.Brings l asks items) :
    ∃ count, live.Brings l (List.replicate count ask ++ asks) items := by
  induction hworks with
  | refl _ => exact ⟨0, h⟩
  | head hstep _ ih =>
      obtain ⟨count, hcount⟩ := ih h
      exact ⟨count + 1, .working hstep hcount⟩

theorem alikeAtOnce_of_brings {asks : List Connection} (hasks : ∀ ask ∈ asks, graph.HeldTo ask)
    (h : live.Brings l asks items) : AlikeAtOnce l graph live (.items items) := by
  -- A step that does not wait is the one that a store takes that answers at once.
  have hatOnce {ask : Connection} {live : Solutions} {p : Progress EvalError Solutions Stack}
      (hask : graph.HeldTo ask) (hstep : calmStep l ask live = p) (hgoes : p ≠ .waiting) :
      calmStep l graph.atOnce live = p := by
    rcases step_of_heldTo (l := l) live hask with hwaiting | hsame
    · exact absurd (hstep.symm.trans hwaiting) hgoes
    · exact hsame.symm.trans hstep
  induction h with
  | ended hstep =>
      have hask := hasks _ List.mem_cons_self
      exact alike_of_ended (fun _ => hatOnce hask hstep (by simp)) fun _ => rfl
  | item hstep _ ih =>
      obtain ⟨hask, hlater⟩ := List.forall_mem_cons.mp hasks
      exact .item (fun _ => hatOnce hask hstep (by simp)) (fun _ => rfl) (ih hlater)
  | working hstep _ ih =>
      obtain ⟨hask, hlater⟩ := List.forall_mem_cons.mp hasks
      exact .head (fun _ => hatOnce hask hstep (by simp)) (ih hlater)
  | waiting hstep _ ih => exact ih (List.forall_mem_cons.mp hasks).2

theorem brings_of_alikeAtOnce (h : AlikeAtOnce l graph live (.items items)) :
    ∃ count, live.Brings l (List.replicate count graph.atOnce) items := by
  induction items generalizing live with
  | nil =>
      have hanswer := alike_follows () _ _ h.symm
      change Answers _ _ _ _ .ended at hanswer
      cases hanswer with
      | ended works hstep =>
          obtain ⟨count, hcount⟩ := Brings.of_works works (.ended hstep)
          refine ⟨count + 1, ?_⟩
          rwa [List.replicate_succ']
  | cons item items ih =>
      have hanswer := alike_follows () _ _ h.symm
      change Answers _ _ _ _ (.item item (Solutions.items items)) at hanswer
      cases hanswer with
      | item works hstep related =>
          obtain ⟨later, hlater⟩ := ih related.symm
          obtain ⟨count, hcount⟩ := Brings.of_works works (.item hstep hlater)
          refine ⟨count + (later + 1), ?_⟩
          rwa [← List.replicate_append_replicate, List.replicate_succ]

/-- When the store answers makes no difference to what a stream yields. -/
theorem yields_iff_alikeAtOnce :
    live.Yields l graph items ↔ AlikeAtOnce l graph live (.items items) := by
  constructor
  · rintro ⟨asks, hasks, hbrings⟩
    exact alikeAtOnce_of_brings hasks hbrings
  · intro h
    obtain ⟨count, hcount⟩ := brings_of_alikeAtOnce h
    refine ⟨_, fun ask hask => ?_, hcount⟩
    rw [List.eq_of_mem_replicate hask]
    exact fun _ _ => .inr rfl

theorem yields_single (stack : Stack) : (single stack).Yields l graph [.ok stack] :=
  yields_iff_alikeAtOnce.mpr (.refl _)

/-- Items at hand come without work. -/
theorem eq_of_works_items {s : Surroundings} (h : Works (step s) (.items items) next) :
    next = .items items := by
  cases h with
  | refl _ => rfl
  | head hstep _ => cases items <;> cases hstep

theorem items_eq_of_alikeAtOnce (h : AlikeAtOnce l graph (.items items) (.items items')) :
    items = items' := by
  induction items generalizing items' with
  | nil =>
      have hanswer := alike_follows () _ _ h
      change Answers _ _ _ _ .ended at hanswer
      cases hanswer with
      | ended works hstep =>
          obtain rfl := eq_of_works_items works
          cases items' with
          | nil => rfl
          | cons item' items' => cases hstep
  | cons item items ih =>
      have hanswer := alike_follows () _ _ h
      change Answers _ _ _ _ (.item item (Solutions.items items)) at hanswer
      cases hanswer with
      | item works hstep related =>
          obtain rfl := eq_of_works_items works
          cases items' with
          | nil => cases hstep
          | cons item' items' =>
              cases hstep
              rw [ih related]

/-- Streams that no store can tell apart that answers at once yield the same items. -/
theorem AlikeAtOnce.yields_iff (h : AlikeAtOnce l graph live (.items items)) :
    live.Yields l graph items' ↔ items' = items := by
  rw [yields_iff_alikeAtOnce]
  constructor
  · exact fun h' => items_eq_of_alikeAtOnce (h'.symm.trans h)
  · rintro rfl
    exact h

end Solutions

end StackQuery
