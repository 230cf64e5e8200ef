import StackQuery.Evaluation
import StackQuery.Proofs.Library.Standard
import StackQuery.Proofs.Reading.DepthFirst
import StackQuery.Proofs.Streams.Histories

/-!
# Failures of the store come out

The step of a stream puts at most one question to the store, wherever in the
stream the question comes from: from a list or a program that is read, or from
a word that asks for statements.  If the store fails, the error is the item
that the step brings.  The streams around the one that has asked let it pass,
and what has been read in place of a list keeps it apart from a value that is
not one.
-/

namespace StackQuery

/-! ## What is asked of the store -/

namespace OperatorReading

/-- The question, if any, that the next step puts to the store. -/
def question? : OperatorReading → Option (String × String)
  | .programs lists => lists.question?
  | _ => none

theorem step_congr {l : Library} {ask ask' : Connection} (reading : OperatorReading)
    (h : ∀ subject predicate, reading.question? = some (subject, predicate) →
      ask subject predicate = ask' subject predicate) :
    reading.step l ask = reading.step l ask' := by
  cases reading with
  | done => rfl
  | once result => rfl
  | programs lists => simp only [step, lists.step_congr h]

end OperatorReading

namespace Solutions

/-- The question, if any, that the next step puts to the store. -/
def question? : Solutions → Option (String × String)
  | .guarded live | .pushing _ live | .through _ live | .deep _ _ live | .distinct _ live =>
      live.question?
  | .sequence _ (⟨_, live⟩ :: _) => live.question?
  | .lists _ _ reading => reading.question?
  | .operators _ _ reading => reading.question?
  | .objects subject predicate _ => some (subject, predicate)
  | .append first _ => first.question?
  | .items _ | .unending _ _ | .sequence _ [] => Option.none

/-- Nothing else that the store says matters for the step. -/
theorem step_congr {l : Library} {ask ask' : Connection} {aborted : Bool} (live : Solutions)
    (h : ∀ subject predicate, live.question? = some (subject, predicate) →
      ask subject predicate = ask' subject predicate) :
    step ⟨l, ask, aborted⟩ live = step ⟨l, ask', aborted⟩ live := by
  induction live using stepInduction with
  | items ready => cases ready <;> rfl
  | unending item n => rfl
  | finished plan => rfl
  | guarded live ih | pushing v live ih | through op live ih | deep operator arity live ih
  | distinct seen live ih | sequence plan applied live below ih | append first second ih =>
      have hlive := ih h
      simp only [step, hlive]
  | lists use rest reading =>
      have hreading := reading.step_congr h
      simp only [step, hreading]
  | operators use rest reading =>
      have hreading := reading.step_congr (l := l) h
      simp only [step, hreading]
  | objects subject predicate rest => simp only [step, h subject predicate rfl]

end Solutions

/-! ## What a failure brings -/

section Failures

variable {ask : Connection} {subject predicate : String} {error : StoreError}

theorem ListReading.step_of_failed (reading : ListReading)
    (hquestion : reading.question? = some (subject, predicate))
    (hfailed : ask subject predicate = .failed error) :
    ∃ next, reading.step ask = .item (.error (.store error)) next := by
  fun_cases question? reading <;> simp_all [question?, step]

theorem OperatorReading.step_of_failed (l : Library) (reading : OperatorReading)
    (hquestion : reading.question? = some (subject, predicate))
    (hfailed : ask subject predicate = .failed error) :
    ∃ next, reading.step l ask = .item (.error (.store error)) next := by
  cases reading with
  | done => cases hquestion
  | once result => cases hquestion
  | programs lists =>
      obtain ⟨next, hnext⟩ := lists.step_of_failed hquestion hfailed
      exact ⟨.programs next, by simp only [step, hnext, ofList, retarget]⟩

/-- If the store fails to answer what a step asks, the step brings that failure. -/
theorem Solutions.step_of_failed {s : Surroundings} {live : Solutions} (hcalm : s.aborted = false)
    (hquestion : live.question? = some (subject, predicate))
    (hfailed : s.ask subject predicate = .failed error) :
    ∃ next, step s live = .item (.error (.store error)) next := by
  induction live using stepInduction with
  | items ready => cases hquestion
  | unending item n => cases hquestion
  | finished plan => cases hquestion
  | guarded live ih | pushing v live ih | through op live ih | deep operator arity live ih
  | distinct seen live ih | sequence plan applied live below ih | append first second ih =>
      obtain ⟨next, hnext⟩ := ih hquestion
      simp [step, hnext, hcalm, Except.map, Frame.advance, Progress.mapState]
  | lists use rest reading =>
      obtain ⟨next, hnext⟩ := reading.step_of_failed hquestion hfailed
      exact ⟨.lists use rest next, by simp only [step, hnext]⟩
  | operators use rest reading =>
      obtain ⟨next, hnext⟩ := reading.step_of_failed s.library hquestion hfailed
      exact ⟨.operators use rest next, by simp only [step, hnext]⟩
  | objects subject predicate rest =>
      cases hquestion
      exact ⟨.none, by simp only [step, hfailed]⟩

end Failures

/-! ## Histories -/

/-- What the store says to a call once it has answered. -/
def Reply.answer? : Reply → Option (Except StoreError (List Value))
  | .waiting => none
  | .failed error => some (.error error)
  | .found objects => some (.ok objects)

theorem Reply.answer?_eq_error {reply : Reply} {error : StoreError} :
    reply.answer? = some (.error error) ↔ reply = .failed error := by
  cases reply <;> simp [answer?]

/-- A call that the store has answered, or an item that has come out of a stream. -/
inductive Happening where
  | called (subject predicate : String) (answer : Except StoreError (List Value))
  | brought (item : Item)

namespace Solutions

/-- What happens in one step, the call before the item. -/
def happenings (s : Surroundings) (live : Solutions) : List Happening :=
  (live.question?.bind fun (subject, predicate) =>
    (s.ask subject predicate).answer?.map (.called subject predicate)).toList ++
  match step s live with
  | .item item _ => [.brought item]
  | .working _ | .waiting | .ended => []

end Solutions

/-- Next to every call that has failed stands the item that says so. -/
def Surfaced (happened : List Happening) : Prop :=
  ∀ before subject predicate error after,
    happened = before ++ .called subject predicate (.error error) :: after →
    ∃ rest, after = .brought (.error (.store error)) :: rest

theorem Surfaced.append {happened later : List Happening} (h : Surfaced happened)
    (h' : Surfaced later) : Surfaced (happened ++ later) := by
  intro before subject predicate error after heq
  obtain ⟨more, rfl, hlater⟩ | ⟨more, rfl, hmore⟩ := List.append_eq_append_iff.mp heq
  · exact h' more subject predicate error after hlater
  · cases more with
    | nil => exact h' [] subject predicate error after hmore.symm
    | cons happening rest =>
        cases hmore
        obtain ⟨next, rfl⟩ := h before subject predicate error rest rfl
        exact ⟨next ++ later, rfl⟩

theorem surfaced_of_no_failure {happened : List Happening}
    (h : ∀ subject predicate error, .called subject predicate (.error error) ∉ happened) :
    Surfaced happened := by
  rintro before subject predicate error after rfl
  exact absurd (List.mem_append_right _ List.mem_cons_self) (h subject predicate error)

namespace Solutions

/-- What comes out of a step is no call. -/
theorem called_mem_happenings {s : Surroundings} {live : Solutions} {subject predicate : String}
    {answer : Except StoreError (List Value)} :
    .called subject predicate answer ∈ live.happenings s ↔
      live.question? = some (subject, predicate) ∧
        (s.ask subject predicate).answer? = some answer := by
  have hitems : .called subject predicate answer ∉
      (match step s live with
        | .item item _ => [.brought item]
        | .working _ | .waiting | .ended => [] : List Happening) := by
    split <;> simp
  simp only [happenings, List.mem_append, hitems, or_false, Option.mem_toList,
    Option.bind_eq_some_iff, Option.map_eq_some_iff, Prod.exists]
  constructor
  · rintro ⟨_, _, hquestion, _, hanswer, heq⟩
    cases heq
    exact ⟨hquestion, hanswer⟩
  · rintro ⟨hquestion, hanswer⟩
    exact ⟨subject, predicate, hquestion, answer, hanswer, rfl⟩

theorem surfaced_happenings {s : Surroundings} (hcalm : s.aborted = false) (live : Solutions) :
    Surfaced (live.happenings s) := by
  -- Only a step whose question has failed shows both, and the call comes first.
  by_cases hfailure : ∃ subject predicate error, live.question? = some (subject, predicate) ∧
      s.ask subject predicate = .failed error
  · obtain ⟨subject, predicate, error, hquestion, hfailed⟩ := hfailure
    obtain ⟨next, hnext⟩ := step_of_failed hcalm hquestion hfailed
    have hboth : live.happenings s =
        [.called subject predicate (.error error), .brought (.error (.store error))] := by
      simp [happenings, hquestion, hfailed, Reply.answer?, hnext]
    rw [hboth]
    intro before _ _ _ after heq
    cases before with
    | nil =>
        cases heq
        exact ⟨[], rfl⟩
    | cons _ before => cases before <;> simp at heq
  · refine surfaced_of_no_failure fun subject predicate error hmem => hfailure ?_
    obtain ⟨hquestion, hanswer⟩ := called_mem_happenings.mp hmem
    exact ⟨subject, predicate, error, hquestion, Reply.answer?_eq_error.mp hanswer⟩

theorem surfaced_history {moments : List Surroundings} (hcalm : ∀ s ∈ moments, s.aborted = false)
    (live : Solutions) : Surfaced (history step happenings moments live) :=
  history_induction (surfaced_of_no_failure (by simp)) (fun _ _ => Surfaced.append)
    (fun s hs live => surfaced_happenings (hcalm s hs) live) live

end Solutions

/--
A query is made without a call to the store, and each of its steps puts at most
one.  As long as it is not aborted, every call that fails is followed at once by
the item that carries the failure, whatever has happened before; so where no
error has come out, every call has succeeded.
-/
theorem store_failures_surface {l : Library} {ask : Connection} {tokens : List Token}
    {stack : Stack} {live : Solutions} (hlive : evaluate (.calm l ask) tokens stack = .ok live)
    {moments : List Surroundings} (hcalm : ∀ s ∈ moments, s.aborted = false) :
    (∀ ask', evaluate (.calm l ask') tokens stack = .ok live) ∧
    (∀ (later : Solutions) (s : Surroundings) (ask' : Connection),
      (∀ subject predicate, later.question? = some (subject, predicate) →
        s.ask subject predicate = ask' subject predicate) →
      later.step s = later.step { s with ask := ask' }) ∧
    (∀ before subject predicate error after,
      history Solutions.step Solutions.happenings moments live =
        before ++ .called subject predicate (.error error) :: after →
      ∃ rest, after = .brought (.error (.store error)) :: rest) ∧
    ((∀ error, .brought (.error error) ∉
        history Solutions.step Solutions.happenings moments live) →
      ∀ subject predicate answer,
        .called subject predicate answer ∈
          history Solutions.step Solutions.happenings moments live →
        ∃ objects, answer = .ok objects) := by
  have hsurfaced := Solutions.surfaced_history hcalm live
  refine ⟨fun ask' => hlive, fun later s ask' => later.step_congr, hsurfaced, ?_⟩
  intro hnone subject predicate answer hmem
  cases answer with
  | ok objects => exact ⟨objects, rfl⟩
  | error error =>
      obtain ⟨before, after, hsplit⟩ := List.append_of_mem hmem
      obtain ⟨rest, rfl⟩ := hsurfaced before subject predicate error after hsplit
      exact absurd (by simp [hsplit]) (hnone (.store error))

/-- A list of which the store has a first member, but fails to say the rest. -/
theorem unread_rest_surfaces :
    let failure : StoreError := ⟨"gone", []⟩
    let broken : Connection := fun _ predicate =>
      if predicate = Vocabulary.rdfFirst then .found [.integer 1] else .failed failure
    let tokens : List Token := [.push (.resource "urn:a"), .call "each"]
    ∃ live, evaluate (.calm .standard broken) tokens [] = .ok live ∧
      ∃ before after, history Solutions.step Solutions.happenings
          (List.replicate 4 (.calm .standard broken)) live =
        before ++ .called "urn:a" Vocabulary.rdfRest (.error failure) :: after ∧
      ∃ rest, after = .brought (.error (.store failure)) :: rest := by
  intro failure broken tokens
  obtain ⟨each, heach, haction, harity⟩ : ∃ p,
      Library.standard.resolve? "each" = some (.primitive p) ∧ p.action = .each ∧ p.arity = 1 :=
    ⟨_, Standard.resolve?_word (i := 33) rfl rfl, rfl, rfl⟩
  -- The library is kept a variable while the query is run in it.
  have hruns (l : Library) (h : l.resolve? "each" = some (.primitive each)) :
      ∃ live, evaluate (.calm l broken) tokens [] = .ok live ∧
        ∃ before after, history Solutions.step Solutions.happenings
            (List.replicate 4 (.calm l broken)) live =
          before ++ .called "urn:a" Vocabulary.rdfRest (.error failure) :: after := by
    have hsteps : Token.operators l tokens =
        .ok [.constant (.resource "urn:a"), .primitive each] := by
      simp only [tokens, Token.operators, List.mapM_cons, List.mapM_nil, Token.operator, h]
      rfl
    obtain ⟨identifiers, parameters, comment, inverse, action⟩ := each
    obtain ⟨parameter, rfl⟩ := List.length_eq_one_iff.mp harity
    cases haction
    obtain ⟨live, hlive⟩ : ∃ live, evaluate (.calm l broken) tokens [] = .ok live := by
      simp only [evaluate, Surroundings.calm_library, hsteps]
      exact ⟨_, rfl⟩
    refine ⟨live, hlive, [.called "urn:a" Vocabulary.rdfFirst (.ok [.integer 1])],
      [.brought (.error (.store failure))], ?_⟩
    simp only [evaluate, Surroundings.calm_library, hsteps] at hlive
    cases hlive
    rfl
  obtain ⟨live, hlive, before, after, hhistory⟩ := hruns .standard heach
  have hcalm : ∀ s ∈ List.replicate 4 (Surroundings.calm .standard broken), s.aborted = false :=
    fun s hs => List.eq_of_mem_replicate hs ▸ rfl
  exact ⟨live, hlive, before, after, hhistory,
    (store_failures_surface hlive hcalm).2.2.1 _ _ _ _ _ hhistory⟩

end StackQuery
