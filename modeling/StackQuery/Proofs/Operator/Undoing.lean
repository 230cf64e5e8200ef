import StackQuery.Proofs.Operator.Application
import StackQuery.Proofs.Solutions.Yields

/-!
# Undoing a composition

The inverse of a composition applies the inverses of its steps, the last one
first.  If every step has led from one stack to one other, and its inverse leads
back, then the composition leads from the first stack to the last and its
inverse back to the first.  Both are shown along the steps: forwards each step
comes before the rest, and backwards its inverse comes after theirs.
-/

namespace StackQuery

/--
Steps that lead from a stack to another one, each of them to one stack only, and
whose inverses lead from each of these stacks back to the one before.
-/
inductive Undone (l : Library) (graph : Graph) : List Operator → Stack → Stack → Prop where
  | nil (stack : Stack) : Undone l graph [] stack stack
  | cons {op inverse : Operator} {steps : List Operator} {first next last : Stack}
      (hinverse : op.inverse l = .ok inverse)
      (forth : (op.apply l first).Yields l graph [.ok next])
      (back : (inverse.apply l next).Yields l graph [.ok first])
      (later : Undone l graph steps next last) : Undone l graph (op :: steps) first last

namespace Operator

open Solutions (AlikeAtOnce)

variable {l : Library} {graph : Graph} {op : Operator} {steps : List Operator}
  {first next last : Stack} {live : Solutions}

/-- What leads from one stack to another one does so in a stream of that stack alone. -/
theorem onStream_alikeAtOnce (h : (op.apply l first).Yields l graph [.ok next])
    (hlive : AlikeAtOnce l graph live (.single first)) :
    AlikeAtOnce l graph (op.onStream live) (.single next) := by
  have hsingle := (apply_alike_onStream (l := l) op first).over fun _ : Unit => graph.atOnce
  exact (onStream_alike op hlive).trans
    (hsingle.symm.trans (Solutions.yields_iff_alikeAtOnce.mp h))

theorem steps_alikeAtOnce (h : Undone l graph steps first last)
    (hlive : AlikeAtOnce l graph live (.single first)) :
    AlikeAtOnce l graph (inOrder steps live) (.single last) := by
  induction h generalizing live with
  | nil stack => exact hlive
  | cons hinverse forth back later ih => exact ih (onStream_alikeAtOnce forth hlive)

/-- The inverses of the steps, in the order in which they are applied, lead back. -/
theorem inverseSteps_alikeAtOnce (h : Undone l graph steps first last) :
    ∃ inverses, inverseSteps l steps = .ok inverses ∧
      ∀ {live}, AlikeAtOnce l graph live (.single last) →
        AlikeAtOnce l graph (inOrder inverses live) (.single first) := by
  induction h with
  | nil stack => exact ⟨[], rfl, fun hlive => hlive⟩
  | @cons op inverse steps first next last hinverse forth back later ih =>
      obtain ⟨inverses, hinverses, hback⟩ := ih
      refine ⟨inverses ++ [inverse], ?_, fun hlive => ?_⟩
      · rw [inverseSteps, hinverses, hinverse]
        rfl
      · rw [inOrder, List.foldl_append]
        exact onStream_alikeAtOnce back (hback hlive)

theorem composed_alikeAtOnce (h : Undone l graph steps first last) (source : Option (List Value)) :
    AlikeAtOnce l graph ((Operator.composed steps source).apply l first) (.single last) :=
  ((composed_apply_alike steps source first).over _).trans (steps_alikeAtOnce h (.refl _))

/-- The inverse of the composition leads back from the last stack, alone or as a stream. -/
theorem exists_inverse (h : Undone l graph steps first last) (source : Option (List Value)) :
    ∃ inverse, (Operator.composed steps source).inverse l = .ok inverse ∧
      AlikeAtOnce l graph (inverse.apply l last) (.single first) ∧
      ∀ live, AlikeAtOnce l graph live (.single last) →
        AlikeAtOnce l graph (inverse.onStream live) (.single first) := by
  obtain ⟨inverses, hinverses, hback⟩ := inverseSteps_alikeAtOnce h
  have hinverse : (Operator.composed steps source).inverse l =
      .ok (.inverted (.composed steps source) (compose inverses)) := by
    rw [inverse, hinverses]
    rfl
  refine ⟨_, hinverse, ?_, fun live hlive => ?_⟩
  · rw [apply]
    exact ((composed_apply_alike inverses none last).over _).trans (hback (.refl _))
  · rw [onStream, compose, onStream]
    exact ((segmentsOnStream_alike_foldl inverses [] live).over _).trans (hback hlive)

end Operator

section Steps

variable {l : Library} {graph : Graph} {steps later : List Operator} {first next last : Stack}

theorem Undone.single {op inverse : Operator} (hinverse : op.inverse l = .ok inverse)
    (hforth : op.apply l first = .single next) (hback : inverse.apply l next = .single first)
    (hlater : Undone l graph later next last) : Undone l graph (op :: later) first last := by
  refine .cons hinverse ?_ ?_ hlater
  · rw [hforth]
    exact Solutions.yields_single next
  · rw [hback]
    exact Solutions.yields_single first

/-- A composition of steps may itself be a step. -/
theorem Undone.composed (h : Undone l graph steps first next) (source : Option (List Value))
    (hlater : Undone l graph later next last) :
    Undone l graph (.composed steps source :: later) first last := by
  obtain ⟨inverse, hinverse, hback, _⟩ := Operator.exists_inverse h source
  have hforth := Operator.composed_alikeAtOnce h source
  exact .cons hinverse (Solutions.yields_iff_alikeAtOnce.mpr hforth)
    (Solutions.yields_iff_alikeAtOnce.mpr hback) hlater

/--
If each step of a composition, on the stack that it is given, yields one stack
and its inverse takes that stack back, then the composition has an inverse that
takes what the composition yields back to the stack that it was given.
-/
theorem composition_undone (h : Undone l graph steps first last) (source : Option (List Value)) :
    ∃ inverse, (Operator.composed steps source).inverse l = .ok inverse ∧
      (∀ items, ((Operator.composed steps source).apply l first).Yields l graph items ↔
        items = [.ok last]) ∧
      (∀ items, (inverse.apply l last).Yields l graph items ↔ items = [.ok first]) ∧
      ∀ items, (inverse.onStream ((Operator.composed steps source).apply l first)).Yields l graph
        items ↔ items = [.ok first] := by
  obtain ⟨inverse, hinverse, hback, hstream⟩ := Operator.exists_inverse h source
  have hforth := Operator.composed_alikeAtOnce h source
  exact ⟨inverse, hinverse, fun _ => hforth.yields_iff, fun _ => hback.yields_iff,
    fun _ => (hstream _ hforth).yields_iff⟩

end Steps

/-! Two words that undo themselves and do not commute. -/

namespace Shuffles

def exchange : Operator := .primitive ⟨["urn:a#exchange"], [Standard.any "x", Standard.any "y"],
  "x y => y x", some "urn:a#exchange", .swap⟩

def turn : Operator := .primitive ⟨["urn:a#turn"],
  [Standard.any "x", Standard.any "y", Standard.any "z"], "x y z => z y x", some "turn", .rotate⟩

def library : Library :=
  ⟨.ofList [("urn:a#exchange", Loaded.mk exchange 0), ("urn:a#turn", Loaded.mk turn 1)],
    .ofList [("exchange", "urn:a#exchange"), ("turn", "urn:a#turn")], 2⟩

theorem inverse_exchange : exchange.inverse library = .ok (.inverted exchange exchange) := rfl

theorem inverse_turn : turn.inverse library = .ok (.inverted turn turn) := rfl

end Shuffles

open Shuffles in
/-- A composition with another one inside it, and with a step that has been turned round. -/
theorem shuffle_undone :
    let graph : Graph := fun _ _ => .ok []
    let steps := [exchange, .composed [turn, exchange] none, .inverted turn turn]
    let first : Stack := [.text "c", .text "b", .text "a"]
    let last : Stack := [.text "b", .text "a", .text "c"]
    Undone library graph steps first last ∧
      ∃ inverse, (Operator.composed steps none).inverse library = .ok inverse ∧
        ((Operator.composed steps none).apply library first).Yields library graph [.ok last] ∧
        (inverse.apply library last).Yields library graph [.ok first] := by
  intro graph steps first last
  have hturned : Undone library graph [.inverted turn turn] [.text "c", .text "a", .text "b"]
      last := .single rfl rfl rfl (.nil last)
  have hexchange : Undone library graph [exchange] [.text "a", .text "c", .text "b"]
      [.text "c", .text "a", .text "b"] := .single inverse_exchange rfl rfl (.nil _)
  have hinner : Undone library graph [turn, exchange] [.text "b", .text "c", .text "a"]
      [.text "c", .text "a", .text "b"] := .single inverse_turn rfl rfl hexchange
  have hsteps : Undone library graph steps first last :=
    .single inverse_exchange rfl rfl (hinner.composed none hturned)
  obtain ⟨inverse, hinverse, hforth, hback, _⟩ := composition_undone hsteps none
  exact ⟨hsteps, inverse, hinverse, (hforth _).mpr rfl, (hback _).mpr rfl⟩

end StackQuery
