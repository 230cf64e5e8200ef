import StackQuery.Proofs.Operator.Undoing
import StackQuery.Proofs.Value.Order

/-!
# Which operators have inverses

An operator is made of parts: reading compositions through, one comes to
primitives, to constants and to operators that have been turned round.  The
last are not looked into, since they remember what they were before.  A part
may have something in the way of its inverse, and an operator has an inverse
unless one of its parts has; what it fails with is in the way of the part that
is read last, because a composition is inverted from its end.

Turning an operator round twice gives the operator back.  For what has just
been turned round this is how it is made; for the operator that an inverted one
was before, it depends on where that came from, so the operators are taken to be
built in one library.
-/

namespace StackQuery

namespace Operator

/-! ## Parts -/

mutual

/-- What an operator is made of, with compositions read through. -/
def parts : Operator → List Operator
  | .composed steps _ => partsOfSteps steps
  | op => [op]

def partsOfSteps : List Operator → List Operator
  | [] => []
  | step :: rest => step.parts ++ partsOfSteps rest

end

/-- What is in the way of the inverse of a part. -/
def obstacle? (l : Library) : Operator → Option Unsupported
  | .constant v => some (.constantInverse v.print)
  | .primitive p => match p.inverse with
    | none => some (.noInverse p.name)
    | some identifier =>
        if l.contains identifier then none else some (.inverseNotLoaded identifier p.name)
  | .composed _ _ | .inverted _ _ => none

/-- What is in the way of the inverse of the last of some parts that has something in the way. -/
def lastObstacle? (l : Library) (parts : List Operator) : Option Unsupported :=
  parts.reverse.findSome? (obstacle? l)

variable {l : Library} {op inverse : Operator}

theorem obstacle?_eq_none_iff : op.obstacle? l = none ↔
    (∀ v, op ≠ .constant v) ∧
      ∀ p, op = .primitive p → ∃ identifier, p.inverse = some identifier ∧
        l.contains identifier = true := by
  cases op with
  | constant v => simp [obstacle?]
  | composed | inverted => simp [obstacle?]
  | primitive p => cases hinverse : p.inverse <;> simp [obstacle?, hinverse]

theorem lastObstacle?_append (l : Library) (before after : List Operator) :
    lastObstacle? l (before ++ after) = (lastObstacle? l after).or (lastObstacle? l before) := by
  rw [lastObstacle?, List.reverse_append, List.findSome?_append]
  rfl

theorem lastObstacle?_eq_none_iff (parts : List Operator) :
    lastObstacle? l parts = none ↔ ∀ part ∈ parts, part.obstacle? l = none := by
  simp [lastObstacle?]

theorem exists_of_lastObstacle? {parts : List Operator} {operation : Unsupported}
    (h : lastObstacle? l parts = some operation) :
    ∃ part ∈ parts, part.obstacle? l = some operation := by
  obtain ⟨part, hpart, hobstacle⟩ := List.exists_of_findSome?_eq_some h
  exact ⟨part, List.mem_reverse.mp hpart, hobstacle⟩

/-! ## Inverses and obstacles -/

/-- There is a result if nothing is in its way, and otherwise the failure says what is. -/
def Meets {α : Type} : Option Unsupported → Except EvalError α → Prop
  | none, result => ∃ a, result = .ok a
  | some operation, result => result = .error (.unsupported operation)

theorem Meets.bind {α β : Type} {first? next? : Option Unsupported} {x : Except EvalError α}
    {f : α → Except EvalError β} (hfirst : Meets first? x) (hnext : ∀ a, Meets next? (f a)) :
    Meets (first?.or next?) (x >>= f) := by
  cases first? with
  | none =>
      obtain ⟨a, rfl⟩ := hfirst
      exact hnext a
  | some operation =>
      rw [hfirst]
      rfl

theorem meets_primitiveInverse (l : Library) (p : Primitive) :
    Meets ((Operator.primitive p).obstacle? l) (primitiveInverse l p) := by
  unfold primitiveInverse
  cases hinverse : p.inverse with
  | none => simp only [obstacle?, hinverse, Meets]
  | some identifier =>
      rcases Option.eq_none_or_eq_some (l.resolve? identifier) with hresolve | ⟨found, hresolve⟩
      · simp [obstacle?, hinverse, Library.contains, hresolve, Meets]
      · simp [obstacle?, hinverse, Library.contains, hresolve, Meets]

mutual

theorem meets_inverse (l : Library) : ∀ op : Operator,
    Meets (lastObstacle? l op.parts) (op.inverse l)
  | .primitive p => by
      have hparts : lastObstacle? l (Operator.primitive p).parts =
          (Operator.primitive p).obstacle? l := List.findSome?_singleton
      rw [inverse, hparts]
      exact meets_primitiveInverse l p
  | .constant v => by
      rw [inverse]
      rfl
  | .inverted forward _ => by
      rw [inverse]
      exact ⟨forward, rfl⟩
  | .composed steps source => by
      rw [inverse, parts, ← Option.or_none (o := lastObstacle? l (partsOfSteps steps))]
      exact (meets_inverseSteps l steps).bind fun inverses => ⟨_, rfl⟩

theorem meets_inverseSteps (l : Library) : ∀ steps : List Operator,
    Meets (lastObstacle? l (partsOfSteps steps)) (inverseSteps l steps)
  | [] => ⟨[], rfl⟩
  | step :: rest => by
      have hstep (later : List Operator) : Meets (lastObstacle? l step.parts) (do
          let undone ← step.inverse l
          .ok (later ++ [undone])) := by
        rw [← Option.or_none (o := lastObstacle? l step.parts)]
        exact (meets_inverse l step).bind fun undone => ⟨_, rfl⟩
      rw [inverseSteps, partsOfSteps, lastObstacle?_append]
      exact (meets_inverseSteps l rest).bind hstep

end

/-- An operator fails to have an inverse by the obstacle that is read last. -/
theorem inverse_eq_error_iff {error : EvalError} :
    op.inverse l = .error error ↔
      ∃ operation, lastObstacle? l op.parts = some operation ∧ error = .unsupported operation := by
  have hmeets := meets_inverse l op
  cases hobstacle : lastObstacle? l op.parts with
  | none =>
      rw [hobstacle] at hmeets
      obtain ⟨inverse, hinverse⟩ := hmeets
      simp [hinverse]
  | some operation =>
      rw [hobstacle] at hmeets
      simp only [Meets] at hmeets
      simp [hmeets, eq_comm]

theorem exists_inverse_iff :
    (∃ inverse, op.inverse l = .ok inverse) ↔ ∀ part ∈ op.parts, part.obstacle? l = none := by
  rw [← lastObstacle?_eq_none_iff]
  have hmeets := meets_inverse l op
  cases hobstacle : lastObstacle? l op.parts with
  | none =>
      rw [hobstacle] at hmeets
      exact iff_of_true hmeets rfl
  | some operation =>
      rw [hobstacle] at hmeets
      simp only [Meets] at hmeets
      simp [hmeets]

/-! ## Turning round twice -/

/-- What can be built of primitives and constants by composing and by inverting in a library. -/
inductive Built (l : Library) : Operator → Prop where
  | primitive (p : Primitive) : Built l (.primitive p)
  | constant (v : Value) : Built l (.constant v)
  | composed {steps : List Operator} (h : ∀ step ∈ steps, Built l step)
      (source : Option (List Value)) : Built l (.composed steps source)
  | inverse {op inverse : Operator} (h : Built l op) (hinverse : op.inverse l = .ok inverse) :
      Built l inverse

/-- Unless it is inverted itself, an operator is remembered by its inverse. -/
theorem eq_inverted_of_inverse (hinverse : op.inverse l = .ok inverse)
    (hplain : ∀ forward back, op ≠ .inverted forward back) :
    ∃ back, inverse = .inverted op back := by
  cases op with
  | primitive p =>
      rw [Operator.inverse, primitiveInverse] at hinverse
      split at hinverse
      next => cases hinverse
      next =>
        split at hinverse
        next => cases hinverse
        next back _ => exact ⟨back, (Except.ok.inj hinverse).symm⟩
  | constant v =>
      rw [Operator.inverse] at hinverse
      cases hinverse
  | inverted forward back => exact absurd rfl (hplain forward back)
  | composed steps source =>
      rw [Operator.inverse] at hinverse
      cases hsteps : inverseSteps l steps with
      | error error =>
          rw [hsteps] at hinverse
          cases hinverse
      | ok inverses =>
          rw [hsteps] at hinverse
          exact ⟨_, (Except.ok.inj hinverse).symm⟩

/-- An inverted operator that has been built is what the operator before it has as its inverse. -/
theorem Built.inverse_forward (h : Built l op) {forward back : Operator}
    (hop : op = .inverted forward back) : forward.inverse l = .ok op := by
  induction h generalizing forward back with
  | primitive | constant | composed => cases hop
  | @inverse op inverse _ hinverse ih =>
      cases op with
      | inverted before back' =>
          -- The inverse is what was there before, and inverted only if that was so.
          rw [Operator.inverse] at hinverse
          obtain rfl := Except.ok.inj hinverse
          have hbefore := ih rfl
          rw [hop, Operator.inverse] at hbefore
          rw [Except.ok.inj hbefore, Operator.inverse, hop]
      | primitive | constant | composed =>
          obtain ⟨back', rfl⟩ := eq_inverted_of_inverse hinverse (by simp)
          cases hop
          exact hinverse

theorem Built.inverse_inverse (h : Built l op) (hinverse : op.inverse l = .ok inverse) :
    inverse.inverse l = .ok op := by
  cases op with
  | inverted forward back =>
      rw [Operator.inverse] at hinverse
      obtain rfl := Except.ok.inj hinverse
      exact h.inverse_forward rfl
  | primitive | constant | composed =>
      obtain ⟨back, rfl⟩ := eq_inverted_of_inverse hinverse (by simp)
      rw [Operator.inverse]

/--
An operator has an inverse exactly if none of its parts is a constant and each
primitive among them declares an inverse that is loaded.  Otherwise inverting is
unsupported, and the failure tells what is in the way of one of the parts.  The
inverse of an operator that has been built in the library can be inverted in
turn, which gives the operator that one started with.
-/
theorem inverse_by_parts (h : Built l op) :
    ((∃ inverse, op.inverse l = .ok inverse) ↔
      (∀ v, .constant v ∉ op.parts) ∧ ∀ p, .primitive p ∈ op.parts →
        ∃ identifier, p.inverse = some identifier ∧ l.contains identifier = true) ∧
    (∀ error, op.inverse l = .error error → error.kind = .unsupportedOperation ∧
      ∃ part ∈ op.parts, ∃ operation, part.obstacle? l = some operation ∧
        error = .unsupported operation) ∧
    ∀ inverse, op.inverse l = .ok inverse →
      ∃ back, inverse.inverse l = .ok back ∧ back = op ∧ back.order op = .eq := by
  refine ⟨?_, fun error herror => ?_, fun inverse hinverse => ?_⟩
  · rw [exists_inverse_iff]
    simp only [obstacle?_eq_none_iff]
    constructor
    · intro hparts
      exact ⟨fun v hv => (hparts _ hv).1 v rfl, fun p hp => (hparts _ hp).2 p rfl⟩
    · rintro ⟨hconstants, hprimitives⟩ part hpart
      exact ⟨fun v hv => hconstants v (hv ▸ hpart), fun p hp => hprimitives p (hp ▸ hpart)⟩
  · obtain ⟨operation, hlast, rfl⟩ := inverse_eq_error_iff.mp herror
    obtain ⟨part, hpart, hobstacle⟩ := exists_of_lastObstacle? hlast
    exact ⟨rfl, part, hpart, operation, hobstacle, rfl⟩
  · exact ⟨op, h.inverse_inverse hinverse, rfl, Std.ReflCmp.compare_self⟩

open Shuffles in
/-- A composition with another one inside it, and with a step that has been inverted before. -/
theorem shuffle_inverted_twice :
    let op := compose [exchange, .composed [turn, exchange] none, .inverted turn turn]
    Built library op ∧ ∃ inverse back, op.inverse library = .ok inverse ∧
      inverse.inverse library = .ok back ∧ back.order op = .eq := by
  intro op
  have hexchange : Built library exchange := .primitive _
  have hturn : Built library turn := .primitive _
  have hturned : Built library (.inverted turn turn) := .inverse hturn inverse_turn
  have hinner : Built library (.composed [turn, exchange] none) :=
    .composed (by simp [hexchange, hturn]) none
  have hbuilt : Built library op := .composed (by simp [hexchange, hinner, hturned]) none
  have hparts : op.parts = [exchange, turn, exchange, .inverted turn turn] := rfl
  have hloaded : ∀ p, .primitive p ∈ op.parts →
      ∃ identifier, p.inverse = some identifier ∧ library.contains identifier = true := by
    intro p hp
    simp only [hparts, exchange, turn, List.mem_cons, Operator.primitive.injEq, reduceCtorEq,
      List.not_mem_nil, or_false] at hp
    rcases hp with rfl | rfl | rfl
    · exact ⟨"urn:a#exchange", rfl, rfl⟩
    · exact ⟨"turn", rfl, rfl⟩
    · exact ⟨"urn:a#exchange", rfl, rfl⟩
  obtain ⟨hexists, _, hback⟩ := inverse_by_parts hbuilt
  obtain ⟨inverse, hinverse⟩ := hexists.mpr ⟨by simp [hparts, exchange, turn], hloaded⟩
  obtain ⟨back, hinverted, _, hsame⟩ := hback inverse hinverse
  exact ⟨hbuilt, inverse, back, hinverse, hinverted, hsame⟩

end Operator

end StackQuery
