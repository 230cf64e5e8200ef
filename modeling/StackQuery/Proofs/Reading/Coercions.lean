import StackQuery.Proofs.Evaluation.StoreFailures
import StackQuery.Proofs.Library.Additions
import StackQuery.Proofs.Reading.Canonical
import StackQuery.Proofs.Streams.Agreement
import StackQuery.Proofs.Value.Equality

/-!
# Equal values are read alike

Numbers, truth values and lists are read off canonical forms, and the canonical
forms of equal values match.  Only operators are read off the value itself, in
which the resource of the empty list and the empty list differ.  They are read
alike as long as no word is loaded under that resource, and so are the members
of lists that are read as programs.
-/

namespace StackQuery

variable {l : Library} {graph : Graph} {v x y : Value}

/-! ## The resource of the empty list -/

theorem Library.resolve?_rdfNil (hl : l.ReachableAtAll) (h : Vocabulary.rdfNil ∉ l.operators) :
    l.resolve? Vocabulary.rdfNil = none := by
  have hkeyword : Vocabulary.rdfNil ∉ l.keywords := fun hmem => by
    have hplain := hl.keywordsPlain _ hmem
    revert hplain
    decide
  rw [resolve?, find?_of_keyword h, Std.ExtTreeMap.getElem?_eq_none hkeyword]
  rfl

namespace Value

theorem eq_of_canonical_operator {op : Operator} (h : v.canonical = .operator op) :
    v = .operator op := by
  cases v with
  | literal literal =>
      have hplain := isPlain_canonical_literal literal
      rw [h] at hplain
      exact hplain.elim
  | resource identifier =>
      have hplain := isPlain_canonical_resource identifier
      rw [h] at hplain
      exact hplain.elim
  | _ => exact h

theorem eq_of_canonical_resource {identifier : String} (h : v.canonical = .resource identifier) :
    v = .resource identifier := by
  cases v with
  | literal literal =>
      rw [canonical] at h
      split at h
      next native _ => cases native <;> cases h
      next => cases h
  | resource other =>
      rw [canonical] at h
      split at h
      · cases h
      · exact h
  | _ => exact h

end Value

/-! ## Programs -/

namespace Operator

theorem ofMember_of_canonical (hnil : l.resolve? Vocabulary.rdfNil = none)
    (hoperator : ∀ op, v.canonical ≠ .operator op)
    (hresource : ∀ identifier, v.canonical ≠ .resource identifier) :
    ofMember l v = .constant v := by
  cases v with
  | operator op => exact absurd rfl (hoperator op)
  | resource identifier =>
      have hcanonical := hresource identifier
      rw [Value.canonical] at hcanonical
      split at hcanonical
      next hisNil => rw [eq_of_beq hisNil, ofMember, hnil, Option.getD_none]
      next => exact absurd rfl hcanonical
  | _ => rfl

/-- Equal members stand for equal steps. -/
theorem ofMember_order (hnil : l.resolve? Vocabulary.rdfNil = none) (h : x.order y = .eq) :
    (ofMember l x).order (ofMember l y) = .eq := by
  have hmatches := Value.canonical_matches h
  generalize hx : x.canonical = c at hmatches
  generalize hy : y.canonical = d at hmatches
  cases hmatches with
  | operator hsame =>
      obtain rfl := Value.eq_of_canonical_operator hx
      obtain rfl := Value.eq_of_canonical_operator hy
      exact hsame
  | resource identifier =>
      obtain rfl := Value.eq_of_canonical_resource hx
      obtain rfl := Value.eq_of_canonical_resource hy
      exact Std.ReflCmp.compare_self
  | _ =>
      rw [ofMember_of_canonical hnil (by simp [hx]) (by simp [hx]),
        ofMember_of_canonical hnil (by simp [hy]) (by simp [hy])]
      exact h

theorem program_order (hnil : l.resolve? Vocabulary.rdfNil = none) {xs ys : List Value}
    (h : Value.orderLists xs ys = .eq) : (program l xs).order (program l ys) = .eq := by
  change orderSteps (xs.map (ofMember l)) (ys.map (ofMember l)) = .eq
  induction xs generalizing ys with
  | nil =>
      cases ys with
      | nil => rfl
      | cons y ys => cases h
  | cons x xs ih =>
      cases ys with
      | nil => cases h
      | cons y ys =>
          rw [Value.orderLists, Ordering.then_eq_eq] at h
          rw [List.map_cons, List.map_cons, orderSteps, ofMember_order hnil h.1, ih h.2]
          rfl

end Operator

/-! ## Readings -/

theorem Value.readNumber_agrees (h : x.order y = .eq) :
    Agrees (fun m n => m.order n = .eq) x.readNumber y.readNumber := by
  have hmatches := canonical_matches h
  rw [readNumber_eq, readNumber_eq]
  generalize x.canonical = c, y.canonical = d at hmatches ⊢
  cases hmatches with
  | number hsame => exact .ok hsame
  | _ => exact .error rfl

theorem Value.readBoolean_agrees (h : x.order y = .eq) :
    Agrees Eq x.readBoolean y.readBoolean := by
  have hmatches := canonical_matches h
  rw [readBoolean_eq, readBoolean_eq]
  generalize x.canonical = c, y.canonical = d at hmatches ⊢
  cases hmatches with
  | boolean b => exact .ok rfl
  | _ => exact .error rfl

namespace ListReading

theorem bringsOne_once (result : Except EvalError (List Value)) :
    BringsOne step (.once result) result :=
  ⟨.done, fun _ => rfl, fun _ => rfl⟩

/-- A node of the graph is walked for both values alike; else one result comes for each. -/
theorem itemsAgree_ofValue (h : x.order y = .eq) :
    ItemsAgree graph step (fun xs ys => Value.orderLists xs ys = .eq)
      (.ofValue x) (.ofValue y) := by
  have hmatches := Value.canonical_matches h
  rw [ofValue_eq, ofValue_eq]
  generalize x.canonical = c, y.canonical = d at hmatches ⊢
  cases hmatches with
  | list hsame => exact (bringsOne_once _).itemsAgree (bringsOne_once _) (.ok hsame)
  | resource identifier =>
      exact .refl (fun ask hask reading => reading.step_of_heldTo hask)
        (fun _ => Std.ReflCmp.compare_self) _
  | _ => exact (bringsOne_once _).itemsAgree (bringsOne_once _) (.error rfl)

end ListReading

namespace OperatorReading

theorem step_of_heldTo {ask : Connection} (reading : OperatorReading) (h : graph.HeldTo ask) :
    reading.step l ask = .waiting ∨ reading.step l ask = reading.step l graph.atOnce := by
  cases reading with
  | programs lists =>
      rcases lists.step_of_heldTo h with hwaiting | hsame
      · exact .inl (by simp only [step, hwaiting])
      · exact .inr (by simp only [step, hsame])
  | _ => exact .inr rfl

theorem bringsOne_once (result : Except EvalError Operator) :
    BringsOne (step l) (.once result) result :=
  ⟨.done, fun _ => rfl, fun _ => rfl⟩

/-- What does not name a node of the graph is read as one operator, or not at all. -/
theorem bringsOne_ofValue (hnil : l.resolve? Vocabulary.rdfNil = none)
    (hresource : ∀ identifier, v.canonical ≠ .resource identifier) :
    BringsOne (step l) (.ofValue l v) (match v.canonical with
      | .operator op => .ok op
      | .list members => .ok (Operator.program l members)
      | _ => .error (.coercion v.print .operator)) := by
  cases v with
  | resource identifier =>
      have hcanonical := hresource identifier
      rw [Value.canonical] at hcanonical ⊢
      split at hcanonical
      next hisNil =>
        rw [eq_of_beq hisNil, ofValue, hnil]
        exact ⟨.programs .done, fun _ => rfl, fun _ => rfl⟩
      next => exact absurd rfl hcanonical
  | literal literal =>
      rw [Value.canonical]
      cases literal.native? with
      | none => exact bringsOne_once _
      | some native => cases native <;> exact bringsOne_once _
  | _ => exact bringsOne_once _

theorem itemsAgree_ofValue (hnil : l.resolve? Vocabulary.rdfNil = none) (h : x.order y = .eq) :
    ItemsAgree graph (step l) (fun p q => p.order q = .eq) (.ofValue l x) (.ofValue l y) := by
  have hmatches := Value.canonical_matches h
  generalize hx : x.canonical = c at hmatches
  generalize hy : y.canonical = d at hmatches
  cases hmatches with
  | resource identifier =>
      obtain rfl := Value.eq_of_canonical_resource hx
      obtain rfl := Value.eq_of_canonical_resource hy
      exact .refl (fun ask hask reading => reading.step_of_heldTo hask)
        (fun _ => Std.ReflCmp.compare_self) _
  | _ =>
      have hbringsx := bringsOne_ofValue hnil (v := x) (by simp [hx])
      have hbringsy := bringsOne_ofValue hnil (v := y) (by simp [hy])
      rw [hx] at hbringsx
      rw [hy] at hbringsy
      refine hbringsx.itemsAgree hbringsy ?_
      first
        | exact .error rfl
        | exact .ok ‹_›
        | exact .ok (Operator.program_order hnil ‹_›)

end OperatorReading

/--
Equal values are read alike: as numbers that are the same and as the same truth
value, or both not, and as streams of lists and of operators that agree place by
place and have the same number of items.
-/
theorem readings_respect_equality (h : x.order y = .eq) (hl : l.ReachableAtAll)
    (hnil : Vocabulary.rdfNil ∉ l.operators) :
    Agrees (fun m n => m.order n = .eq) x.readNumber y.readNumber ∧
      Agrees Eq x.readBoolean y.readBoolean ∧
      ItemsAgree graph ListReading.step (fun xs ys => Value.orderLists xs ys = .eq)
        (.ofValue x) (.ofValue y) ∧
      ItemsAgree graph (OperatorReading.step l) (fun p q => p.order q = .eq)
        (.ofValue l x) (.ofValue l y) :=
  ⟨Value.readNumber_agrees h, Value.readBoolean_agrees h, ListReading.itemsAgree_ofValue h,
    OperatorReading.itemsAgree_ofValue (Library.resolve?_rdfNil hl hnil) h⟩

/-- Two programs with the same members in different forms, in a library that has one word. -/
theorem mixed_programs_read_alike :
    let x : Value := .list [.resource Vocabulary.rdfNil,
      .literal (.typed "2" (Vocabulary.xsd ++ "integer")), .resource "x"]
    let y : Value := .list [.list [], .decimal ⟨0x4000000000000000⟩, .resource "x"]
    let l := Library.oneName
    x.order y = .eq ∧ l.ReachableAtAll ∧ Vocabulary.rdfNil ∉ l.operators ∧
      ItemsAgree (fun _ _ => .ok []) (OperatorReading.step l) (fun p q => p.order q = .eq)
        (.ofValue l x) (.ofValue l y) := by
  intro x y l
  have h : x.order y = .eq := by decide +kernel
  have hone : Library.empty.registerUnder ["urn:a#x"] Library.nothing .reject = .ok l := rfl
  have hl : l.ReachableAtAll := .registerUnder .empty trivial hone
  have hnil : Vocabulary.rdfNil ∉ l.operators := by
    rw [← Std.ExtTreeMap.contains_iff_mem]
    decide +kernel
  obtain ⟨_, _, _, hread⟩ := readings_respect_equality h hl hnil
  exact ⟨h, hl, hnil, hread⟩

end StackQuery
