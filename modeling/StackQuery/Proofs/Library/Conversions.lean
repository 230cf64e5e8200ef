import StackQuery.Proofs.Library.Words
import StackQuery.Proofs.Number.Conversions
import StackQuery.Proofs.Reading.Coercions

/-!
# Converting equal values, and counting by them

The words that convert to integers and decimals read numbers, so equal values
are converted alike.  A text is converted by what is written in it, though, and
a literal that denotes the text is not.  A count is a number too, but only an
integer counts: the decimal that is equal to it gives no solutions.
-/

namespace StackQuery

namespace Value

/-- A text itself, not a literal that denotes it. -/
def IsText (v : Value) : Prop := ∃ s, v = .text s

/-- The value is read as an integer that is not negative. -/
def IsCount (v : Value) : Prop := ∃ n, v.readNumber = .ok n ∧ Action.count? n ≠ none

variable {v x y : Value}

theorem toInteger?_of_not_isText (h : ¬ v.IsText) :
    v.toInteger? = v.readNumber.map Number.truncate? := by
  cases v with
  | text s => exact absurd ⟨s, rfl⟩ h
  | _ => rfl

theorem toDecimal?_of_not_isText (h : ¬ v.IsText) :
    v.toDecimal? = v.readNumber.map fun n => some n.toDecimal := by
  cases v with
  | text s => exact absurd ⟨s, rfl⟩ h
  | _ => rfl

/-- Equal texts are identical. -/
theorem eq_of_isText (h : x.order y = .eq) (hx : x.IsText) (hy : y.IsText) : x = y := by
  obtain ⟨s, rfl⟩ := hx
  obtain ⟨t, rfl⟩ := hy
  have hmatches := canonical_matches h
  cases hmatches
  rfl

theorem toInteger?_agrees (h : x.order y = .eq) (htext : x.IsText ↔ y.IsText) :
    Agrees Eq x.toInteger? y.toInteger? := by
  by_cases hx : x.IsText
  · rw [eq_of_isText h hx (htext.1 hx)]
    exact .refl (fun _ => rfl) _
  · rw [toInteger?_of_not_isText hx, toInteger?_of_not_isText (mt htext.2 hx)]
    exact (readNumber_agrees h).map fun m n hsame => Number.truncate?_eq_of_order hsame

theorem toDecimal?_agrees (h : x.order y = .eq) (htext : x.IsText ↔ y.IsText) :
    Agrees (Option.Rel fun d e => (Number.decimal d).order (.decimal e) = .eq)
      x.toDecimal? y.toDecimal? := by
  by_cases hx : x.IsText
  · rw [eq_of_isText h hx (htext.1 hx)]
    refine .refl (fun d => ?_) _
    cases d with
    | none => exact .none
    | some d => exact .some Std.ReflCmp.compare_self
  · rw [toDecimal?_of_not_isText hx, toDecimal?_of_not_isText (mt htext.2 hx)]
    exact (readNumber_agrees h).map fun m n hsame => .some (Number.toDecimal_eq_of_order hsame)

/-- Equal values are the same count, if both of them are counts or neither is. -/
theorem count?_agrees (h : x.order y = .eq) (hcount : x.IsCount ↔ y.IsCount) :
    Agrees Eq (x.readNumber.map Action.count?) (y.readNumber.map Action.count?) := by
  have hread := readNumber_agrees h
  unfold IsCount at hcount
  generalize x.readNumber = r, y.readNumber = r' at hread hcount
  cases hread with
  | error hkind => exact .error hkind
  | @ok m n hsame =>
      refine .ok ?_
      have hnone : Action.count? m ≠ none ↔ Action.count? n ≠ none := by simpa using hcount
      cases m with
      | integer i =>
          cases n with
          | integer j => rw [Number.integer_eq_of_key ((Number.order_eq_iff _ _).1 hsame)]
          | decimal e => exact of_not_not fun hne => hnone.1 hne rfl
      | decimal d =>
          cases n with
          | integer j => exact (of_not_not fun hne => hnone.2 hne rfl).symm
          | decimal e => rfl

end Value

/-! ## Streams of the words -/

section Streams

open StackQuery.Action

variable {l : Library} {graph : Graph} {rest : Stack} {β : Type} {same same' : β → β → Prop}

/-- Two streams of solutions whose stacks are the same place by place. -/
abbrev SolutionsAgree (l : Library) (graph : Graph) : Solutions → Solutions → Prop :=
  ItemsAgree graph (Solutions.calmStep l) fun s s' => Value.orderLists s s' = .eq

theorem SolutionsAgree.refl (live : Solutions) : SolutionsAgree l graph live live :=
  ItemsAgree.refl (fun _ hask live => live.step_of_heldTo hask)
    (fun _ => Std.ReflCmp.compare_self) live

theorem bringsOne_items (item : Item) : BringsOne (Solutions.calmStep l) (.items [item]) item :=
  ⟨.none, fun _ => rfl, fun _ => rfl⟩

theorem SolutionsAgree.push {v w : Value} (h : v.order w = .eq) :
    SolutionsAgree l graph (push rest v) (push rest w) := by
  refine (bringsOne_items _).itemsAgree (bringsOne_items _) (.ok ?_)
  have hrest : Value.orderLists rest rest = .eq := Std.ReflCmp.compare_self
  rw [Value.orderLists, h, hrest]
  rfl

/-- Results that agree give streams that agree. -/
theorem SolutionsAgree.orFail {f : β → Solutions} {r r' : Except EvalError β}
    (h : Agrees same r r') (hf : ∀ a b, same a b → SolutionsAgree l graph (f a) (f b)) :
    SolutionsAgree l graph (orFail (r.map f)) (orFail (r'.map f)) := by
  cases h with
  | ok hsame => exact hf _ _ hsame
  | error hkind => exact (bringsOne_items _).itemsAgree (bringsOne_items _) (.error hkind)

variable {x y p : Value}

theorem toInteger_agree (h : x.order y = .eq) (htext : x.IsText ↔ y.IsText) :
    SolutionsAgree l graph (perform l rest .toInteger [x]) (perform l rest .toInteger [y]) :=
  .orFail (Value.toInteger?_agrees h htext) fun _ _ hsame => hsame ▸ .refl _

theorem toDecimal_agree (h : x.order y = .eq) (htext : x.IsText ↔ y.IsText) :
    SolutionsAgree l graph (perform l rest .toDecimal [x]) (perform l rest .toDecimal [y]) :=
  .orFail (Value.toDecimal?_agrees h htext) fun _ _ hsame => by
    cases hsame with
    | none => exact .refl _
    | some hsame => exact .push hsame

/-- The program is read once the count is known. -/
def repeated (l : Library) (rest : Stack) (p : Value) : Option Nat → Solutions
  | some count => .operators (.times count) rest (.ofValue l p)
  | none => .none

theorem perform_times (n : Value) :
    perform l rest .times [p, n] =
      Action.orFail ((n.readNumber.map count?).map (repeated l rest p)) := by
  rw [perform]
  cases n.readNumber <;> rfl

theorem times_agree (h : x.order y = .eq) (hcount : x.IsCount ↔ y.IsCount) :
    SolutionsAgree l graph (perform l rest .times [p, x]) (perform l rest .times [p, y]) := by
  rw [perform_times, perform_times]
  exact .orFail (Value.count?_agrees h hcount) fun _ _ hsame => hsame ▸ .refl _

end Streams

/-! ## The words -/

namespace Standard

variable {x y p : Value} {rest : Stack}

/-- The word of a name, applied to two stacks, gives the same solutions or fails alike. -/
def AgreesOn (name : String) (stack stack' : Stack) : Prop :=
  ∃ p, Library.standard.resolve? name = some (.primitive p) ∧
    ∀ (l : Library) (graph : Graph), SolutionsAgree l graph
      ((Operator.primitive p).apply l stack) ((Operator.primitive p).apply l stack')

theorem At.agreesOn {i arity : Nat} {name : String} {action : Action} {stack stack' : Stack}
    {arguments arguments' : List Value} (h : At i name action arity)
    (haction : action.needsStream = false)
    (hstack : takeArguments arity [] stack = .ok (arguments, rest))
    (hstack' : takeArguments arity [] stack' = .ok (arguments', rest))
    (hagree : ∀ (l : Library) (graph : Graph),
      SolutionsAgree l graph (action.perform l rest arguments) (action.perform l rest arguments')) :
    AgreesOn name stack stack' := by
  obtain ⟨p, hresolve, rfl, rfl⟩ := h.resolve?
  refine ⟨p, hresolve, fun l graph => ?_⟩
  rw [apply_of_action l haction hstack, apply_of_action l haction hstack']
  exact hagree l graph

theorem at_toInteger : At 18 "to-integer" .toInteger 1 := ⟨rfl, _, rfl, rfl, rfl⟩

theorem at_toDecimal : At 19 "to-double" .toDecimal 1 := ⟨rfl, _, rfl, rfl, rfl⟩

theorem at_times : At 8 "times" .times 2 := ⟨rfl, _, rfl, rfl, rfl⟩

/-- An integer counts, and the decimal that is equal to it does not. -/
theorem decimal_counts_nothing :
    let program : Value := .list [.integer 1]
    let two : Value := .integer 2
    let decimalTwo : Value := .decimal ⟨0x4000000000000000⟩
    two.order decimalTwo = .eq ∧
      Gives "times" [two, program] [.ok [.integer 1, .integer 1]] ∧
      Gives "times" [decimalTwo, program] [] := by
  intro program two decimalTwo
  refine ⟨by decide +kernel, ?_, at_times.gives rfl rfl fun l => rfl⟩
  obtain ⟨p, hresolve, haction, harity⟩ := at_times.resolve?
  refine ⟨p, hresolve, fun l graph given => ?_⟩
  have hyields : ((Operator.primitive p).apply l [two, program]).Yields l graph
      [.ok [.integer 1, .integer 1]] := by
    rw [apply_of_action l (by rw [haction]; rfl) (by rw [harity]; rfl), haction]
    refine ⟨List.replicate 11 graph.atOnce, ?_, ?_⟩
    · intro ask hask
      rw [List.eq_of_mem_replicate hask]
      exact fun _ _ => .inr rfl
    · simp only [List.replicate]
      iterate 5 refine .working rfl ?_
      refine .item rfl ?_
      iterate 4 refine .working rfl ?_
      exact .ended rfl
  exact (Solutions.yields_iff_alikeAtOnce.mp hyields).yields_iff

/--
Equal values are converted alike if both of them are texts or neither is, and
applied alike as counts if both of them are counts or neither is.  As a count, a
decimal gives no solutions.
-/
theorem conversions_respect_equality (h : x.order y = .eq) (p : Value) (rest : Stack) :
    ((x.IsText ↔ y.IsText) →
      AgreesOn "to-integer" (x :: rest) (y :: rest) ∧
        AgreesOn "to-double" (x :: rest) (y :: rest)) ∧
    ((x.IsCount ↔ y.IsCount) → AgreesOn "times" (x :: p :: rest) (y :: p :: rest)) ∧
    ∀ d, x.readNumber = .ok (.decimal d) → Gives "times" (x :: p :: rest) [] := by
  refine ⟨fun htext => ⟨?_, ?_⟩, fun hcount => ?_, fun d hd => ?_⟩
  · exact at_toInteger.agreesOn rfl rfl rfl fun l graph => toInteger_agree h htext
  · exact at_toDecimal.agreesOn rfl rfl rfl fun l graph => toDecimal_agree h htext
  · exact at_times.agreesOn rfl rfl rfl fun l graph => times_agree h hcount
  · refine at_times.gives rfl rfl fun l => ?_
    rw [perform_times, hd]
    rfl

/-- An integer with a literal that denotes it, and with the decimal that is equal to it. -/
theorem two_in_three_forms :
    let x : Value := .literal (.typed "2" (Vocabulary.xsd ++ "integer"))
    let y : Value := .integer 2
    let z : Value := .decimal ⟨0x4000000000000000⟩
    let program : Value := .list [.integer 1]
    (x.order y = .eq ∧ (x.IsText ↔ y.IsText) ∧ (x.IsCount ↔ y.IsCount) ∧
      AgreesOn "to-integer" [x] [y] ∧ AgreesOn "to-double" [x] [y] ∧
      AgreesOn "times" [x, program] [y, program]) ∧
    (z.order y = .eq ∧ z.readNumber = .ok (.decimal ⟨0x4000000000000000⟩) ∧
      Gives "times" [z, program] []) := by
  intro x y z program
  have h : x.order y = .eq := by decide +kernel
  have htext : x.IsText ↔ y.IsText :=
    iff_of_false (fun ⟨_, hs⟩ => nomatch hs) fun ⟨_, hs⟩ => nomatch hs
  have hcount : x.IsCount ↔ y.IsCount :=
    iff_of_true ⟨.integer 2, rfl, by decide⟩ ⟨.integer 2, rfl, by decide⟩
  have hz : z.order y = .eq := by decide +kernel
  have hread : z.readNumber = .ok (.decimal ⟨0x4000000000000000⟩) := rfl
  obtain ⟨hconverted, htimes, _⟩ := conversions_respect_equality h program []
  obtain ⟨_, _, hnothing⟩ := conversions_respect_equality hz program []
  obtain ⟨hinteger, hdecimal⟩ := hconverted htext
  exact ⟨⟨h, htext, hcount, hinteger, hdecimal, htimes hcount⟩, hz, hread, hnothing _ hread⟩

end Standard

end StackQuery
