import StackQuery.Proofs.Library.Standard
import StackQuery.Proofs.Solutions.Yields

/-!
# What a standard word gives

A word that is applied stack by stack takes its arguments off the stack and
performs its action on them.  Where the action makes the same items of them in
every library, the word yields these items whatever the graph holds.
-/

namespace StackQuery

namespace Standard

/-- The word of a name, applied in any library to a stack, yields just these items. -/
def Gives (name : String) (stack : Stack) (items : List Item) : Prop :=
  ∃ p, Library.standard.resolve? name = some (.primitive p) ∧
    ∀ (l : Library) (graph : Graph) (given : List Item),
      ((Operator.primitive p).apply l stack).Yields l graph given ↔ given = items

theorem Gives.unique {name : String} {stack : Stack} {items items' : List Item}
    (h : Gives name stack items) (h' : Gives name stack items') : items = items' := by
  obtain ⟨p, hresolve, hitems⟩ := h
  obtain ⟨p', hresolve', hitems'⟩ := h'
  obtain rfl : p = p' := by
    rw [hresolve] at hresolve'
    cases hresolve'
    rfl
  exact (hitems' .empty (fun _ _ => .ok []) items).1 ((hitems _ _ _).2 rfl)

/-- The word at a place of the list of words, with its action and the number of its arguments. -/
def At (i : Nat) (name : String) (action : Action) (arity : Nat) : Prop :=
  (vocabulary.flatMap (·.2))[i]? = some name ∧
    ∃ p, words[i]? = some p ∧ p.action = action ∧ p.arity = arity

variable {i : Nat} {name : String} {action : Action} {stack rest : Stack}
  {arguments : List Value} {items : List Item} {arity : Nat}

theorem At.resolve? (h : At i name action arity) : ∃ p,
    Library.standard.resolve? name = some (.primitive p) ∧ p.action = action ∧ p.arity = arity := by
  obtain ⟨hname, p, hp, haction, harity⟩ := h
  exact ⟨p, resolve?_word hname hp, haction, harity⟩

/-- An action that is performed on the arguments at the top of a stack. -/
theorem apply_of_action (l : Library) {p : Primitive} (haction : p.action.needsStream = false)
    (hstack : takeArguments p.arity [] stack = .ok (arguments, rest)) :
    (Operator.primitive p).apply l stack = p.action.perform l rest arguments := by
  rw [Operator.apply, Primitive.apply, haction, hstack]
  rfl

theorem At.gives (h : At i name action arity) (haction : action.needsStream = false)
    (hstack : takeArguments arity [] stack = .ok (arguments, rest))
    (hperform : ∀ l, action.perform l rest arguments = .items items) : Gives name stack items := by
  obtain ⟨p, hresolve, rfl, rfl⟩ := h.resolve?
  refine ⟨p, hresolve, fun l graph given => ?_⟩
  rw [apply_of_action l haction hstack, hperform]
  exact Solutions.AlikeAtOnce.yields_iff (.refl _)

end Standard

end StackQuery
