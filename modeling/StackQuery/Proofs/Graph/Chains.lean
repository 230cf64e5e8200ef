import StackQuery.Graph.Store

/-!
# Lists in a store stay as they are

A store makes up a new node for every member of a list, from the last member
to the first, so the numbers of the nodes go down along the chain.  Statements
about other resources and lists that are stored later say nothing about the
nodes that are there, and nothing has been said about a node before it is made
up.  Hence a chain spells the same list for ever.
-/

namespace StackQuery

open Vocabulary (storeNode rdfFirst rdfRest rdfNil)

/-! ## Names of nodes -/

namespace Vocabulary

theorem storeNode_inj {m n : Nat} : storeNode m = storeNode n ↔ m = n := by
  refine ⟨fun h => ?_, congrArg storeNode⟩
  have hrepr : m.repr = n.repr := (String.append_right_inj _).mp h
  have hdigits : Nat.toDigits 10 m = Nat.toDigits 10 n := by
    simpa only [Nat.toList_repr] using congrArg String.toList hrepr
  simpa using congrArg (Nat.ofDigitChars 10 · 0) hdigits

theorem isNil_storeNode (n : Nat) : Value.isNil (storeNode n) = false := by
  have hne : storeNode n ≠ rdfNil := by
    intro h
    have hfirst := congrArg (·.toList.head?) h
    simp [storeNode, rdfNil] at hfirst
  simpa [Value.isNil] using hne

end Vocabulary

namespace Store

/-! ## Changes -/

/-- A list is stored, or something is said about a resource that is no node of such lists. -/
inductive Change where
  | add (subject predicate : String) (object : Value) (foreign : ∀ n, subject ≠ storeNode n)
  | addList (items : List Value)

def change (s : Store) : Change → Store
  | .add subject predicate object _ => s.add subject predicate object
  | .addList items => (s.addList items).1

def after (s : Store) (changes : List Change) : Store := changes.foldl change s

/-- Nothing is said about nodes that have not been made up yet. -/
def Tidy (s : Store) : Prop :=
  ∀ n predicate, s.nodes ≤ n → s.objects (storeNode n) predicate = []

/-- What one store says about its nodes, and no more, the other one says too. -/
structure Extends (s s' : Store) : Prop where
  nodes : s.nodes ≤ s'.nodes
  objects : ∀ n predicate, n < s.nodes →
    s'.objects (storeNode n) predicate = s.objects (storeNode n) predicate

variable {s s' s'' : Store} {bound : Nat} {head tail : String} {items : List Value}

theorem Extends.refl (s : Store) : s.Extends s := ⟨Nat.le_refl _, fun _ _ _ => rfl⟩

theorem Extends.trans (h : s.Extends s') (h' : s'.Extends s'') : s.Extends s'' where
  nodes := Nat.le_trans h.nodes h'.nodes
  objects := fun n predicate hn => by
    have := h.nodes
    rw [h'.objects n predicate (by omega), h.objects n predicate hn]

/-! ## One statement, and one node -/

theorem objects_add (s : Store) (subject predicate subject' predicate' : String) (object : Value) :
    (s.add subject predicate object).objects subject' predicate' =
      s.objects subject' predicate' ++
        if subject = subject' ∧ predicate = predicate' then [object] else [] := by
  simp only [add, objects, List.filterMap_append]
  congr 1
  by_cases h : subject = subject' ∧ predicate = predicate' <;> simp [h]

theorem objects_add_foreign {subject : String} (hforeign : ∀ n, subject ≠ storeNode n)
    (predicate predicate' : String) (object : Value) (n : Nat) :
    (s.add subject predicate object).objects (storeNode n) predicate' =
      s.objects (storeNode n) predicate' := by
  simp [objects_add, hforeign]

/-- A new node with its first member and the rest of the list. -/
def addNode (s : Store) (first : Value) (tail : String) : Store :=
  { (s.add (storeNode s.nodes) rdfFirst first).add (storeNode s.nodes) rdfRest (.resource tail) with
    nodes := s.nodes + 1 }

theorem prependAll_cons (s : Store) (tail : String) (first : Value) (before : List Value) :
    s.prependAll tail (first :: before) =
      (s.addNode first tail).prependAll (storeNode s.nodes) before := rfl

theorem objects_addNode (s : Store) (first : Value) (tail : String) (n : Nat) (predicate : String) :
    (s.addNode first tail).objects (storeNode n) predicate =
      s.objects (storeNode n) predicate ++
        (if s.nodes = n ∧ rdfFirst = predicate then [first] else []) ++
        if s.nodes = n ∧ rdfRest = predicate then [.resource tail] else [] := by
  change ((s.add _ _ _).add _ _ _).objects _ _ = _
  rw [objects_add, objects_add]
  simp only [Vocabulary.storeNode_inj]

theorem extends_addNode (s : Store) (first : Value) (tail : String) :
    s.Extends (s.addNode first tail) where
  nodes := Nat.le_succ _
  objects := fun n predicate hn => by
    have hother : s.nodes ≠ n := by omega
    simp [objects_addNode, hother]

theorem Tidy.addNode (h : s.Tidy) (first : Value) (tail : String) :
    (s.addNode first tail).Tidy := by
  intro n predicate hn
  change s.nodes + 1 ≤ n at hn
  have hother : s.nodes ≠ n := by omega
  simp [objects_addNode, hother, h n predicate (by omega)]

/-! ## Chains -/

/-- From a head on the nodes hold the items, and their numbers go down from a bound. -/
inductive Spells (s : Store) : Nat → String → List Value → Prop where
  | nil (bound : Nat) : Spells s bound rdfNil []
  | cons {bound n : Nat} {first : Value} {tail : String} {items : List Value} (hn : n < bound)
      (hfirst : s.objects (storeNode n) rdfFirst = [first])
      (hrest : s.objects (storeNode n) rdfRest = [.resource tail])
      (later : Spells s n tail items) : Spells s bound (storeNode n) (first :: items)

theorem Spells.extends (h : s.Spells bound head items) (hbound : bound ≤ s.nodes)
    (hs : s.Extends s') : s'.Spells bound head items := by
  induction h with
  | nil bound => exact .nil bound
  | @cons bound n first tail items hn hfirst hrest _ ih =>
      have hold : n < s.nodes := by omega
      refine .cons hn ?_ ?_ (ih (by omega))
      · rw [hs.objects n _ hold, hfirst]
      · rw [hs.objects n _ hold, hrest]

theorem Spells.addNode (hs : s.Tidy) (h : s.Spells s.nodes tail items) (first : Value) :
    (s.addNode first tail).Spells (s.addNode first tail).nodes (storeNode s.nodes)
      (first :: items) := by
  refine .cons (Nat.lt_succ_self _) ?_ ?_
    (h.extends (Nat.le_refl _) (s.extends_addNode first tail))
  · simp [objects_addNode, hs s.nodes, rdfFirst, rdfRest]
  · simp [objects_addNode, hs s.nodes, rdfFirst, rdfRest]

theorem prependAll_spells (hs : s.Tidy) (h : s.Spells s.nodes tail items) (before : List Value) :
    (s.prependAll tail before).1.Tidy ∧ s.Extends (s.prependAll tail before).1 ∧
      (s.prependAll tail before).1.Spells (s.prependAll tail before).1.nodes
        (s.prependAll tail before).2 (before.reverse ++ items) := by
  induction before generalizing s tail items with
  | nil => exact ⟨hs, .refl s, h⟩
  | cons first before ih =>
      rw [prependAll_cons]
      obtain ⟨htidy, hextends, hspells⟩ := ih (hs.addNode first tail) (h.addNode hs first)
      refine ⟨htidy, (s.extends_addNode first tail).trans hextends, ?_⟩
      simpa using hspells

theorem addList_spells (hs : s.Tidy) (items : List Value) :
    (s.addList items).1.Tidy ∧ s.Extends (s.addList items).1 ∧
      (s.addList items).1.Spells (s.addList items).1.nodes (s.addList items).2 items := by
  simpa [addList] using prependAll_spells hs (.nil s.nodes) items.reverse

/-! ## Any changes -/

theorem tidy_empty : empty.Tidy := fun _ _ _ => rfl

theorem Tidy.change (hs : s.Tidy) (c : Change) : (s.change c).Tidy ∧ s.Extends (s.change c) := by
  cases c with
  | add subject predicate object hforeign =>
      have hsame (n : Nat) (predicate' : String) :
          (s.add subject predicate object).objects (storeNode n) predicate' =
            s.objects (storeNode n) predicate' :=
        objects_add_foreign hforeign predicate predicate' object n
      refine ⟨fun n predicate' hn => ?_, Nat.le_refl _, fun n predicate' _ => hsame n predicate'⟩
      exact (hsame n predicate').trans (hs n predicate' hn)
  | addList items =>
      obtain ⟨htidy, hextends, _⟩ := addList_spells hs items
      exact ⟨htidy, hextends⟩

theorem Tidy.after (hs : s.Tidy) (changes : List Change) :
    (s.after changes).Tidy ∧ s.Extends (s.after changes) := by
  induction changes generalizing s with
  | nil => exact ⟨hs, .refl s⟩
  | cons c changes ih =>
      obtain ⟨htidy, hextends⟩ := hs.change c
      obtain ⟨htidy', hextends'⟩ := ih htidy
      exact ⟨htidy', hextends.trans hextends'⟩

end Store

end StackQuery
