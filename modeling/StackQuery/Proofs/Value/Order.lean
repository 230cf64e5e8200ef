import StackQuery.Proofs.Number.Order
import StackQuery.Value.Order

/-!
# The order of values is a total preorder

Values, lists and operators contain each other, so their orders are shown to be
coherent together, by induction on the first argument.  What is carried through
the induction is `CoherentAt`: what one element owes to the order, whatever it
is compared with.  Two lemmas do the work.  One passes from the members of
lists to lists, the other from the contents of each kind to all kinds.
-/

namespace StackQuery

/-! ## Coherence at one element -/

/-- A comparison that is reflexive, reversed when its sides change places, and transitive. -/
structure TotalPreorder {α : Type} (cmp : α → α → Ordering) : Prop where
  refl (a : α) : cmp a a = .eq
  swap (a b : α) : cmp b a = (cmp a b).swap
  trans (a b c : α) : cmp a b ≠ .gt → cmp b c ≠ .gt → cmp a c ≠ .gt

/-- What one element contributes to the coherence of a comparison. -/
structure CoherentAt {α : Type} (cmp : α → α → Ordering) (a : α) : Prop where
  swap (b : α) : cmp b a = (cmp a b).swap
  congr (b c : α) : cmp a b = .eq → cmp a c = cmp b c
  lt_trans (b c : α) : cmp a b = .lt → (cmp b c).isLE → cmp a c = .lt

section Coherence

variable {α : Type} {cmp : α → α → Ordering}

theorem CoherentAt.of_transCmp (cmp : α → α → Ordering) [Std.TransCmp cmp] (a : α) :
    CoherentAt cmp a where
  swap _ := Std.OrientedCmp.eq_swap
  congr _ _ := Std.TransCmp.congr_left
  lt_trans _ _ := Std.TransCmp.lt_of_lt_of_isLE

/-- Comparing by a part is as coherent as comparing the parts. -/
theorem CoherentAt.comap {β : Type} (part : β → α) {a : β} (h : CoherentAt cmp (part a)) :
    CoherentAt (fun b c => cmp (part b) (part c)) a where
  swap b := h.swap (part b)
  congr b c := h.congr (part b) (part c)
  lt_trans b c := h.lt_trans (part b) (part c)

theorem transCmp_of_coherentAt (h : ∀ a, CoherentAt cmp a) : Std.TransCmp cmp where
  eq_swap {a b} := (h b).swap a
  isLE_trans {a b c} hab hbc := by
    cases hcmp : cmp a b with
    | lt => simp [(h a).lt_trans b c hcmp hbc]
    | eq => simpa [(h a).congr b c hcmp] using hbc
    | gt => simp [hcmp] at hab

theorem TotalPreorder.of_transCmp [Std.TransCmp cmp] : TotalPreorder cmp where
  refl _ := Std.ReflCmp.compare_self
  swap _ _ := Std.OrientedCmp.eq_swap
  trans a b c hab hbc := by
    rw [ne_eq, Ordering.ne_gt_iff_isLE] at hab hbc ⊢
    exact Std.TransCmp.isLE_trans hab hbc

/-- Lists inherit coherence from their members. -/
theorem coherentAt_compareLex (xs : List α) (h : ∀ x ∈ xs, CoherentAt cmp x) :
    CoherentAt (List.compareLex cmp) xs := by
  induction xs with
  | nil =>
      refine ⟨fun ys => ?_, fun ys zs heq => ?_, fun ys zs hlt hle => ?_⟩
      · cases ys <;> rfl
      · cases ys with
        | nil => rfl
        | cons y ys => simp [List.compareLex_nil_cons] at heq
      · cases zs with
        | cons z zs => rfl
        | nil =>
            cases ys with
            | nil => simp [List.compareLex_nil_nil] at hlt
            | cons y ys => simp [List.compareLex_cons_nil] at hle
  | cons x xs ih =>
      have hx : CoherentAt cmp x := h x (by simp)
      have hxs := ih fun y hy => h y (by simp [hy])
      refine ⟨fun ys => ?_, fun ys zs heq => ?_, fun ys zs hlt hle => ?_⟩
      · cases ys with
        | nil => rfl
        | cons y ys =>
            rw [List.compareLex_cons_cons, List.compareLex_cons_cons, hx.swap, hxs.swap,
              Ordering.swap_then]
      · cases ys with
        | nil => simp [List.compareLex_cons_nil] at heq
        | cons y ys =>
            rw [List.compareLex_cons_cons, Ordering.then_eq_eq] at heq
            cases zs with
            | nil => rfl
            | cons z zs =>
                rw [List.compareLex_cons_cons, List.compareLex_cons_cons,
                  hx.congr y z heq.1, hxs.congr ys zs heq.2]
      · cases ys with
        | nil => simp [List.compareLex_cons_nil] at hlt
        | cons y ys =>
            cases zs with
            | nil => simp [List.compareLex_cons_nil] at hle
            | cons z zs =>
                rw [List.compareLex_cons_cons] at hlt hle ⊢
                cases hxy : cmp x y with
                | gt => simp [hxy] at hlt
                | lt =>
                    have hyz : (cmp y z).isLE := by
                      cases hyz : cmp y z <;> simp [hyz] at hle ⊢
                    rw [hx.lt_trans y z hxy hyz]
                    rfl
                | eq =>
                    rw [hx.congr y z hxy]
                    cases hyz : cmp y z with
                    | gt => simp [hyz] at hle
                    | lt => rfl
                    | eq =>
                        simp only [hxy, hyz, Ordering.eq_then] at hlt hle ⊢
                        exact hxs.lt_trans ys zs hlt hle

/-! ## Kinds -/

/--
Kinds inherit coherence from their contents.  Elements of different kinds are
ordered by rank, and `make` gives the elements of one kind from their contents.
-/
theorem coherentAt_kind {γ : Type} {contents : γ → γ → Ordering} (rank : α → Nat)
    (make : γ → α) (hranks : ∀ a b, rank a ≠ rank b → cmp a b = compare (rank a) (rank b))
    (hkind : ∀ u b, rank b = rank (make u) → ∃ v, b = make v)
    (hcontents : ∀ u v, cmp (make u) (make v) = contents u v)
    {u : γ} (h : CoherentAt contents u) : CoherentAt cmp (make u) := by
  have hrank : ∀ a b, (cmp a b).isLE → rank a ≤ rank b := fun a b hle => by
    by_contra hgt
    rw [hranks a b (by omega), Nat.compare_eq_gt.2 (by omega)] at hle
    cases hle
  refine ⟨fun b => ?_, fun b c heq => ?_, fun b c hlt hle => ?_⟩
  · by_cases hb : rank b = rank (make u)
    · obtain ⟨v, rfl⟩ := hkind u b hb
      rw [hcontents, hcontents, h.swap]
    · rw [hranks b _ hb, hranks _ b (Ne.symm hb)]
      exact Std.OrientedCmp.eq_swap
  · have hb : rank b = rank (make u) := by
      by_contra hne
      rw [hranks _ b (Ne.symm hne), Nat.compare_eq_eq] at heq
      exact hne heq.symm
    obtain ⟨v, rfl⟩ := hkind u b hb
    by_cases hc : rank c = rank (make u)
    · obtain ⟨w, rfl⟩ := hkind u c hc
      rw [hcontents] at heq ⊢
      rw [hcontents, h.congr v w heq]
    · rw [hranks _ c (Ne.symm hc), hranks _ c (by omega), hb]
  · have hab := hrank (make u) b (by simp [hlt])
    have hbc := hrank b c hle
    by_cases hc : rank c = rank (make u)
    · obtain ⟨w, rfl⟩ := hkind u c hc
      obtain ⟨v, rfl⟩ := hkind u b (by omega)
      rw [hcontents] at hlt hle ⊢
      exact h.lt_trans v w hlt hle
    · rw [hranks _ c (Ne.symm hc), Nat.compare_eq_lt]
      omega

end Coherence

/-! ## Literals -/

theorem compareOptional_eq_compare (a b : Option String) : compareOptional a b = compare a b := by
  cases a <;> cases b <;> rfl

/-- Literals are ordered by their three parts in turn. -/
instance : Std.TransCmp Literal.order := by
  have h : Literal.order = compareLex (compareOn Literal.lexical)
      (compareLex (compareOn Literal.datatype) (compareOn Literal.language)) := by
    funext a b
    simp only [Literal.order, compareOptional_eq_compare, compareLex, compareOn]
  rw [h]
  infer_instance

/-! ## One comparison for canonical values -/

namespace Value

/-- The order of two values that are canonical already, in which both sides are treated alike. -/
def orderCanonical : Value → Value → Ordering
  | .boolean x, .boolean y => compare x.toNat y.toNat
  | .number x, .number y => x.order y
  | .text x, .text y => compare x y
  | .literal x, .literal y => x.order y
  | .resource x, .resource y => compare x y
  | .list xs, .list ys => orderLists xs ys
  | .operator p, .operator q => p.order q
  | x, y => compare x.rank y.rank

private theorem orderLists_nil (ys : List Value) :
    orderLists [] ys = if ys.isEmpty then .eq else .lt := by
  cases ys <;> rfl

/-- A value that has no values inside it. -/
def IsPlain : Value → Prop
  | .list items => items = []
  | .operator _ => False
  | _ => True

theorem isPlain_canonical_literal (l : Literal) : (canonical (.literal l)).IsPlain := by
  rw [canonical]
  cases l.native? with
  | none => trivial
  | some native => cases native <;> trivial

theorem isPlain_canonical_resource (identifier : String) :
    (canonical (.resource identifier)).IsPlain := by
  rw [canonical]
  split <;> trivial

private theorem orderPlain_eq (c d : Value) (h : c.IsPlain) :
    orderPlain c d = orderCanonical c d := by
  cases c with
  | operator p => exact h.elim
  | list items =>
      cases (h : items = [])
      cases d with
      | list ys => exact (orderLists_nil ys).symm
      | _ => rfl
  | _ => cases d <;> rfl

theorem order_eq_orderCanonical (a b : Value) :
    a.order b = orderCanonical a.canonical b.canonical := by
  cases a with
  | list xs =>
      rw [order, show (Value.list xs).canonical = .list xs from rfl]
      cases b.canonical <;> rfl
  | operator p =>
      rw [order, show (Value.operator p).canonical = .operator p from rfl]
      cases b.canonical <;> rfl
  | literal l => exact orderPlain_eq _ _ (isPlain_canonical_literal l)
  | resource identifier => exact orderPlain_eq _ _ (isPlain_canonical_resource identifier)
  | number x => exact orderPlain_eq _ _ trivial
  | text x => exact orderPlain_eq _ _ trivial
  | boolean x => exact orderPlain_eq _ _ trivial

/-- Members are compared one after another. -/
theorem orderLists_eq_compareLex : orderLists = List.compareLex order := by
  funext xs ys
  induction xs generalizing ys with
  | nil => cases ys <;> rfl
  | cons x xs ih =>
      cases ys with
      | nil => rfl
      | cons y ys => rw [orderLists, List.compareLex_cons_cons, ih]

private theorem orderCanonical_of_rank_ne (a b : Value) (h : a.rank ≠ b.rank) :
    orderCanonical a b = compare a.rank b.rank := by
  cases a <;> cases b <;> first | rfl | exact absurd rfl h

/-- Only lists and operators have contents of which coherence has to be known already. -/
theorem coherentAt_orderCanonical (c : Value)
    (hlist : ∀ items, c = .list items → CoherentAt orderLists items)
    (hoperator : ∀ p, c = .operator p → CoherentAt Operator.order p) :
    CoherentAt orderCanonical c := by
  cases c with
  | boolean x =>
      refine coherentAt_kind rank boolean orderCanonical_of_rank_ne (fun _ b h => ?_)
        (fun _ _ => rfl) (CoherentAt.of_transCmp (compareOn Bool.toNat) x)
      cases b <;> first | exact ⟨_, rfl⟩ | cases h
  | number x =>
      refine coherentAt_kind rank number orderCanonical_of_rank_ne (fun _ b h => ?_)
        (fun _ _ => rfl) (CoherentAt.of_transCmp Number.order x)
      cases b <;> first | exact ⟨_, rfl⟩ | cases h
  | text x =>
      refine coherentAt_kind rank text orderCanonical_of_rank_ne (fun _ b h => ?_)
        (fun _ _ => rfl) (CoherentAt.of_transCmp compare x)
      cases b <;> first | exact ⟨_, rfl⟩ | cases h
  | literal x =>
      refine coherentAt_kind rank literal orderCanonical_of_rank_ne (fun _ b h => ?_)
        (fun _ _ => rfl) (CoherentAt.of_transCmp Literal.order x)
      cases b <;> first | exact ⟨_, rfl⟩ | cases h
  | resource x =>
      refine coherentAt_kind rank resource orderCanonical_of_rank_ne (fun _ b h => ?_)
        (fun _ _ => rfl) (CoherentAt.of_transCmp compare x)
      cases b <;> first | exact ⟨_, rfl⟩ | cases h
  | list items =>
      refine coherentAt_kind rank list orderCanonical_of_rank_ne (fun _ b h => ?_)
        (fun _ _ => rfl) (hlist items rfl)
      cases b <;> first | exact ⟨_, rfl⟩ | cases h
  | operator p =>
      refine coherentAt_kind rank operator orderCanonical_of_rank_ne (fun _ b h => ?_)
        (fun _ _ => rfl) (hoperator p rfl)
      cases b <;> first | exact ⟨_, rfl⟩ | cases h

theorem coherentAt_of_canonical {a : Value} (h : CoherentAt orderCanonical a.canonical) :
    CoherentAt order a where
  swap b := by
    rw [order_eq_orderCanonical, order_eq_orderCanonical, h.swap]
  congr b c heq := by
    rw [order_eq_orderCanonical] at heq
    rw [order_eq_orderCanonical, order_eq_orderCanonical, h.congr _ _ heq]
  lt_trans b c hlt hle := by
    rw [order_eq_orderCanonical] at hlt hle ⊢
    exact h.lt_trans _ _ hlt hle

/-- Nothing is needed for a value that has no values inside it. -/
theorem coherentAt_of_isPlain {a : Value} (h : a.canonical.IsPlain) : CoherentAt order a := by
  refine coherentAt_of_canonical (coherentAt_orderCanonical _ (fun items hitems => ?_)
    (fun p hp => ?_))
  · rw [hitems] at h
    cases (h : items = [])
    rw [orderLists_eq_compareLex]
    exact coherentAt_compareLex [] (by simp)
  · rw [hp] at h
    exact h.elim

end Value

/-! ## Operators -/

namespace Operator

/-- Steps are compared one after another. -/
theorem orderSteps_eq_compareLex : orderSteps = List.compareLex order := by
  funext ps qs
  induction ps generalizing qs with
  | nil => cases qs <;> rfl
  | cons p ps ih =>
      cases qs with
      | nil => rfl
      | cons q qs => rw [orderSteps, List.compareLex_cons_cons, ih]

private theorem order_of_rank_ne (p q : Operator) (h : p.rank ≠ q.rank) :
    p.order q = compare p.rank q.rank := by
  cases p <;> cases q <;> first | rfl | exact absurd rfl h

/-- Coherence passes to an operator from what decides its order within its kind. -/
theorem coherentAt_order (p : Operator)
    (hsteps : ∀ steps source, p = .composed steps source → ∀ q ∈ steps, CoherentAt order q)
    (hforward : ∀ forward inverse, p = .inverted forward inverse → CoherentAt order forward)
    (hconstant : ∀ v, p = .constant v → CoherentAt Value.order v) : CoherentAt order p := by
  cases p with
  | primitive p =>
      refine coherentAt_kind rank primitive order_of_rank_ne (fun _ b h => ?_)
        (fun _ _ => rfl) (CoherentAt.of_transCmp (compareOn Primitive.identifier) p)
      cases b <;> first | exact ⟨_, rfl⟩ | cases h
  | composed steps source =>
      have h : CoherentAt orderSteps steps := by
        rw [orderSteps_eq_compareLex]
        exact coherentAt_compareLex steps (hsteps steps source rfl)
      refine coherentAt_kind rank (fun u : List Operator × Option (List Value) =>
        composed u.1 u.2) order_of_rank_ne (fun _ b h => ?_) (fun _ _ => rfl)
        (CoherentAt.comap Prod.fst (a := (steps, source)) h)
      cases b <;> first | exact ⟨(_, _), rfl⟩ | cases h
  | inverted forward inverse =>
      refine coherentAt_kind rank (fun u : Operator × Operator => inverted u.1 u.2)
        order_of_rank_ne (fun _ b h => ?_) (fun _ _ => rfl)
        (CoherentAt.comap Prod.fst (a := (forward, inverse)) (hforward forward inverse rfl))
      cases b <;> first | exact ⟨(_, _), rfl⟩ | cases h
  | constant v =>
      refine coherentAt_kind rank constant order_of_rank_ne (fun _ b h => ?_)
        (fun _ _ => rfl) (hconstant v rfl)
      cases b <;> first | exact ⟨_, rfl⟩ | cases h

end Operator

/-! ## The induction -/

mutual

theorem Value.coherentAt : (a : Value) → CoherentAt Value.order a
  | .list items => by
      refine Value.coherentAt_of_canonical (Value.coherentAt_orderCanonical _
        (fun _ h => ?_) (fun _ h => by cases h))
      cases h
      rw [Value.orderLists_eq_compareLex]
      exact coherentAt_compareLex items (Value.coherentAt_members items)
  | .operator p =>
      Value.coherentAt_of_canonical (Value.coherentAt_orderCanonical _ (fun _ h => by cases h)
        (fun _ h => by
          cases h
          exact Operator.coherentAt p))
  | .literal l => Value.coherentAt_of_isPlain (Value.isPlain_canonical_literal l)
  | .resource identifier =>
      Value.coherentAt_of_isPlain (Value.isPlain_canonical_resource identifier)
  | .number _ => Value.coherentAt_of_isPlain trivial
  | .text _ => Value.coherentAt_of_isPlain trivial
  | .boolean _ => Value.coherentAt_of_isPlain trivial
termination_by structural a => a

theorem Value.coherentAt_members : (items : List Value) →
    ∀ a ∈ items, CoherentAt Value.order a
  | [] => by simp
  | b :: items => by
      rintro a (_ | ⟨_, h⟩)
      · exact Value.coherentAt b
      · exact Value.coherentAt_members items a h
termination_by structural items => items

theorem Operator.coherentAt : (p : Operator) → CoherentAt Operator.order p
  | .primitive p => Operator.coherentAt_order _ (fun _ _ h => by cases h)
      (fun _ _ h => by cases h) (fun _ h => by cases h)
  | .composed steps _ => Operator.coherentAt_order _
      (fun _ _ h => by
        cases h
        exact Operator.coherentAt_members steps)
      (fun _ _ h => by cases h) (fun _ h => by cases h)
  | .inverted forward _ => Operator.coherentAt_order _ (fun _ _ h => by cases h)
      (fun _ _ h => by
        cases h
        exact Operator.coherentAt forward)
      (fun _ h => by cases h)
  | .constant v => Operator.coherentAt_order _ (fun _ _ h => by cases h)
      (fun _ _ h => by cases h)
      (fun _ h => by
        cases h
        exact Value.coherentAt v)
termination_by structural p => p

theorem Operator.coherentAt_members : (steps : List Operator) →
    ∀ p ∈ steps, CoherentAt Operator.order p
  | [] => by simp
  | q :: steps => by
      rintro p (_ | ⟨_, h⟩)
      · exact Operator.coherentAt q
      · exact Operator.coherentAt_members steps p h
termination_by structural steps => steps

end

instance : Std.TransCmp Value.order := transCmp_of_coherentAt Value.coherentAt

instance : Std.TransCmp Operator.order := transCmp_of_coherentAt Operator.coherentAt

instance : Std.TransCmp Value.orderLists := by
  rw [Value.orderLists_eq_compareLex]
  infer_instance

/-! ## Equal values -/

namespace Value

@[simp] theorem same_iff (a b : Value) : a.same b = true ↔ a.order b = .eq := by
  simp [same]

/-- Two values that no comparison of values, of lists or of operators tells apart. -/
structure Interchangeable (a b : Value) : Prop where
  value (c : Value) : a.order c = b.order c ∧ c.order a = c.order b
  member (before after items : List Value) :
    orderLists (before ++ a :: after) items = orderLists (before ++ b :: after) items ∧
      orderLists items (before ++ a :: after) = orderLists items (before ++ b :: after)
  constant (p : Operator) :
    (Operator.constant a).order p = (Operator.constant b).order p ∧
      p.order (Operator.constant a) = p.order (Operator.constant b)

theorem orderLists_replace {a b : Value} (h : a.order b = .eq) (before after : List Value) :
    orderLists (before ++ a :: after) (before ++ b :: after) = .eq := by
  induction before with
  | nil =>
      rw [List.nil_append, List.nil_append, orderLists, h, Ordering.eq_then]
      exact Std.ReflCmp.compare_self
  | cons c before ih =>
      have hc : c.order c = .eq := Std.ReflCmp.compare_self
      rw [List.cons_append, List.cons_append, orderLists, hc, Ordering.eq_then, ih]

theorem interchangeable_of_eq {a b : Value} (h : a.order b = .eq) : Interchangeable a b where
  value _ := ⟨Std.TransCmp.congr_left h, Std.TransCmp.congr_right h⟩
  member before after _ :=
    have hlists := orderLists_replace h before after
    ⟨Std.TransCmp.congr_left hlists, Std.TransCmp.congr_right hlists⟩
  constant _ :=
    have hconstants : (Operator.constant a).order (.constant b) = .eq := h
    ⟨Std.TransCmp.congr_left hconstants, Std.TransCmp.congr_right hconstants⟩

theorem same_equivalence : Equivalence fun a b : Value => a.same b = true where
  refl a := (same_iff a a).2 Std.ReflCmp.compare_self
  symm h := (same_iff _ _).2 (Std.OrientedCmp.eq_symm ((same_iff _ _).1 h))
  trans hab hbc := (same_iff _ _).2
    (Std.TransCmp.eq_trans ((same_iff _ _).1 hab) ((same_iff _ _).1 hbc))

/--
Values, lists and operators are totally preordered, and the values that are the
same for the order are those that can take each other's place everywhere.
-/
theorem order_totalPreorder :
    TotalPreorder Value.order ∧ TotalPreorder Value.orderLists ∧ TotalPreorder Operator.order ∧
      (Equivalence fun a b : Value => a.same b = true) ∧
      ∀ a b : Value, a.same b = true ↔ Interchangeable a b := by
  refine ⟨.of_transCmp, .of_transCmp, .of_transCmp, same_equivalence, fun a b => ⟨fun h => ?_,
    fun h => ?_⟩⟩
  · exact interchangeable_of_eq ((same_iff a b).1 h)
  · rw [same_iff, (h.value b).1]
    exact Std.ReflCmp.compare_self

end Value

end StackQuery
