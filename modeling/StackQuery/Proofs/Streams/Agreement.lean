import Mathlib.Data.List.Forall2
import StackQuery.Proofs.Reading.DepthFirst
import StackQuery.Proofs.Streams.Histories

/-!
# Streams that agree item by item

Two results agree if they are the same for some relation, or are errors of one
kind.  Two streams agree if their items do, place by place, and if neither has
more of them than the other.  They may be read side by side, with one store that
says whatever it likes, or each by itself, as long as the store answers from one
graph.
-/

namespace StackQuery

variable {σ α : Type} {step : Connection → σ → Progress EvalError σ α}
  {same : α → α → Prop} {graph : Graph} {a b : σ}

/-! ## Results -/

/-- Results that are the same, or errors of one kind. -/
inductive Agrees (same : α → α → Prop) : Except EvalError α → Except EvalError α → Prop where
  | ok {x y : α} (h : same x y) : Agrees same (.ok x) (.ok y)
  | error {e e' : EvalError} (h : e.kind = e'.kind) : Agrees same (.error e) (.error e')

theorem Agrees.refl (hrefl : ∀ x, same x x) (result : Except EvalError α) :
    Agrees same result result := by
  cases result with
  | ok x => exact .ok (hrefl x)
  | error e => exact .error rfl

theorem Agrees.map {β : Type} {same' : β → β → Prop} {f g : α → β} {r r' : Except EvalError α}
    (h : Agrees same r r') (hmap : ∀ x y, same x y → same' (f x) (g y)) :
    Agrees same' (r.map f) (r'.map g) := by
  cases h with
  | ok hsame => exact .ok (hmap _ _ hsame)
  | error hkind => exact .error hkind

/-! ## Streams -/

/-- The stream has no more items once the store has answered. -/
def HasEnded (graph : Graph) (step : Connection → σ → Progress EvalError σ α) (state : σ) : Prop :=
  step graph.atOnce state = .ended

/-- Streams with the same number of items, which agree place by place. -/
structure ItemsAgree (graph : Graph) (step : Connection → σ → Progress EvalError σ α)
    (same : α → α → Prop) (a b : σ) : Prop where
  /-- Side by side, both bring an item at the same moments and have ended at the same moments. -/
  together (asks : List Connection) :
    List.Forall₂ (Agrees same) (brought step asks a) (brought step asks b) ∧
      (HasEnded graph step (reached step asks a) ↔ HasEnded graph step (reached step asks b))
  /-- Each by itself, neither brings another item at a place, or one more at the end. -/
  apart {asks asks' : List Connection} (hasks : ∀ ask ∈ asks, graph.HeldTo ask)
    (hasks' : ∀ ask ∈ asks', graph.HeldTo ask) :
    (∀ (i : Nat) (r r' : Except EvalError α), (brought step asks a)[i]? = some r →
      (brought step asks' b)[i]? = some r' → Agrees same r r') ∧
    (HasEnded graph step (reached step asks a) →
      (brought step asks' b).length ≤ (brought step asks a).length) ∧
    (HasEnded graph step (reached step asks' b) →
      (brought step asks a).length ≤ (brought step asks' b).length)

/-! ## A stream by itself -/

section Alone

variable {η ε : Type} {advance : η → σ → Progress ε σ α} {moments : List η} {moment : η}

theorem brought_append (moments later : List η) (state : σ) :
    brought advance (moments ++ later) state =
      brought advance moments state ++ brought advance later (reached advance moments state) := by
  induction moments generalizing state with
  | nil => rfl
  | cons moment moments ih =>
      rw [List.cons_append, brought_cons, brought_cons, ih, List.append_assoc, reached_cons]

theorem brought_of_ended {state : σ} (h : advance moment state = .ended) (count : Nat) :
    brought advance (List.replicate count moment) state = [] := by
  induction count with
  | zero => rfl
  | succ count ih =>
      rw [List.replicate_succ, brought_cons, h]
      exact ih

/-- Moments in which the stream waits, or does what it does in one moment, count as that one. -/
theorem exists_replicate (hsame : ∀ other ∈ moments, ∀ state,
      advance other state = .waiting ∨ advance other state = advance moment state) (state : σ) :
    ∃ count, brought advance moments state = brought advance (List.replicate count moment) state ∧
      reached advance moments state = reached advance (List.replicate count moment) state := by
  induction moments generalizing state with
  | nil => exact ⟨0, rfl, rfl⟩
  | cons other moments ih =>
      obtain ⟨hother, hlater⟩ := List.forall_mem_cons.mp hsame
      rcases hother state with hwaiting | hgoes
      · obtain ⟨count, hbrought, hreached⟩ := ih hlater state
        refine ⟨count, ?_, ?_⟩
        · rw [brought_cons, hwaiting]
          exact hbrought
        · rw [reached_cons, hwaiting]
          exact hreached
      · obtain ⟨count, hbrought, hreached⟩ := ih hlater ((advance moment state).after state)
        refine ⟨count + 1, ?_, ?_⟩
        · rw [brought_cons, List.replicate_succ, brought_cons, hgoes, hbrought]
        · rw [reached_cons, List.replicate_succ, reached_cons, hgoes, hreached]

/-- What comes in some repetitions of a moment begins what comes in more of them. -/
theorem brought_isPrefix {count count' : Nat} (hle : count ≤ count') (state : σ) :
    brought advance (List.replicate count moment) state <+:
      brought advance (List.replicate count' moment) state := by
  obtain ⟨more, rfl⟩ := Nat.exists_eq_add_of_le hle
  rw [← List.replicate_append_replicate, brought_append]
  exact List.prefix_append _ _

theorem brought_length_le_of_ended {count : Nat} {state : σ}
    (h : advance moment (reached advance (List.replicate count moment) state) = .ended)
    (count' : Nat) :
    (brought advance (List.replicate count' moment) state).length ≤
      (brought advance (List.replicate count moment) state).length := by
  rcases Nat.le_total count' count with hle | hle
  · exact (brought_isPrefix hle state).length_le
  · obtain ⟨more, rfl⟩ := Nat.exists_eq_add_of_le hle
    have hsame : brought advance (List.replicate (count + more) moment) state =
        brought advance (List.replicate count moment) state := by
      rw [← List.replicate_append_replicate, brought_append, brought_of_ended h, List.append_nil]
    exact Nat.le_of_eq (congrArg List.length hsame)

theorem getElem?_brought_of_le {count count' i : Nat} (hle : count ≤ count') {state : σ}
    {r : Except ε α} (h : (brought advance (List.replicate count moment) state)[i]? = some r) :
    (brought advance (List.replicate count' moment) state)[i]? = some r := by
  obtain ⟨hlt, rfl⟩ := List.getElem?_eq_some_iff.1 h
  exact List.prefix_iff_getElem?.1 (brought_isPrefix hle state) i hlt

theorem eq_of_getElem?_brought {count count' i : Nat} {state : σ} {r r' : Except ε α}
    (hr : (brought advance (List.replicate count moment) state)[i]? = some r)
    (hr' : (brought advance (List.replicate count' moment) state)[i]? = some r') : r = r' := by
  rcases Nat.le_total count count' with hle | hle
  · exact Option.some.inj ((getElem?_brought_of_le hle hr).symm.trans hr')
  · exact Option.some.inj (hr.symm.trans (getElem?_brought_of_le hle hr'))

end Alone

/-- Read twice, a stream brings the same items, as far as both readings go. -/
theorem ItemsAgree.refl
    (hheld : ∀ ask, graph.HeldTo ask → ∀ state,
      step ask state = .waiting ∨ step ask state = step graph.atOnce state)
    (hrefl : ∀ x, same x x) (a : σ) : ItemsAgree graph step same a a where
  together asks := ⟨List.forall₂_same.2 fun result _ => .refl hrefl result, Iff.rfl⟩
  apart {asks asks'} hasks hasks' := by
    obtain ⟨count, hbrought, hreached⟩ :=
      exists_replicate (fun ask hask => hheld ask (hasks ask hask)) a
    obtain ⟨count', hbrought', hreached'⟩ :=
      exists_replicate (fun ask hask => hheld ask (hasks' ask hask)) a
    rw [hbrought, hbrought', hreached, hreached']
    refine ⟨fun i r r' hr hr' => ?_, fun h => brought_length_le_of_ended h count',
      fun h => brought_length_le_of_ended h count⟩
    obtain rfl := eq_of_getElem?_brought hr hr'
    exact .refl hrefl r

/-- The stream brings one result, whatever the store says, and nothing after it. -/
def BringsOne (step : Connection → σ → Progress EvalError σ α) (state : σ)
    (result : Except EvalError α) : Prop :=
  ∃ next, (∀ ask, step ask state = .item result next) ∧ ∀ ask, step ask next = .ended

theorem BringsOne.brought_eq (graph : Graph) {result : Except EvalError α}
    (h : BringsOne step a result) (asks : List Connection) :
    brought step asks a = (if asks = [] then [] else [result]) ∧
      (HasEnded graph step (reached step asks a) ↔ asks ≠ []) := by
  obtain ⟨next, hfirst, hended⟩ := h
  have hstays (asks : List Connection) :
      brought step asks next = [] ∧ reached step asks next = next := by
    induction asks with
    | nil => exact ⟨rfl, rfl⟩
    | cons ask asks ih =>
        rw [brought_cons, reached_cons, hended]
        exact ih
  cases asks with
  | nil => simp [HasEnded, reached, hfirst]
  | cons ask asks =>
      rw [brought_cons, reached_cons, hfirst]
      simp [Progress.items, Progress.after, hstays, HasEnded, hended]

theorem BringsOne.itemsAgree {r r' : Except EvalError α} (ha : BringsOne step a r)
    (hb : BringsOne step b r') (h : Agrees same r r') : ItemsAgree graph step same a b where
  together asks := by
    obtain ⟨hbrought, hreached⟩ := ha.brought_eq graph asks
    obtain ⟨hbrought', hreached'⟩ := hb.brought_eq graph asks
    rw [hbrought, hbrought', hreached, hreached']
    refine ⟨?_, Iff.rfl⟩
    split_ifs
    · exact .nil
    · exact .cons h .nil
  apart {asks asks'} _ _ := by
    obtain ⟨hbrought, hreached⟩ := ha.brought_eq graph asks
    obtain ⟨hbrought', hreached'⟩ := hb.brought_eq graph asks'
    rw [hbrought, hbrought', hreached, hreached']
    refine ⟨fun i _ _ hi hi' => ?_, fun hasks => ?_, fun hasks' => ?_⟩
    · have hmem := List.mem_of_getElem? hi
      have hmem' := List.mem_of_getElem? hi'
      split_ifs at hmem hmem' <;> simp_all
    · rw [if_neg hasks]
      split_ifs <;> simp
    · rw [if_neg hasks']
      split_ifs <;> simp

end StackQuery
