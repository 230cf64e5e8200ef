import StackQuery.Progress

/-!
# Streams that bring the same

Two streams are alike when each follows the other: whatever one of them does
next, the other does too, after any number of steps that show nothing.  What
the streams are surrounded by may be different at every step, but the steps
with which one stream answers a step of the other are all taken in the
surroundings of that step.  So streams that are alike put the same questions in
the same order, bring the same items, wait at the same places and end together.

To show that two streams are alike it is enough to run them side by side.
Either both do the same, or one of them works on alone, and a rank that then
goes down keeps it from doing so for ever.
-/

namespace StackQuery

/-! ## Working on -/

section Works

variable {ε σ α : Type} {step : σ → Progress ε σ α} {a b c : σ}

/-- Any number of steps that show nothing. -/
inductive Works (step : σ → Progress ε σ α) : σ → σ → Prop where
  | refl (state : σ) : Works step state state
  | head {state next last : σ} (h : step state = .working next) (rest : Works step next last) :
      Works step state last

theorem Works.trans (h : Works step a b) (h' : Works step b c) : Works step a c := by
  induction h with
  | refl _ => exact h'
  | head hstep _ ih => exact .head hstep (ih h')

/-- A stream around another one shows nothing but what the one inside shows. -/
class Wraps (step : σ → Progress ε σ α) (wrap : σ → σ) : Prop where
  working {state next : σ} (h : step state = .working next) :
    step (wrap state) = .working (wrap next)
  waiting {state : σ} (h : step state = .waiting) : step (wrap state) = .waiting
  ended {state : σ} (h : step state = .ended) : step (wrap state) = .ended

theorem Works.wrap (wrap : σ → σ) [Wraps step wrap] (h : Works step a b) :
    Works step (wrap a) (wrap b) := by
  induction h with
  | refl _ => exact .refl _
  | head hstep _ ih => exact .head (Wraps.working hstep) ih

end Works

/-! ## Answers -/

section Answers

variable {ε σ τ υ α : Type}

/--
How a stream in state `b` answers what another one in state `a` does, so that
the states that are left are related again.
-/
inductive Answers (step : τ → Progress ε τ α) (R : σ → τ → Prop) (a : σ) (b : τ) :
    Progress ε σ α → Prop where
  | item {result : Except ε α} {next : σ} {b' next' : τ} (works : Works step b b')
      (h : step b' = .item result next') (related : R next next') :
      Answers step R a b (.item result next)
  | working {next : σ} {b' : τ} (works : Works step b b') (related : R next b') :
      Answers step R a b (.working next)
  | waiting {b' : τ} (works : Works step b b') (h : step b' = .waiting) (related : R a b') :
      Answers step R a b .waiting
  | ended {b' : τ} (works : Works step b b') (h : step b' = .ended) : Answers step R a b .ended

variable {step : τ → Progress ε τ α} {R : σ → τ → Prop} {a : σ} {b b' : τ}

theorem Answers.mono {S : σ → τ → Prop} (hRS : ∀ a b, R a b → S a b) {p : Progress ε σ α}
    (h : Answers step R a b p) : Answers step S a b p := by
  cases h with
  | item works hstep related => exact .item works hstep (hRS _ _ related)
  | working works related => exact .working works (hRS _ _ related)
  | waiting works hstep related => exact .waiting works hstep (hRS _ _ related)
  | ended works hstep => exact .ended works hstep

theorem Answers.after (hworks : Works step b b') {p : Progress ε σ α}
    (h : Answers step R a b' p) : Answers step R a b p := by
  cases h with
  | item works hstep related => exact .item (hworks.trans works) hstep related
  | working works related => exact .working (hworks.trans works) related
  | waiting works hstep related => exact .waiting (hworks.trans works) hstep related
  | ended works hstep => exact .ended (hworks.trans works) hstep

/-- Streams around two others answer each other if they do so for the items inside. -/
theorem Answers.wrap {step₁ : σ → Progress ε σ α} {S : σ → τ → Prop} (wrap₁ : σ → σ)
    (wrap : τ → τ) [Wraps step₁ wrap₁] [Wraps step wrap]
    (hRS : ∀ a b, R a b → S (wrap₁ a) (wrap b))
    (hitem : ∀ result next b next', step₁ a = .item result next → step b = .item result next' →
      R next next' → Answers step S (wrap₁ a) (wrap b) (step₁ (wrap₁ a)))
    (h : Answers step R a b (step₁ a)) :
    Answers step S (wrap₁ a) (wrap b) (step₁ (wrap₁ a)) := by
  generalize hp : step₁ a = p at h
  cases h with
  | item works hstep related =>
      exact .after (works.wrap wrap) (hitem _ _ _ _ hp hstep related)
  | working works related =>
      rw [Wraps.working hp]
      exact .working (works.wrap wrap) (hRS _ _ related)
  | waiting works hstep related =>
      rw [Wraps.waiting hp]
      exact .waiting (works.wrap wrap) (Wraps.waiting hstep) (hRS _ _ related)
  | ended works hstep =>
      rw [Wraps.ended hp]
      exact .ended (works.wrap wrap) (Wraps.ended hstep)

end Answers

/-! ## Following -/

section Follows

variable {η ε σ τ υ α : Type}

/-- In all surroundings, the second machine answers every step of the first one. -/
def Follows (step₁ : η → σ → Progress ε σ α) (step₂ : η → τ → Progress ε τ α)
    (R : σ → τ → Prop) : Prop :=
  ∀ moment a b, R a b → Answers (step₂ moment) R a b (step₁ moment a)

variable {step₁ : η → σ → Progress ε σ α} {step₂ : η → τ → Progress ε τ α}
  {step₃ : η → υ → Progress ε υ α} {R : σ → τ → Prop} {S : τ → υ → Prop}

theorem Follows.works (h : Follows step₁ step₂ R) {moment : η} {a a' : σ}
    (hworks : Works (step₁ moment) a a') {b : τ} (hab : R a b) :
    ∃ b', Works (step₂ moment) b b' ∧ R a' b' := by
  induction hworks generalizing b with
  | refl _ => exact ⟨b, .refl b, hab⟩
  | head hstep _ ih =>
      have hanswer := h moment _ b hab
      rw [hstep] at hanswer
      cases hanswer with
      | working works related =>
          obtain ⟨b', hb', hrelated⟩ := ih related
          exact ⟨b', works.trans hb', hrelated⟩

theorem Follows.comp (h : Follows step₁ step₂ R) (h' : Follows step₂ step₃ S) :
    Follows step₁ step₃ fun a c => ∃ b, R a b ∧ S b c := by
  rintro moment a c ⟨b, hab, hbc⟩
  have hanswer := h moment a b hab
  generalize step₁ moment a = p at hanswer ⊢
  cases hanswer with
  | item works hstep related =>
      obtain ⟨c', hc', hbc'⟩ := h'.works works hbc
      have hanswer' := h' moment _ c' hbc'
      rw [hstep] at hanswer'
      cases hanswer' with
      | item works' hstep' related' =>
          exact .item (hc'.trans works') hstep' ⟨_, related, related'⟩
  | working works related =>
      obtain ⟨c', hc', hbc'⟩ := h'.works works hbc
      exact .working hc' ⟨_, related, hbc'⟩
  | waiting works hstep related =>
      obtain ⟨c', hc', hbc'⟩ := h'.works works hbc
      have hanswer' := h' moment _ c' hbc'
      rw [hstep] at hanswer'
      cases hanswer' with
      | waiting works' hstep' related' =>
          exact .waiting (hc'.trans works') hstep' ⟨_, related, related'⟩
  | ended works hstep =>
      obtain ⟨c', hc', hbc'⟩ := h'.works works hbc
      have hanswer' := h' moment _ c' hbc'
      rw [hstep] at hanswer'
      cases hanswer' with
      | ended works' hstep' => exact .ended (hc'.trans works') hstep'

end Follows

/-! ## Being alike -/

section Alike

variable {η ε σ τ υ α : Type}

/-- Some relation holds between the states, along which each machine follows the other. -/
def Alike (step₁ : η → σ → Progress ε σ α) (step₂ : η → τ → Progress ε τ α)
    (a : σ) (b : τ) : Prop :=
  ∃ R : σ → τ → Prop, Follows step₁ step₂ R ∧ (Follows step₂ step₁ fun b a => R a b) ∧ R a b

variable {step₁ : η → σ → Progress ε σ α} {step₂ : η → τ → Progress ε τ α}
  {step₃ : η → υ → Progress ε υ α}

theorem Alike.symm {a : σ} {b : τ} (h : Alike step₁ step₂ a b) : Alike step₂ step₁ b a := by
  obtain ⟨R, hfollows, hback, hab⟩ := h
  exact ⟨fun b a => R a b, hback, hfollows, hab⟩

theorem Alike.trans {a : σ} {b : τ} {c : υ} (h : Alike step₁ step₂ a b)
    (h' : Alike step₂ step₃ b c) : Alike step₁ step₃ a c := by
  obtain ⟨R, hfollows, hback, hab⟩ := h
  obtain ⟨S, hfollows', hback', hbc⟩ := h'
  refine ⟨fun a c => ∃ b, R a b ∧ S b c, hfollows.comp hfollows', ?_, b, hab, hbc⟩
  intro moment c a hca
  refine (hback'.comp hback moment c a ?_).mono ?_
  · obtain ⟨b, hab, hbc⟩ := hca
    exact ⟨b, hbc, hab⟩
  · rintro c a ⟨b, hbc, hab⟩
    exact ⟨b, hab, hbc⟩

theorem alike_follows : Follows step₁ step₂ (Alike step₁ step₂) := by
  rintro moment a b ⟨R, hfollows, hback, hab⟩
  exact (hfollows moment a b hab).mono fun a b hab => ⟨R, hfollows, hback, hab⟩

/-- Streams that are alike in all moments are alike in some of them. -/
theorem Alike.comap {ζ : Type} {a : σ} {b : τ} (h : Alike step₁ step₂ a b) (moments : ζ → η) :
    Alike (fun moment => step₁ (moments moment)) (fun moment => step₂ (moments moment)) a b := by
  obtain ⟨R, hfollows, hback, hab⟩ := h
  exact ⟨R, fun moment => hfollows (moments moment), fun moment => hback (moments moment), hab⟩

/-- Streams are alike if each answers the first step of the other so that what is left is alike. -/
theorem alike_of_answers {a : σ} {b : τ}
    (h : ∀ moment, Answers (step₂ moment) (Alike step₁ step₂) a b (step₁ moment a))
    (h' : ∀ moment, Answers (step₁ moment) (fun b a => Alike step₁ step₂ a b) b a
      (step₂ moment b)) : Alike step₁ step₂ a b := by
  refine ⟨fun x y => x = a ∧ y = b ∨ Alike step₁ step₂ x y, ?_, ?_, .inl ⟨rfl, rfl⟩⟩
  · rintro moment x y (⟨rfl, rfl⟩ | hxy)
    · exact (h moment).mono fun _ _ => .inr
    · exact (alike_follows moment x y hxy).mono fun _ _ => .inr
  · rintro moment y x (⟨rfl, rfl⟩ | hxy)
    · exact (h' moment).mono fun _ _ => .inr
    · exact (alike_follows moment y x hxy.symm).mono fun _ _ h => .inr h.symm

/-- A step that shows nothing, whatever the moment, makes no difference. -/
theorem Alike.head {a a' : σ} {b : τ} (hstep : ∀ moment, step₁ moment a = .working a')
    (h : Alike step₁ step₂ a' b) : Alike step₁ step₂ a b := by
  refine alike_of_answers (fun moment => ?_) fun moment => ?_
  · rw [hstep]
    exact .working (.refl b) h
  · refine .after (.head (hstep moment) (.refl a')) ?_
    exact (alike_follows moment b a' h.symm).mono fun _ _ h => h.symm

/-- Streams that bring the same item next, whatever the moment, are alike if what is left is. -/
theorem Alike.item {a a' : σ} {b b' : τ} {result : Except ε α}
    (hstep : ∀ moment, step₁ moment a = .item result a')
    (hstep' : ∀ moment, step₂ moment b = .item result b') (h : Alike step₁ step₂ a' b') :
    Alike step₁ step₂ a b := by
  refine alike_of_answers (fun moment => ?_) fun moment => ?_
  · rw [hstep]
    exact .item (.refl b) (hstep' moment) h
  · rw [hstep']
    exact .item (.refl a) (hstep moment) h

theorem alike_of_ended {a : σ} {b : τ} (hended : ∀ moment, step₁ moment a = .ended)
    (hended' : ∀ moment, step₂ moment b = .ended) : Alike step₁ step₂ a b := by
  refine alike_of_answers (fun moment => ?_) fun moment => ?_
  · rw [hended]
    exact .ended (.refl b) (hended' moment)
  · rw [hended']
    exact .ended (.refl a) (hended moment)

end Alike

/-! ## Side by side -/

section Meets

variable {η ε σ τ α : Type}

/--
What two streams do side by side.  `R` relates states at a rank, and a stream
that works on alone leaves states that are related at a lower rank.
-/
inductive Meets (step₁ : σ → Progress ε σ α) (step₂ : τ → Progress ε τ α)
    (R : Nat → σ → τ → Prop) (rank : Nat) (a : σ) (b : τ) : Prop where
  | item {result : Except ε α} {a' : σ} {b' : τ} (h₁ : step₁ a = .item result a')
      (h₂ : step₂ b = .item result b') (related : ∃ rank', R rank' a' b')
  | working {a' : σ} {b' : τ} (h₁ : step₁ a = .working a') (h₂ : step₂ b = .working b')
      (related : ∃ rank', R rank' a' b')
  | waiting (h₁ : step₁ a = .waiting) (h₂ : step₂ b = .waiting)
  | ended (h₁ : step₁ a = .ended) (h₂ : step₂ b = .ended)
  | left {a' : σ} {rank' : Nat} (h₁ : step₁ a = .working a') (hlt : rank' < rank)
      (related : R rank' a' b)
  | right {b' : τ} {rank' : Nat} (h₂ : step₂ b = .working b') (hlt : rank' < rank)
      (related : R rank' a b')

variable {step₁ : η → σ → Progress ε σ α} {step₂ : η → τ → Progress ε τ α}
  {R : Nat → σ → τ → Prop}

theorem Meets.swap {step₁ : σ → Progress ε σ α} {step₂ : τ → Progress ε τ α} {rank : Nat}
    {a : σ} {b : τ} (h : Meets step₁ step₂ R rank a b) :
    Meets step₂ step₁ (fun rank b a => R rank a b) rank b a := by
  cases h with
  | item h₁ h₂ related => exact .item h₂ h₁ related
  | working h₁ h₂ related => exact .working h₂ h₁ related
  | waiting h₁ h₂ => exact .waiting h₂ h₁
  | ended h₁ h₂ => exact .ended h₂ h₁
  | left h₁ hlt related => exact .right h₁ hlt related
  | right h₂ hlt related => exact .left h₂ hlt related

/-- Only finitely many steps of the second stream stand before its answer. -/
theorem follows_of_meets
    (h : ∀ rank a b, R rank a b → ∀ moment, Meets (step₁ moment) (step₂ moment) R rank a b) :
    Follows step₁ step₂ fun a b => ∃ rank, R rank a b := by
  rintro moment a b ⟨rank, hab⟩
  -- A step that the second stream takes alone comes before its answer, at a lower rank.
  induction rank using Nat.strongRecOn generalizing b with
  | ind rank ih =>
      cases h rank a b hab moment with
      | item h₁ h₂ related =>
          rw [h₁]
          exact .item (.refl b) h₂ related
      | working h₁ h₂ related =>
          rw [h₁]
          exact .working (.head h₂ (.refl _)) related
      | waiting h₁ h₂ =>
          rw [h₁]
          exact .waiting (.refl b) h₂ ⟨rank, hab⟩
      | ended h₁ h₂ =>
          rw [h₁]
          exact .ended (.refl b) h₂
      | left h₁ hlt related =>
          rw [h₁]
          exact .working (.refl b) ⟨_, related⟩
      | right h₂ hlt related => exact .after (.head h₂ (.refl _)) (ih _ hlt _ related)

theorem alike_of_meets
    (h : ∀ rank a b, R rank a b → ∀ moment, Meets (step₁ moment) (step₂ moment) R rank a b)
    (rank : Nat) {a : σ} {b : τ} (hab : R rank a b) : Alike step₁ step₂ a b :=
  ⟨fun a b => ∃ rank, R rank a b, follows_of_meets h,
    follows_of_meets fun rank b a hab moment => (h rank a b hab moment).swap, rank, hab⟩

theorem Alike.refl {step : η → σ → Progress ε σ α} (a : σ) : Alike step step a a := by
  refine alike_of_meets (R := fun _ a b => a = b) ?_ 0 rfl
  rintro _ a _ rfl moment
  cases hstep : step moment a with
  | item result next => exact .item hstep hstep ⟨0, rfl⟩
  | working next => exact .working hstep hstep ⟨0, rfl⟩
  | waiting => exact .waiting hstep hstep
  | ended => exact .ended hstep hstep

/-- A stream whose states are those of another one under another name. -/
theorem alike_of_mapState {name : τ → σ}
    (h : ∀ moment b, step₁ moment (name b) = (step₂ moment b).mapState name) (b : τ) :
    Alike step₁ step₂ (name b) b := by
  refine alike_of_meets (R := fun _ a b => a = name b) ?_ 0 rfl
  rintro _ _ b rfl moment
  have hname := h moment b
  cases hstep : step₂ moment b with
  | item result next =>
      rw [hstep] at hname
      exact .item hname hstep ⟨0, rfl⟩
  | working next =>
      rw [hstep] at hname
      exact .working hname hstep ⟨0, rfl⟩
  | waiting =>
      rw [hstep] at hname
      exact .waiting hname hstep
  | ended =>
      rw [hstep] at hname
      exact .ended hname hstep

end Meets

end StackQuery
