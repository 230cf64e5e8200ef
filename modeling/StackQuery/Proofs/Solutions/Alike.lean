import StackQuery.Proofs.Solutions.Stepping
import StackQuery.Proofs.Streams.Alike

/-!
# Streams of solutions that are alike

Two streams of solutions are alike under a library when no store can tell them
apart, however its answers change from step to step, as long as the abort
signal is not set.  They are alike over some answers when no store that gives
one of these at every step can tell them apart.  Streams that are alike may
stand for each other inside a stream that is stepped.
-/

namespace StackQuery

namespace Solutions

/-- The step of a stream under a library, given what the store says. -/
abbrev calmStep (l : Library) (ask : Connection) : Solutions → Progress EvalError Solutions Stack :=
  step (.calm l ask)

/-- Two streams bring the same solutions and the same errors in the same order. -/
abbrev Alike (l : Library) (a b : Solutions) : Prop :=
  StackQuery.Alike (calmStep l) (calmStep l) a b

variable {η : Type}

/-- Two streams bring the same as long as the store says one of some things at every step. -/
abbrev AlikeOver (l : Library) (asks : η → Connection) (a b : Solutions) : Prop :=
  StackQuery.Alike (fun moment => calmStep l (asks moment))
    (fun moment => calmStep l (asks moment)) a b

/-! ## Streams inside streams -/

/-- Streams that are alike, inside the same streams. -/
inductive Congruent (l : Library) (asks : η → Connection) : Solutions → Solutions → Prop where
  | alike {a b : Solutions} (h : AlikeOver l asks a b) : Congruent l asks a b
  | pushing (v : Value) {a b : Solutions} (h : Congruent l asks a b) :
      Congruent l asks (.pushing v a) (.pushing v b)
  | through {op op' : Operator} {a b : Solutions}
      (hop : ∀ stack, AlikeOver l asks (op.apply l stack) (op'.apply l stack))
      (h : Congruent l asks a b) : Congruent l asks (.through op a) (.through op' b)
  | deep (operator : String) (arity : Nat) {a b : Solutions} (h : Congruent l asks a b) :
      Congruent l asks (.deep operator arity a) (.deep operator arity b)
  | distinct (seen : List Stack) {a b : Solutions} (h : Congruent l asks a b) :
      Congruent l asks (.distinct seen a) (.distinct seen b)
  | append {a b c d : Solutions} (h : Congruent l asks a b) (h' : Congruent l asks c d) :
      Congruent l asks (.append a c) (.append b d)

variable {l : Library} {asks : η → Connection} {a b : Solutions}

theorem Congruent.symm (h : Congruent l asks a b) : Congruent l asks b a := by
  induction h with
  | alike h => exact .alike h.symm
  | pushing v _ ih => exact .pushing v ih
  | through hop _ ih => exact .through (fun stack => (hop stack).symm) ih
  | deep operator arity _ ih => exact .deep operator arity ih
  | distinct seen _ ih => exact .distinct seen ih
  | append _ _ ih ih' => exact .append ih ih'

theorem congruent_follows :
    Follows (fun moment => calmStep l (asks moment)) (fun moment => calmStep l (asks moment))
      (Congruent l asks) := by
  intro moment a b h
  induction h with
  | alike h => exact (alike_follows moment _ _ h).mono fun _ _ => .alike
  | pushing v _ ih =>
      refine ih.wrap (.pushing v) (.pushing v) (fun _ _ => Congruent.pushing v) ?_
      intro result next b next' h h' hnext
      simp only [calmStep] at h h'
      simp only [calmStep, step, h]
      exact .item (.refl _) (by simp only [step, h']) (.pushing v hnext)
  | through hop _ ih =>
      refine ih.wrap (.through _) (.through _) (fun _ _ => Congruent.through hop) ?_
      intro result next b next' h h' hnext
      simp only [calmStep] at h h'
      simp only [calmStep, step, h]
      cases result with
      | error error => exact .item (.refl _) (by simp only [step, h']) (.through hop hnext)
      | ok stack =>
          refine .working (.head ?_ (.refl _)) (.append (.alike (hop stack)) (.through hop hnext))
          simp only [step, h', Surroundings.calm_library]
  | deep operator arity _ ih =>
      refine ih.wrap (.deep operator arity) (.deep operator arity)
        (fun _ _ => Congruent.deep operator arity) ?_
      intro result next b next' h h' hnext
      simp only [calmStep] at h h'
      simp only [calmStep, step, h]
      cases result with
      | error error =>
          exact .item (.refl _) (by simp only [step, h']) (.deep operator arity hnext)
      | ok stack =>
          by_cases hshallow : stack.length < arity
          · simp only [if_pos hshallow]
            refine .item (.refl _) ?_ (.deep operator arity hnext)
            simp only [step, h', if_pos hshallow]
          · simp only [if_neg hshallow]
            refine .item (.refl _) ?_ (.deep operator arity hnext)
            simp only [step, h', if_neg hshallow]
  | distinct seen _ ih =>
      refine ih.wrap (.distinct seen) (.distinct seen) (fun _ _ => Congruent.distinct seen) ?_
      intro result next b next' h h' hnext
      simp only [calmStep] at h h'
      simp only [calmStep, step, h]
      cases result with
      | error error => exact .item (.refl _) (by simp only [step, h']) (.distinct seen hnext)
      | ok stack =>
          by_cases hseen : seen.any stack.same
          · simp only [if_pos hseen]
            refine .working (.head ?_ (.refl _)) (.distinct seen hnext)
            simp only [step, h', if_pos hseen]
          · simp only [if_neg hseen]
            refine .item (.refl _) ?_ (.distinct (stack :: seen) hnext)
            simp only [step, h', if_neg hseen]
  | @append a b c d _ h' ih _ =>
      have hfirst : ∀ {b b'}, Works (calmStep l (asks moment)) b b' →
          Works (calmStep l (asks moment)) (.append b d) (.append b' d) := by
        intro b b' works
        induction works with
        | refl _ => exact .refl _
        | head hstep _ ih => exact .head (step_append_working hstep) ih
      simp only [calmStep, step] at hfirst ih ⊢
      generalize step (.calm l (asks moment)) a = p at ih ⊢
      cases ih with
      | item works hstep related =>
          exact .item (hfirst works) (step_append_item hstep) (.append related h')
      | working works related => exact .working (hfirst works) (.append related h')
      | waiting works hstep related =>
          exact .waiting (hfirst works) (step_append_waiting hstep) (.append related h')
      | ended works hstep =>
          exact .working ((hfirst works).trans (.head (step_append_ended hstep) (.refl _))) h'

theorem Congruent.toAlikeOver (h : Congruent l asks a b) : AlikeOver l asks a b :=
  ⟨Congruent l asks, congruent_follows, fun moment b a hab =>
    (congruent_follows moment b a hab.symm).mono fun _ _ => Congruent.symm, h⟩

theorem AlikeOver.pushing (v : Value) (h : AlikeOver l asks a b) :
    AlikeOver l asks (.pushing v a) (.pushing v b) :=
  (Congruent.pushing v (.alike h)).toAlikeOver

theorem AlikeOver.through {op op' : Operator}
    (hop : ∀ stack, AlikeOver l asks (op.apply l stack) (op'.apply l stack))
    (h : AlikeOver l asks a b) : AlikeOver l asks (.through op a) (.through op' b) :=
  (Congruent.through hop (.alike h)).toAlikeOver

theorem AlikeOver.deep (operator : String) (arity : Nat) (h : AlikeOver l asks a b) :
    AlikeOver l asks (.deep operator arity a) (.deep operator arity b) :=
  (Congruent.deep operator arity (.alike h)).toAlikeOver

theorem AlikeOver.distinct (seen : List Stack) (h : AlikeOver l asks a b) :
    AlikeOver l asks (.distinct seen a) (.distinct seen b) :=
  (Congruent.distinct seen (.alike h)).toAlikeOver

/-- What no store can tell apart no store of some kind can. -/
theorem Alike.over (h : Alike l a b) (asks : η → Connection) : AlikeOver l asks a b :=
  h.comap asks

end Solutions

end StackQuery
