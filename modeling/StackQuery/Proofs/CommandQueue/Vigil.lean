import StackQuery.Proofs.CommandQueue.Waking

/-!
# The wait of the worker, taken apart

In a scene the worker is parked as soon as it has found nothing to take, and a
notice is one thing, whether it comes before the worker waits or while it does.
Here the two are told apart.  A worker that is parked has still to fall asleep,
and before it does, commands may be pushed and notices given.  A notice that
finds the worker asleep wakes it and is used up by that.  Any other notice is
kept, for the next time that the worker would fall asleep, and of several such
notices one is kept.

Once the sign to exit has been given, a worker that could go on for the one or
the other looks at the sign first.
-/

namespace StackQuery

/-- How far the worker is with its wait. -/
inductive Wait where
  /-- Not asleep, and if it is parked, about to fall asleep. -/
  | away
  | asleep
  /-- A notice has come, and the worker has yet to go on. -/
  | woken
  deriving DecidableEq, Repr

/-- A scene in which the notice is one that has woken nobody, and the wait of the worker. -/
structure Vigil (κ ρ ω : Type) where
  scene : Scene κ ρ ω
  wait : Wait

theorem CommandQueue.advance?_of_notice {κ ρ ω : Type} {b : Behaviour κ ρ ω}
    {q : CommandQueue κ ρ ω} (hparked : q.worker = .parked) (hsign : q.exitSign = .unset)
    (hnotice : q.notice = true) :
    q.advance? b = some { q with worker := .seeking, notice := false } := by
  simp [advance?, hparked, hsign, hnotice]

namespace Vigil

variable {κ ρ ω : Type}

def start (world : ω) : Vigil κ ρ ω := ⟨.start world, .away⟩

/-- The step of a worker that is parked; the notice that has woken it is not one that is kept. -/
def goOn (b : Behaviour κ ρ ω) (v : Vigil κ ρ ω) : Vigil κ ρ ω :=
  match v.wait with
  | .woken =>
      match v.scene.queue.notify.advance? b with
      | some queue =>
          ⟨{ v.scene with queue := { queue with notice := v.scene.queue.notice } }, .away⟩
      | none => v
  | .away | .asleep =>
      match v.scene.queue.advance? b with
      | some queue => ⟨{ v.scene with queue }, .away⟩
      | none => { v with wait := .asleep }

def after (b : Behaviour κ ρ ω) (v : Vigil κ ρ ω) : Turn κ ω → Vigil κ ρ ω
  | .notify =>
      match v.wait with
      | .asleep =>
          if v.scene.untold = 0 then v
          else ⟨{ v.scene with untold := v.scene.untold - 1 }, .woken⟩
      | .away | .woken => { v with scene := v.scene.after b .notify }
  | .work =>
      match v.scene.queue.worker with
      | .parked => v.goOn b
      | _ => { v with scene := v.scene.after b .work }
  | turn => { v with scene := v.scene.after b turn }

def run (b : Behaviour κ ρ ω) (v : Vigil κ ρ ω) (turns : List (Turn κ ω)) : Vigil κ ρ ω :=
  turns.foldl (after b) v

/-! ## Nothing is slept through -/

variable {b : Behaviour κ ρ ω} {v : Vigil κ ρ ω}

/-- Only a parked worker sleeps, with no notice kept meanwhile; what waits is, or will be, told. -/
structure Watchful (v : Vigil κ ρ ω) : Prop where
  parked : v.wait ≠ .away → v.scene.queue.worker = .parked
  asleep : v.wait = .asleep → v.scene.queue.notice = false
  heard : v.scene.queue.worker = .parked →
    v.scene.queue.pending = [] ∨ v.scene.queue.notice = true ∨ v.wait = .woken ∨
      0 < v.scene.untold

theorem watchful_start (world : ω) : (start world : Vigil κ ρ ω).Watchful where
  parked h := absurd rfl h
  asleep h := by cases h
  heard h := by cases h

/-- A worker that has just taken a step is not asleep, and parked only with nothing to take. -/
theorem watchful_away {s : Scene κ ρ ω}
    (h : s.queue.worker = .parked → s.queue.pending = []) : Watchful ⟨s, .away⟩ where
  parked h := absurd rfl h
  asleep h := by cases h
  heard hparked := .inl (h hparked)

/-- Callers leave the worker parked and the notice as it is, unless they give one. -/
theorem Watchful.leads (h : v.Watchful) {turn : Turn κ ω} {s : Scene κ ρ ω}
    (hleads : Scene.Leads b v.scene turn s) (hnotify : turn ≠ .notify) (hwork : turn ≠ .work) :
    Watchful ⟨s, v.wait⟩ := by
  cases hleads with
  | notifies => exact absurd rfl hnotify
  | works => exact absurd rfl hwork
  | pushes =>
      exact ⟨h.parked, h.asleep, fun _ => .inr (.inr (.inr (Nat.succ_pos _)))⟩
  | drops _ hpending =>
      refine ⟨h.parked, h.asleep, fun hparked => ?_⟩
      have hheard := h.heard hparked
      simp only [hpending, List.cons_ne_nil, false_or] at hheard
      exact .inr hheard
  | unlocks _ hpending =>
      unfold CommandQueue.endStop
      split
      next job hworker =>
        have haway : v.wait = .away := by
          by_contra hwait
          rw [h.parked hwait] at hworker
          cases hworker
        exact ⟨fun hwait => absurd haway hwait, h.asleep, fun hparked => by cases hparked⟩
      next => exact ⟨h.parked, h.asleep, fun _ => .inl hpending⟩
  | signals =>
      unfold CommandQueue.signalExit
      split
      next => exact h
      next => exact ⟨h.parked, h.asleep, h.heard⟩
  | stays => exact h
  | enrolls | locks | takesFailure | changes => exact ⟨h.parked, h.asleep, h.heard⟩

/-- A notice wakes a sleeping worker and is kept otherwise. -/
theorem Watchful.notify (h : v.Watchful) : (v.after b .notify).Watchful := by
  cases hwait : v.wait with
  | asleep =>
      simp only [after, hwait]
      split_ifs
      · exact h
      · have hparked := h.parked (by simp [hwait])
        exact ⟨fun _ => hparked, (fun hasleep => by cases hasleep), fun _ => .inr (.inr (.inl rfl))⟩
  | away | woken =>
      simp only [after, hwait, Scene.after]
      split_ifs
      · exact hwait ▸ h
      · refine ⟨fun hne => h.parked (hwait ▸ hne), fun hasleep => ?_, fun _ => .inr (.inl rfl)⟩
        exact absurd (hwait.trans hasleep) (by simp [hwait])

/-- A worker falls asleep only if no notice is kept. -/
theorem Watchful.goOn (h : v.Watchful) (hparked : v.scene.queue.worker = .parked) :
    (v.goOn b).Watchful := by
  have hsteps {q q' : CommandQueue κ ρ ω} (hstep : q.advance? b = some q') :
      q'.worker = .parked → q'.pending = [] :=
    (CommandQueue.steps_of_advance? hstep).pending_of_parked
  cases hwait : v.wait with
  | woken =>
      simp only [Vigil.goOn, hwait]
      cases hstep : v.scene.queue.notify.advance? b with
      | some queue =>
          have hqueue := hsteps hstep
          exact watchful_away hqueue
      | none => exact h
  | away | asleep =>
      simp only [Vigil.goOn, hwait]
      cases hstep : v.scene.queue.advance? b with
      | some queue => exact watchful_away (hsteps hstep)
      | none =>
          have hnotice : v.scene.queue.notice = false := by
            rcases CommandQueue.advance?_eq_none hstep with ⟨_, _, hbusy, _⟩ | hsleeps | hexited
            · rw [hparked] at hbusy
              cases hbusy
            · exact hsleeps.2.1
            · rw [hparked] at hexited
              cases hexited
          refine ⟨fun _ => hparked, fun _ => hnotice, fun _ => ?_⟩
          have hheard := h.heard hparked
          simp only [hnotice, hwait, Bool.false_eq_true, reduceCtorEq, false_or] at hheard ⊢
          exact hheard

theorem Watchful.work (h : v.Watchful) : (v.after b .work).Watchful := by
  by_cases hparked : v.scene.queue.worker = .parked
  · simp only [after, hparked]
    exact h.goOn hparked
  · have haway : v.wait = .away := by
      by_contra hwait
      exact hparked (h.parked hwait)
    have hafter : v.after b .work = ⟨v.scene.after b .work, .away⟩ := by
      rw [← haway]
      cases hworker : v.scene.queue.worker with
      | parked => exact absurd hworker hparked
      | seeking | busy | between | exited => simp only [after, hworker]
    rw [hafter]
    have hleads := Scene.leads_after b v.scene .work
    generalize v.scene.after b .work = s at hleads
    refine watchful_away fun hparked' => ?_
    cases hleads with
    | stays => exact absurd hparked' hparked
    | works _ hstep => exact (CommandQueue.steps_of_advance? hstep).pending_of_parked hparked'

theorem Watchful.after (h : v.Watchful) (turn : Turn κ ω) : (v.after b turn).Watchful := by
  cases turn with
  | notify => exact h.notify
  | work => exact h.work
  | enroll | push | beginStop | dropFirst | endStop | takeFailure | signalExit | change =>
      exact h.leads (Scene.leads_after b v.scene _) (by simp) (by simp)

theorem run_watchful (b : Behaviour κ ρ ω) (world : ω) (turns : List (Turn κ ω)) :
    ((start world).run b turns).Watchful := by
  suffices h : ∀ v : Vigil κ ρ ω, v.Watchful → (v.run b turns).Watchful from
    h _ (watchful_start world)
  induction turns with
  | nil => exact fun _ h => h
  | cons turn later ih => exact fun v h => ih _ (h.after turn)

/--
Whatever turns have been taken: if the worker is parked, has not been woken and
has not been given the sign to exit, then nothing waits, or a notice is kept, or
some command has been pushed of which the worker is yet to be told.  While it
sleeps no notice is kept; and when all notices have been given and something
waits, its next step is to look for a command.  In a scene, where a notice that
has woken the worker counts as kept, the same holds.
-/
theorem no_wakeup_lost (b : Behaviour κ ρ ω) (world : ω) (turns : List (Turn κ ω)) :
    let v := (start world).run b turns
    let q := v.scene.queue
    (q.worker = .parked → q.exitSign = .unset → v.wait ≠ .woken →
      q.pending = [] ∨ q.notice = true ∨ 0 < v.scene.untold) ∧
    (v.wait = .asleep → q.worker = .parked ∧ q.notice = false) ∧
    (q.worker = .parked → q.exitSign = .unset → q.pending ≠ [] → v.scene.untold = 0 →
      (v.after b .work).scene.queue.worker = .seeking) ∧
    let s := (Scene.start world).run b turns
    s.queue.worker = .parked → s.queue.exitSign = .unset →
      s.queue.pending = [] ∨ s.queue.notice = true ∨ 0 < s.untold := by
  intro v q
  have hwatchful : v.Watchful := run_watchful b world turns
  refine ⟨fun hparked _ hwait => ?_, fun hasleep => ?_, fun hparked hsign hpending htold => ?_,
    fun hparked _ => Scene.run_heard b world turns hparked⟩
  · have hheard := hwatchful.heard hparked
    tauto
  · exact ⟨hwatchful.parked (by simp [hasleep]), hwatchful.asleep hasleep⟩
  · have hheard : q.notice = true ∨ v.wait = .woken := by
      have hheard := hwatchful.heard hparked
      simp only [htold, Nat.lt_irrefl, or_false] at hheard
      exact hheard.resolve_left hpending
    have hwork : v.after b .work = v.goOn b := by
      have hparked' : v.scene.queue.worker = .parked := hparked
      simp only [after, hparked']
    rw [hwork]
    cases hwait : v.wait with
    | woken =>
        have hstep := CommandQueue.advance?_of_notice (b := b) (q := v.scene.queue.notify)
          hparked hsign rfl
        simp only [goOn, hwait, hstep]
    | asleep =>
        have hnotice : q.notice = false := hwatchful.asleep hwait
        simp [hnotice, hwait] at hheard
    | away =>
        have hnotice : q.notice = true := by simpa [hwait] using hheard
        have hstep := CommandQueue.advance?_of_notice (b := b) (q := v.scene.queue)
          hparked hsign hnotice
        simp only [goOn, hwait, hstep]

/-! A command is pushed while the worker sleeps; the notice wakes it, and is used up by that. -/

example :
    let b : Behaviour Unit Unit Unit :=
      ⟨fun _ => "", fun _ => (), fun _ _ _ world => .returned (.ok ()) world,
        fun command world => (command, world), fun _ world => world⟩
    let asleep := (start ()).run b [.work, .work, .enroll (), .push 0]
    let woken := asleep.after b .notify
    let seeking := woken.after b .work
    asleep.wait = .asleep ∧ asleep.scene.queue.pending = [(0, ())] ∧ asleep.scene.untold = 1 ∧
      woken.wait = .woken ∧ woken.scene.queue.notice = false ∧
      seeking.scene.queue.worker = .seeking ∧ seeking.wait = .away := by
  exact ⟨rfl, rfl, rfl, rfl, rfl, rfl, rfl⟩

end Vigil

end StackQuery
