import StackQuery.Sink.Broadcast

/-!
# Accounting for what is broadcast

A receiver of output that has lagged behind is told how many events had gone
when it looked.  It then starts again after the newest event, so the events
that were still kept are skipped as well, and nobody is told of them: as many
as the channel keeps, each time.  Apart from that every solution and every
message put after the receiver has subscribed is returned, is counted in a
report of lagging behind, or is still to come.

What is to come is what further receiving brings.  A receiver that has not
lagged behind gets all of it; one that has gets one more report and nothing
else.
-/

namespace StackQuery

/-! ## Channels -/

namespace Channel

variable {α : Type} {c : Channel α}

/-- A channel keeps as much as it has room for. -/
structure Full (c : Channel α) : Prop where
  room : 0 < c.capacity
  kept : c.kept.length = min c.sent c.capacity

theorem full_ofCapacity (capacity : Nat) : (ofCapacity capacity : Channel α).Full where
  room := Nat.pos_of_isPowerOfTwo (Nat.isPowerOfTwo_nextPowerOfTwo capacity)
  kept := by simp [ofCapacity]

theorem capacity_send (c : Channel α) (a : α) : (c.send a).capacity = c.capacity := by
  unfold send
  split <;> rfl

theorem subscribers_send (c : Channel α) (a : α) : (c.send a).subscribers = c.subscribers := by
  unfold send
  split <;> rfl

theorem sent_send (h : c.subscribers ≠ 0) (a : α) : (c.send a).sent = c.sent + 1 := by
  rw [send, if_neg h]

theorem Full.send (h : c.Full) (a : α) : (c.send a).Full := by
  unfold Channel.send
  split
  next => exact h
  next =>
    refine ⟨h.room, ?_⟩
    simp only [List.length_take, List.length_cons, h.kept]
    omega

theorem Full.oldest (h : c.Full) : c.oldest = c.sent - c.capacity := by
  rw [Channel.oldest, h.kept]
  omega

/-- A receiver finds nothing new, or the value it gets next, or that this value has gone. -/
theorem Full.look (h : c.Full) (next : Nat) :
    c.sent ≤ next ∧ (c.look next = .nothing ∨ c.look next = .closed) ∨
      (next < c.sent ∧ c.sent ≤ next + c.capacity ∧ ∃ a, c.look next = .value a) ∨
      next + c.capacity < c.sent ∧
        c.look next = .lagged (c.sent - next - c.capacity) (c.sent - c.capacity) := by
  unfold Channel.look
  split
  next hread => exact .inl ⟨hread, by split <;> simp⟩
  next hunread =>
    rw [h.oldest]
    split
    next hgone =>
      rw [Nat.sub_right_comm]
      exact .inr (.inr ⟨by omega, rfl⟩)
    next hkept =>
      have hplace : c.sent - 1 - next < c.kept.length := by
        rw [h.kept]
        omega
      rw [List.getElem?_eq_getElem hplace]
      exact .inr (.inl ⟨by omega, by omega, _, rfl⟩)

end Channel

/-! ## Broadcasts -/

def Event.isOutput : Event → Bool
  | .solution _ _ _ | .message _ _ => true
  | .error _ => false

namespace Broadcast

variable {b : Broadcast}

/-- What can happen to a broadcast, whoever receives it. -/
inductive Change where
  | put (event : Event)
  | subscribe
  | close

def Change.events : Change → List Event
  | .put event => [event]
  | .subscribe | .close => []

def after (b : Broadcast) : Change → Broadcast
  | .put event => (b.put event).1
  | .subscribe => b.subscribe.1
  | .close => b.close

theorem full_after (h : b.output.Full) (change : Change) : (b.after change).output.Full := by
  rcases change with ((_ | _ | _) | _ | _)
  · exact h.send _
  · exact h.send _
  all_goals exact ⟨h.room, h.kept⟩

theorem capacity_after (b : Broadcast) (change : Change) :
    (b.after change).output.capacity = b.output.capacity := by
  rcases change with ((_ | _ | _) | _ | _)
  · exact Channel.capacity_send _ _
  · exact Channel.capacity_send _ _
  all_goals rfl

theorem foldl_after (h : b.output.Full) (changes : List Change) :
    (changes.foldl after b).output.Full ∧
      (changes.foldl after b).output.capacity = b.output.capacity := by
  induction changes generalizing b with
  | nil => exact ⟨h, rfl⟩
  | cons change changes ih =>
      obtain ⟨hfull, hcapacity⟩ := ih (full_after h change)
      exact ⟨hfull, hcapacity.trans (b.capacity_after change)⟩

theorem subscribers_after (h : b.output.subscribers ≠ 0) (change : Change) :
    (b.after change).output.subscribers ≠ 0 := by
  rcases change with ((_ | _ | _) | _ | _)
  · exact (Channel.subscribers_send _ _).symm ▸ h
  · exact (Channel.subscribers_send _ _).symm ▸ h
  · exact h
  · exact Nat.succ_ne_zero _
  · exact h

theorem nextEvent_receiveReport (b : Broadcast) (r : Receivers) :
    (b.receiveReport r).1.nextEvent = r.nextEvent := by
  unfold receiveReport
  split <;> rfl

theorem sent_after (h : b.output.subscribers ≠ 0) (change : Change) :
    (b.after change).output.sent = b.output.sent + change.events.countP Event.isOutput := by
  rcases change with ((_ | _ | _) | _ | _)
  · exact Channel.sent_send h _
  · exact Channel.sent_send h _
  all_goals rfl

end Broadcast

/-! ## Listening -/

namespace Received

variable {α : Type}

def isValue : Received α → Bool
  | .value _ => true
  | _ => false

def isLag : Received α → Bool
  | .failed (.lagged _) => true
  | _ => false

/-- How many events the receiver is told that it has missed. -/
def missed : Received α → Nat
  | .failed (.lagged count) => count
  | _ => 0

end Received

/-- A broadcast and one pair of its receivers, with what has been put and received since. -/
structure Listener where
  broadcast : Broadcast
  receivers : Receivers
  put : List Event
  received : List (Received Event)

namespace Listener

variable {b : Broadcast} {l l' : Listener}

inductive Step where
  | change (change : Broadcast.Change)
  | receive
  | receiveReport

/-- The receivers subscribe. -/
def start (b : Broadcast) : Listener := ⟨b.subscribe.1, b.subscribe.2, [], []⟩

/-- Something is received, and a certain event comes next. -/
def takes (l : Listener) (found : Received Event) (nextEvent : Nat) : Listener :=
  { l with receivers := { l.receivers with nextEvent }, received := l.received ++ [found] }

def after (l : Listener) : Step → Listener
  | .change change =>
      { l with broadcast := l.broadcast.after change, put := l.put ++ change.events }
  | .receive =>
      let (receivers, found) := l.broadcast.receive l.receivers
      { l with receivers, received := l.received ++ [found] }
  | .receiveReport => { l with receivers := (l.broadcast.receiveReport l.receivers).1 }

def run (l : Listener) (steps : List Step) : Listener := steps.foldl after l

def capacity (l : Listener) : Nat := l.broadcast.output.capacity

/-- How many solutions and messages have been put. -/
def outputs (l : Listener) : Nat := l.put.countP Event.isOutput

def returned (l : Listener) : Nat := l.received.countP Received.isValue

/-- How many events were missed by all reports of lagging behind. -/
def missed (l : Listener) : Nat :=
  l.received.foldl (fun total found => total + found.missed) 0

def lags (l : Listener) : Nat := l.received.countP Received.isLag

/-- How many of the events sent the receiver has yet to come to. -/
def unread (l : Listener) : Nat := l.broadcast.output.sent - l.receivers.nextEvent

theorem run_cons (l : Listener) (step : Step) (steps : List Step) :
    l.run (step :: steps) = (l.after step).run steps := rfl

section Takes

variable (l : Listener) (found : Received Event) (nextEvent : Nat)

@[simp] theorem capacity_takes : (l.takes found nextEvent).capacity = l.capacity := rfl

@[simp] theorem outputs_takes : (l.takes found nextEvent).outputs = l.outputs := rfl

@[simp] theorem unread_takes :
    (l.takes found nextEvent).unread = l.broadcast.output.sent - nextEvent := rfl

@[simp] theorem returned_takes :
    (l.takes found nextEvent).returned = l.returned + if found.isValue then 1 else 0 := by
  simp only [returned, takes, List.countP_append, List.countP_singleton]

@[simp] theorem missed_takes : (l.takes found nextEvent).missed = l.missed + found.missed := by
  simp only [missed, takes, List.foldl_append, List.foldl_cons, List.foldl_nil]

@[simp] theorem lags_takes :
    (l.takes found nextEvent).lags = l.lags + if found.isLag then 1 else 0 := by
  simp only [lags, takes, List.countP_append, List.countP_singleton]

end Takes

/-! ## One step -/

/-- Every output put is returned, told of as missed, skipped besides, or unread. -/
structure Accounted (l : Listener) : Prop where
  full : l.broadcast.output.Full
  heard : l.broadcast.output.subscribers ≠ 0
  reached : l.receivers.nextEvent ≤ l.broadcast.output.sent
  total : l.outputs = l.returned + l.missed + l.capacity * l.lags + l.unread

theorem accounted_start (h : b.output.Full) : (start b).Accounted where
  full := ⟨h.room, h.kept⟩
  heard := Nat.succ_ne_zero _
  reached := Nat.le_refl _
  total := by
    simp [outputs, returned, missed, lags, unread, start, Broadcast.subscribe, Channel.subscribe]

theorem Accounted.change (h : l.Accounted) (change : Broadcast.Change) :
    (l.after (.change change)).Accounted := by
  have hsent := Broadcast.sent_after h.heard change
  have hreached := h.reached
  have htotal := h.total
  refine ⟨Broadcast.full_after h.full change, Broadcast.subscribers_after h.heard change, ?_, ?_⟩
  · simp only [after, hsent]
    omega
  · have hcapacity : (l.after (.change change)).capacity = l.capacity :=
      l.broadcast.capacity_after change
    rw [hcapacity]
    simp only [outputs, returned, missed, lags, unread, after, hsent, List.countP_append]
      at htotal ⊢
    omega

/-- What receiving an output brings. -/
inductive Receives (l : Listener) : Listener → Prop where
  | nothing {found : Received Event} (hread : l.unread = 0) (hvalue : found.isValue = false)
      (hlag : found.isLag = false) (hmissed : found.missed = 0) :
      Receives l (l.takes found l.receivers.nextEvent)
  | value (event : Event) (hunread : 0 < l.unread) (hkept : l.unread ≤ l.capacity) :
      Receives l (l.takes (.value event) (l.receivers.nextEvent + 1))
  | lags (hgone : l.capacity < l.unread) :
      Receives l
        (l.takes (.failed (.lagged (l.unread - l.capacity))) l.broadcast.output.sent)

theorem Accounted.receives (h : l.Accounted) : Receives l (l.after .receive) := by
  simp only [after, Broadcast.receive]
  rcases h.full.look l.receivers.nextEvent with ⟨hread, hnone | hclosed⟩ |
    ⟨hunread, hkept, event, hvalue⟩ | ⟨hgone, hlagged⟩
  · rw [hnone]
    exact .nothing (Nat.sub_eq_zero_of_le hread) rfl rfl rfl
  · rw [hclosed]
    exact .nothing (Nat.sub_eq_zero_of_le hread) rfl rfl rfl
  · rw [hvalue]
    exact .value event (by simp only [unread]; omega) (by simp only [unread, capacity]; omega)
  · rw [hlagged]
    exact .lags (by simp only [unread, capacity]; omega)

theorem Accounted.of_receives (h : l.Accounted) (hreceives : Receives l l') : l'.Accounted := by
  have htotal := h.total
  have hreached := h.reached
  cases hreceives with
  | nothing hread hvalue hlag hmissed =>
      simp only [unread] at htotal
      refine ⟨h.full, h.heard, h.reached, ?_⟩
      simp only [outputs_takes, returned_takes, missed_takes, capacity_takes, lags_takes,
        unread_takes, hvalue, hlag, hmissed]
      exact htotal
  | value event hunread =>
      refine ⟨h.full, h.heard, ?_, ?_⟩
      · simp only [unread] at hunread
        simp only [takes]
        omega
      · simp only [unread] at hunread htotal
        simp [Received.isValue, Received.isLag, Received.missed]
        omega
  | lags hgone =>
      refine ⟨h.full, h.heard, Nat.le_refl _, ?_⟩
      simp [Received.isValue, Received.isLag, Received.missed, Nat.mul_add]
      omega

theorem Accounted.after (h : l.Accounted) (step : Step) : (l.after step).Accounted := by
  cases step with
  | change change => exact h.change change
  | receive => exact h.of_receives h.receives
  | receiveReport =>
      have hnext := l.broadcast.nextEvent_receiveReport l.receivers
      refine ⟨h.full, h.heard, hnext ▸ h.reached, ?_⟩
      have htotal := h.total
      simp only [unread] at htotal
      simp only [unread, Listener.after, hnext]
      exact htotal

theorem Accounted.run (h : l.Accounted) (steps : List Step) : (l.run steps).Accounted := by
  induction steps generalizing l with
  | nil => exact h
  | cons step steps ih => exact ih (h.after step)

theorem capacity_run (l : Listener) (steps : List Step) : (l.run steps).capacity = l.capacity := by
  induction steps generalizing l with
  | nil => rfl
  | cons step steps ih =>
      refine (ih (l.after step)).trans ?_
      cases step with
      | change change => exact l.broadcast.capacity_after change
      | receive | receiveReport => rfl

/-! ## What is still to come -/

theorem outputs_receives (l : Listener) (fuel : Nat) :
    (l.run (List.replicate fuel .receive)).outputs = l.outputs := by
  induction fuel generalizing l with
  | zero => rfl
  | succ fuel ih => exact ih (l.after .receive)

/-- Nothing is left, and this is what has been received on the way. -/
structure Drained (l l' : Listener) (returned missed lags : Nat) : Prop where
  nothing_left : l'.unread = 0
  returned : l'.returned = l.returned + returned
  missed : l'.missed = l.missed + missed
  lags : l'.lags = l.lags + lags

theorem Drained.of_takes {found : Received Event} {nextEvent returned missed lags : Nat}
    (h : Drained (l.takes found nextEvent) l' returned missed lags) :
    Drained l l' ((if found.isValue then 1 else 0) + returned) (found.missed + missed)
      ((if found.isLag then 1 else 0) + lags) where
  nothing_left := h.nothing_left
  returned := by rw [h.returned, returned_takes, Nat.add_assoc]
  missed := by rw [h.missed, missed_takes, Nat.add_assoc]
  lags := by rw [h.lags, lags_takes, Nat.add_assoc]

/-- As long as nothing unread has gone, all of it is returned. -/
theorem Accounted.drained_of_kept (h : l.Accounted) (hkept : l.unread ≤ l.capacity) {fuel : Nat}
    (hfuel : l.unread ≤ fuel) :
    Drained l (l.run (List.replicate fuel .receive)) l.unread 0 0 := by
  induction fuel generalizing l with
  | zero =>
      have hread := Nat.le_zero.mp hfuel
      exact ⟨hread, by rw [hread]; rfl, rfl, rfl⟩
  | succ fuel ih =>
      have hreceives := h.receives
      have hafter := h.of_receives hreceives
      rw [List.replicate_succ, run_cons]
      generalize l.after .receive = next at hreceives hafter ⊢
      cases hreceives with
      | @nothing found hread hvalue hlag hmissed =>
          have hstill : (l.takes found l.receivers.nextEvent).unread = 0 := hread
          have hrest := (ih hafter (by omega) (by omega)).of_takes
          simpa [hvalue, hlag, hmissed, hstill, hread] using hrest
      | value event hunread =>
          have hone : (l.takes (.value event) (l.receivers.nextEvent + 1)).unread =
              l.unread - 1 := Nat.sub_add_eq _ _ 1
          have hrest := (ih hafter (by rw [hone, capacity_takes]; omega) (by omega)).of_takes
          rw [hone] at hrest
          simpa [Received.isValue, Received.isLag, Received.missed, Nat.add_sub_cancel' hunread]
            using hrest
      | lags hgone => omega

/-- If something unread has gone, that much is told, and nothing is returned. -/
theorem Accounted.drained_of_gone (h : l.Accounted) (hgone : l.capacity < l.unread)
    (fuel : Nat) :
    Drained l (l.run (List.replicate (fuel + 1) .receive)) 0 (l.unread - l.capacity) 1 := by
  have hreceives := h.receives
  have hafter := h.of_receives hreceives
  rw [List.replicate_succ, run_cons]
  generalize l.after .receive = next at hreceives hafter ⊢
  cases hreceives with
  | lags =>
      have hnone : (l.takes (.failed (.lagged (l.unread - l.capacity)))
          l.broadcast.output.sent).unread = 0 := Nat.sub_self _
      have hfuel := Nat.le_trans (Nat.le_of_eq hnone) fuel.zero_le
      have hrest := (hafter.drained_of_kept (by omega) hfuel).of_takes
      rw [hnone] at hrest
      exact hrest
  | nothing hread => omega
  | value event _ hkept => omega

/--
However a broadcast has been used before, and however putting and receiving are
mixed: all outputs that are put are returned in the end or counted in a report
of lagging behind, but for as many with each such report as the channel keeps.
So none goes unreported just when the receiver never lags behind.
-/
theorem outputs_accounted (capacity : Nat) (earlier : List Broadcast.Change) (steps : List Step)
    (more : Nat) :
    let kept := capacity.nextPowerOfTwo
    let l := (start (earlier.foldl Broadcast.after (.ofCapacity capacity))).run steps
    let l' := l.run (List.replicate (l.unread + 1 + more) .receive)
    (l.unread ≤ kept ∧ Drained l l' l.unread 0 0 ∨
      kept < l.unread ∧ Drained l l' 0 (l.unread - kept) 1) ∧
    l.outputs = l'.returned + l'.missed + kept * l'.lags ∧
    (l.outputs = l'.returned + l'.missed ↔ l'.lags = 0) := by
  intro kept l l'
  obtain ⟨hfull, hcapacity⟩ := Broadcast.foldl_after (b := .ofCapacity capacity)
    (Channel.full_ofCapacity capacity) earlier
  have haccounted : l.Accounted := (accounted_start hfull).run steps
  have hroom : l.capacity = kept := (capacity_run _ steps).trans hcapacity
  have hbrought : l.unread ≤ kept ∧ Drained l l' l.unread 0 0 ∨
      kept < l.unread ∧ Drained l l' 0 (l.unread - kept) 1 := by
    rw [← hroom]
    rcases Nat.lt_or_ge l.capacity l.unread with hgone | hkept
    · have hdrained := haccounted.drained_of_gone hgone (l.unread + more)
      rw [Nat.add_right_comm] at hdrained
      exact .inr ⟨hgone, hdrained⟩
    · exact .inl ⟨hkept, haccounted.drained_of_kept hkept (by omega)⟩
  have hnothing : l'.unread = 0 := by
    rcases hbrought with ⟨_, hdrained⟩ | ⟨_, hdrained⟩ <;> exact hdrained.nothing_left
  have hsame : l'.outputs = l.outputs := outputs_receives l _
  have htotal : l'.outputs = l'.returned + l'.missed + l'.capacity * l'.lags + l'.unread :=
    (haccounted.run _).total
  have hkept : l'.capacity = kept := (capacity_run l _).trans hroom
  rw [hsame, hkept, hnothing, Nat.add_zero] at htotal
  have hpositive : kept ≠ 0 := Nat.ne_of_gt (hroom ▸ haccounted.full.room)
  refine ⟨hbrought, htotal, ?_⟩
  rw [htotal, Nat.add_eq_left, Nat.mul_eq_zero]
  exact or_iff_right hpositive

/-- With room for two, of three messages one is told of, and none is returned. -/
theorem kept_messages_skipped :
    let message : Step := .change (.put (.message none "more"))
    let l := (start (.ofCapacity 2)).run [message, message, message, .receive]
    l.outputs = 3 ∧ l.returned = 0 ∧ l.missed = 1 ∧
      ∀ fuel, (l.run (List.replicate fuel .receive)).returned = 0 ∧
        (l.run (List.replicate fuel .receive)).missed = 1 := by
  intro message l
  have haccounted : l.Accounted := (accounted_start (Channel.full_ofCapacity 2)).run _
  have hreturned : l.returned = 0 := by decide +kernel
  have hmissed : l.missed = 1 := by decide +kernel
  have hread : l.unread = 0 := by decide +kernel
  refine ⟨rfl, hreturned, hmissed, fun fuel => ?_⟩
  have hdrained := haccounted.drained_of_kept (hread ▸ Nat.zero_le _) (hread ▸ Nat.zero_le fuel)
  exact ⟨by rw [hdrained.returned, hreturned, hread], hdrained.missed.trans hmissed⟩

end Listener

end StackQuery
