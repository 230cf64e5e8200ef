import StackQuery.Sink

/-!
Sinks with any number of receivers.

A channel numbers what is sent and keeps the newest values, as many as its
capacity, which is a power of two.  A receiver is the number of the value it
gets next.  If that value is no longer kept, the receiver has lagged behind.

Errors go over a channel of their own.  A receiver of output that has lagged
behind starts again after the newest event; a receiver of errors goes on with
the oldest one that is kept.
-/

namespace StackQuery

structure Channel (α : Type) where
  capacity : Nat
  /-- How many values have been sent. -/
  sent : Nat
  /-- The newest values sent, newest first, at most `capacity` many. -/
  kept : List α
  subscribers : Nat
  closed : Bool

/-- What one receiver finds on a channel. -/
inductive Arrival (α : Type) where
  /-- There is nothing yet. -/
  | nothing
  | closed
  | value (a : α)
  /-- Some values were missed; the oldest that is kept has the number `oldest`. -/
  | lagged (missed oldest : Nat)

namespace Channel

variable {α : Type}

def ofCapacity (capacity : Nat) : Channel α := ⟨capacity.nextPowerOfTwo, 0, [], 0, false⟩

/-- The number of the oldest value that is kept. -/
def oldest (c : Channel α) : Nat := c.sent - c.kept.length

/-- A value sent to nobody is dropped. -/
def send (c : Channel α) (a : α) : Channel α :=
  if c.subscribers = 0 then c
  else { c with sent := c.sent + 1, kept := (a :: c.kept).take c.capacity }

/-- A new receiver gets what is sent from now on. -/
def subscribe (c : Channel α) : Channel α × Nat :=
  ({ c with subscribers := c.subscribers + 1 }, c.sent)

def close (c : Channel α) : Channel α := { c with closed := true }

/-- What the receiver finds that gets the value with the number `next`. -/
def look (c : Channel α) (next : Nat) : Arrival α :=
  if c.sent ≤ next then if c.closed then .closed else .nothing
  else if next < c.oldest then .lagged (c.oldest - next) c.oldest
  else match c.kept[c.sent - 1 - next]? with
    | some a => .value a
    | none => .nothing

end Channel

inductive Received (α : Type) where
  | nothing
  | value (a : α)
  | failed (error : SinkError)

/-- The numbers of the event and of the error report that a pair of receivers gets next. -/
structure Receivers where
  nextEvent : Nat
  nextReport : Nat

structure Broadcast where
  output : Channel Event
  errors : Channel ErrorReport

namespace Broadcast

def ofCapacity (capacity : Nat) : Broadcast := ⟨.ofCapacity capacity, .ofCapacity capacity⟩

def isClosed (b : Broadcast) : Bool := b.output.closed

def close (b : Broadcast) : Broadcast := ⟨b.output.close, b.errors.close⟩

def subscribe (b : Broadcast) : Broadcast × Receivers :=
  let (output, nextEvent) := b.output.subscribe
  let (errors, nextReport) := b.errors.subscribe
  (⟨output, errors⟩, ⟨nextEvent, nextReport⟩)

/-- No event is ever refused. -/
def put (b : Broadcast) (event : Event) : Broadcast × Except SinkError Unit :=
  match event with
  | .error report => ({ b with errors := b.errors.send report }, .ok ())
  | event => ({ b with output := b.output.send event }, .ok ())

def sink : Sink Broadcast := ⟨put⟩

def channelClosed : SinkError := .receiveFailed "channel closed"

/-- After lagging behind, a receiver skips the events that are kept as well. -/
def receive (b : Broadcast) (r : Receivers) : Receivers × Received Event :=
  match b.output.look r.nextEvent with
  | .nothing => (r, .nothing)
  | .closed => (r, .failed channelClosed)
  | .value event => ({ r with nextEvent := r.nextEvent + 1 }, .value event)
  | .lagged missed _ => ({ r with nextEvent := b.output.sent }, .failed (.lagged missed))

/-- After lagging behind, a receiver goes on with the oldest report that is kept. -/
def receiveReport (b : Broadcast) (r : Receivers) : Receivers × Received ErrorReport :=
  match b.errors.look r.nextReport with
  | .nothing => (r, .nothing)
  | .closed => (r, .failed channelClosed)
  | .value report => ({ r with nextReport := r.nextReport + 1 }, .value report)
  | .lagged missed oldest =>
      ({ r with nextReport := oldest },
        .failed (.receiveFailed ("channel lagged by " ++ Nat.repr missed)))

end Broadcast

end StackQuery
