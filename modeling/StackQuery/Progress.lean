/-!
Lazy streams as machines.

A stream is a state together with a step.  One step yields an item, works on
without one, waits for an answer from outside, or finds that there is no more.
Pulling steps until something shows, so nothing is computed that the item asked
for does not need.
-/

namespace StackQuery

/-- What one step of a stream of `α` in states `σ` brings. -/
inductive Progress (ε σ α : Type) where
  | item (result : Except ε α) (next : σ)
  | working (next : σ)
  /-- The answer asked for is not there yet; the state stays. -/
  | waiting
  | ended

def Progress.mapState {ε σ τ α : Type} (f : σ → τ) : Progress ε σ α → Progress ε τ α
  | .item result next => .item result (f next)
  | .working next => .working (f next)
  | .waiting => .waiting
  | .ended => .ended

inductive Pulled (ε σ α : Type) where
  | item (result : Except ε α) (next : σ)
  | waiting (state : σ)
  | ended
  /-- The steps allowed were not enough. -/
  | unfinished (state : σ)

/-- Steps until an item, a wait or the end, at most `fuel` times. -/
def pull {ε σ α : Type} (step : σ → Progress ε σ α) : Nat → σ → Pulled ε σ α
  | 0, state => .unfinished state
  | fuel + 1, state =>
      match step state with
      | .item result next => .item result next
      | .working next => pull step fuel next
      | .waiting => .waiting state
      | .ended => .ended

/-- The first `count` items of a stream, errors among them, as far as they come without a wait. -/
def pullMany {ε σ α : Type} (step : σ → Progress ε σ α) (fuel : Nat) :
    Nat → σ → List (Except ε α)
  | 0, _ => []
  | count + 1, state =>
      match pull step fuel state with
      | .item result next => result :: pullMany step fuel count next
      | _ => []

end StackQuery
