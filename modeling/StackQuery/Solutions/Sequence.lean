import StackQuery.Progress

/-!
Steps applied one after another, depth first.

The streams that wait to be continued are kept as frames, each with the number
of steps that its items have passed.  The topmost frame is stepped; an item
that has passed every step comes out, and any other one opens a frame of its
own on top.  However long the sequence of steps, one step of the machine only
touches the topmost frame.
-/

namespace StackQuery

/-- A stream whose items have passed a number of steps. -/
structure Frame (σ : Type) where
  applied : Nat
  live : σ

namespace Frame

/--
What becomes of the frames once the topmost one, with `applied` steps done and
the frames `below` it, has been stepped.  `run` applies one step to an item,
and a stream that is `spent` is not kept.
-/
def advance {ε σ α : Type} (length : Nat) (spent : σ → Bool) (run : Nat → α → σ)
    (applied : Nat) (below : List (Frame σ)) :
    Progress ε σ α → Progress ε (List (Frame σ)) α
  | .item (.error error) next => .item (.error error) (⟨applied, next⟩ :: below)
  | .item (.ok a) next =>
      if applied = length then .item (.ok a) (⟨applied, next⟩ :: below)
      else
        let kept := if spent next then below else ⟨applied, next⟩ :: below
        .working (⟨applied + 1, run applied a⟩ :: kept)
  | .working next => .working (⟨applied, next⟩ :: below)
  | .waiting => .waiting
  | .ended => .working below

/-- One step of the machine, given the step of the streams in its frames. -/
def step {ε σ α : Type} (length : Nat) (spent : σ → Bool) (run : Nat → α → σ)
    (stepLive : σ → Progress ε σ α) : List (Frame σ) → Progress ε (List (Frame σ)) α
  | [] => .ended
  | top :: below => advance length spent run top.applied below (stepLive top.live)

end Frame

end StackQuery
