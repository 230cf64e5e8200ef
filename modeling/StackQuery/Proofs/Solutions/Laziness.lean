import StackQuery.Proofs.Solutions.Sequence
import StackQuery.Proofs.Streams.Places

/-!
# Sequences are lazy flat maps

Applying steps to a stream with frames brings what flat maps within one another
bring, and up to an item it takes nothing, and applies nothing, that comes after
that item in the order of a depth-first walk.  The sequences of operators are
such frames.
-/

namespace StackQuery

/-! ## The order of places -/

namespace Place

/-- An item at the roots comes no later than another item if it is no further along. -/
theorem le_of_root {j : Nat} {p q : Place} (hroot : p = [j]) (h : p = q ∨ p.Before q) :
    ∃ i rest, q = i :: rest ∧ j ≤ i := by
  subst hroot
  rcases h with rfl | h
  · exact ⟨j, [], rfl, Nat.le_refl j⟩
  · cases h with
    | cons h => exact ⟨j, _, rfl, Nat.le_refl j⟩
    | rel h => exact ⟨_, _, rfl, Nat.le_of_lt h⟩

end Place

/-! ## Operators applied one after another -/

namespace Solutions

/-- Applying operators one after another is a flat map for each of them. -/
theorem along_alike_nested (l : Library) (plan : Plan) (live : Solutions) :
    StackQuery.Alike (calmStep l)
      (fun ask => Nested.step (plan.run l) (calmStep l ask) plan.route.length)
      (along plan live) (Nested.start live plan.route.length) := by
  have hsequence := (sequence_alike_frames (l := l) plan [⟨0, live⟩]).trans
    (Frame.alike_nested (fun _ => endsWithin_of_isSpent l) plan.route.length live)
  unfold along
  split
  next hlength =>
    have hwhole := sequence_alike_of_passed (l := l) plan live
    rw [hlength] at hwhole
    exact hwhole.symm.trans hsequence
  next => exact hsequence

end Solutions

/-! ## Laziness -/

/--
Frames bring what flat maps within one another bring, one for each step, with
the errors in their places, whether the streams end or not.  When an item comes
out, no item has been taken from the stream at the roots beyond the one that it
has been made from, and every step has been applied to an item before it.  The
sequences of operators are such frames.
-/
theorem sequence_flattens_lazily {η ε σ α : Type} (m : Frame.Machine η ε σ α)
    (hspent : ∀ live, m.spent live = true → ∃ steps, EndsWithin m.stepLive steps live)
    (live : σ) :
    Alike m.step (fun moment => Nested.step m.run (m.stepLive moment) m.length)
      [⟨0, live⟩] (Nested.start live m.length) ∧
    (∀ moments items frames moment item next,
      Runs m.step moments [⟨0, live⟩] items frames → m.step moment frames = .item item next →
      ∃ (items' : List (LocatedItem ε α)) (item' : LocatedItem ε α)
        (frames' next' : List (Frame (Located σ))),
        Runs m.located.step moments [⟨0, .start live⟩] items' frames' ∧
        m.located.step moment frames' = .item item' next' ∧
        items'.map LocatedItem.forget = items ∧ item'.forget = item ∧
        (m.located.done (moments ++ [moment]) [⟨0, .start live⟩]).map Move.forget =
          m.done (moments ++ [moment]) [⟨0, live⟩] ∧
        ∀ move ∈ m.located.done (moments ++ [moment]) [⟨0, .start live⟩],
          (∀ result : LocatedItem ε α, move = .taken 0 result →
            ∃ j i rest, result.place = [j] ∧ item'.place = i :: rest ∧ j ≤ i) ∧
          ∀ i p x, move = .applied i (p, x) → p.Before item'.place) ∧
    (∀ (m' : Frame.Machine η ε σ α) (moment : η) (frames : List (Frame σ)),
      m.length = m'.length → m.spent = m'.spent →
      (∀ top, frames.head? = some top →
        m.stepLive moment top.live = m'.stepLive moment top.live) →
      (∀ i x, .applied i x ∈ m.moves moment frames → m.run i x = m'.run i x) →
      m.step moment frames = m'.step moment frames) ∧
    (∀ (s : Surroundings) (plan : Plan) (frames : List (Frame Solutions)),
      Solutions.step s (.sequence plan frames) =
        (Frame.step plan.route.length Solutions.isSpent (plan.run s.library) (Solutions.step s)
          frames).mapState (.sequence plan)) ∧
    ∀ (l : Library) (plan : Plan) (live : Solutions),
      Alike (Solutions.calmStep l)
        (fun ask => Nested.step (plan.run l) (Solutions.calmStep l ask) plan.route.length)
        (Solutions.along plan live) (Nested.start live plan.route.length) := by
  refine ⟨Frame.alike_nested hspent m.length live, ?_, fun _ _ _ => Frame.Machine.step_congr,
    Solutions.step_sequence, Solutions.along_alike_nested⟩
  intro moments items frames moment item next hruns hitem
  let start : List (Frame (Located σ)) := [⟨0, .start live⟩]
  obtain ⟨items', frames', hruns', hitems, rfl⟩ :
      ∃ items' frames', Runs m.located.step moments start items' frames' ∧
        items'.map LocatedItem.forget = items ∧ frames'.map Frame.forget = frames :=
    Frame.Machine.runs_forget hruns
  obtain ⟨item', next', hitem', hforget, _⟩ := Frame.Machine.step_forget_eq_item hitem
  refine ⟨items', item', frames', next', hruns', hitem', hitems, hforget,
    (m.done_forget start _).symm, fun move hmove => ?_⟩
  have hupTo := (Frame.upTo_of_runs hruns' hitem' (Frame.nests_start live)).2 move hmove
  constructor
  · rintro result rfl
    obtain ⟨hlength, hplace⟩ := hupTo
    obtain ⟨j, hroot⟩ := List.length_eq_one_iff.mp hlength
    obtain ⟨i, rest, hrest, hle⟩ := Place.le_of_root hroot hplace
    exact ⟨j, i, rest, hroot, hrest, hle⟩
  · rintro i p x rfl
    exact hupTo

/-- Two forks above a stream without end of which every second item is an error. -/
theorem forked_stream_flattens_lazily :
    let run : Nat → Stack → Solutions := fun _ stack =>
      .items [.ok (.boolean false :: stack), .error (.undefined "fork"),
        .ok (.boolean true :: stack)]
    let count : Solutions :=
      .unending (fun n => if n % 2 = 0 then .ok [] else .error (.undefined "count")) 0
    let m : Frame.Machine Connection EvalError Solutions Stack :=
      ⟨2, Solutions.isSpent, run, Solutions.calmStep .empty⟩
    let silent : Connection := fun _ _ => .waiting
    (∀ live, m.spent live = true → ∃ steps, EndsWithin m.stepLive steps live) ∧
      Alike m.step (fun ask => Nested.step m.run (m.stepLive ask) m.length) [⟨0, count⟩]
        (Nested.start count m.length) ∧
      ∃ frames next, Runs m.step [silent, silent, silent] [⟨0, count⟩]
          [.ok [.boolean false, .boolean false]] frames ∧
        m.step silent frames = .item (.error (.undefined "fork")) next ∧
        ∃ item' : LocatedItem EvalError Stack, item'.forget = .error (.undefined "fork") ∧
          ∀ move ∈ m.located.done [silent, silent, silent, silent] [⟨0, .start count⟩],
            ∀ i p x, move = .applied i (p, x) → p.Before item'.place := by
  intro run count m silent
  have hspent (live : Solutions) (h : m.spent live = true) :
      ∃ steps, EndsWithin m.stepLive steps live := Solutions.endsWithin_of_isSpent .empty h
  obtain ⟨frames, next, hruns, hitem⟩ : ∃ frames next,
      Runs m.step [silent, silent, silent] [⟨0, count⟩]
        [.ok [.boolean false, .boolean false]] frames ∧
      m.step silent frames = .item (.error (.undefined "fork")) next :=
    ⟨_, _, .working rfl (.working rfl (.item rfl (.refl _))), rfl⟩
  obtain ⟨halike, hlazy, _⟩ := sequence_flattens_lazily m hspent count
  obtain ⟨_, item', _, _, _, _, _, hforget, _, hmoves⟩ :=
    hlazy [silent, silent, silent] _ frames silent _ next hruns hitem
  exact ⟨hspent, halike, frames, next, hruns, hitem, item', hforget,
    fun move hmove => (hmoves move hmove).2⟩

end StackQuery
