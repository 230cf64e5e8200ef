import Mathlib.Data.List.Lex
import StackQuery.Proofs.Streams.Flattening
import StackQuery.Proofs.Streams.Histories
import StackQuery.Proofs.Streams.Runs

/-!
# Where items come from

Steps that are applied to the items of a stream make a forest.  Its roots are
the items of the stream, and under an item stands what a step has made of it.
An item has a place in this forest, and the places are ordered depth first.

Streams that are kept in frames can be told which item they have been made
from, and how many of their own items have been taken.  The frames then do the
same as before, but every item that is taken shows its place.  A frame lies
under an item that the frame below it has brought already, so whatever is taken
next comes after all that has been taken before.
-/

namespace StackQuery

variable {η ε σ α : Type}

/-! ## Places -/

/-- The way to an item from the roots: at each level, how many items come before it. -/
abbrev Place := List Nat

namespace Place

/-- Depth first: an item comes before all that stands under it, and that before the next item. -/
def Before (p q : Place) : Prop := List.Lex (· < ·) p q

theorem Before.trans {p q r : Place} (h : p.Before q) (h' : q.Before r) : p.Before r :=
  List.lex_trans Nat.lt_trans h h'

theorem before_under (p : Place) (i : Nat) : p.Before (p ++ [i]) := by
  have h : List.Lex (· < ·) (p ++ []) (p ++ [i]) := List.Lex.append_left _ .nil p
  rwa [List.append_nil] at h

/-- What stands under an item comes before the items after it. -/
theorem before_later {p q : Place} {i j : Nat} (hunder : p ++ [i] <+: q) (h : i < j) :
    q.Before (p ++ [j]) := by
  obtain ⟨rest, rfl⟩ := hunder
  rw [List.append_assoc]
  exact List.Lex.append_left _ (.rel h) p

end Place

/-! ## Streams that know where they are -/

/-- A stream under an item, or at the roots, and how many items have been taken from it. -/
structure Located (σ : Type) where
  parent : Place
  taken : Nat
  live : σ

namespace Located

def start (live : σ) : Located σ := ⟨[], 0, live⟩

/-- The place of the item that the stream brings next. -/
def next (a : Located σ) : Place := a.parent ++ [a.taken]

/-- The stream after an item. -/
def past (a : Located σ) (live : σ) : Located σ := ⟨a.parent, a.taken + 1, live⟩

def step (stepLive : σ → Progress ε σ α) (a : Located σ) :
    Progress (Place × ε) (Located σ) (Place × α) :=
  match stepLive a.live with
  | .item (.ok x) live => .item (.ok (a.next, x)) (a.past live)
  | .item (.error error) live => .item (.error (a.next, error)) (a.past live)
  | .working live => .working { a with live := live }
  | .waiting => .waiting
  | .ended => .ended

/-- What a step makes of an item stands under it. -/
def run (run : Nat → α → σ) (i : Nat) (x : Place × α) : Located σ := ⟨x.1, 0, run i x.2⟩

end Located

/-- An item and its place. -/
abbrev LocatedItem (ε α : Type) := Except (Place × ε) (Place × α)

namespace LocatedItem

def place : LocatedItem ε α → Place
  | .ok (p, _) => p
  | .error (p, _) => p

def forget : LocatedItem ε α → Except ε α
  | .ok (_, x) => .ok x
  | .error (_, error) => .error error

end LocatedItem

/-! ## What frames do with items -/

/-- What is done with an item in one step of the frames. -/
inductive Move (ε α : Type) where
  /-- It is taken from a stream whose items have passed some steps. -/
  | taken (applied : Nat) (result : Except ε α)
  /-- A step is applied to it. -/
  | applied (i : Nat) (x : α)

namespace Move

def forget : Move (Place × ε) (Place × α) → Move ε α
  | .taken passed result => .taken passed (LocatedItem.forget result)
  | .applied i (_, x) => .applied i x

def place : Move (Place × ε) (Place × α) → Place
  | .taken _ result => LocatedItem.place result
  | .applied _ (p, _) => p

/--
An item is taken no later than another one, from a stream as deep as it has
passed steps, and what a step is applied to comes before that other one.
-/
def UpTo (item : LocatedItem ε α) : Move (Place × ε) (Place × α) → Prop
  | .taken passed result => (LocatedItem.place result).length = passed + 1 ∧
      (LocatedItem.place result = item.place ∨ (LocatedItem.place result).Before item.place)
  | .applied _ (p, _) => p.Before item.place

end Move

namespace Frame

/-! ### Machines -/

/-- Steps to apply to items, which streams are known to be spent, and how streams go on. -/
structure Machine (η ε σ α : Type) where
  length : Nat
  spent : σ → Bool
  run : Nat → α → σ
  stepLive : η → σ → Progress ε σ α

namespace Machine

def step (m : Machine η ε σ α) (moment : η) :
    List (Frame σ) → Progress ε (List (Frame σ)) α :=
  Frame.step m.length m.spent m.run (m.stepLive moment)

/-- What the next step of the frames does with an item, if it comes to one. -/
def moves (m : Machine η ε σ α) (moment : η) : List (Frame σ) → List (Move ε α)
  | [] => []
  | top :: _ =>
      match m.stepLive moment top.live with
      | .item (.ok x) _ =>
          .taken top.applied (.ok x) ::
            if top.applied = m.length then [] else [.applied top.applied x]
      | .item (.error error) _ => [.taken top.applied (.error error)]
      | .working _ | .waiting | .ended => []

/-- What the frames do with items in some moments. -/
def done (m : Machine η ε σ α) (moments : List η) (frames : List (Frame σ)) : List (Move ε α) :=
  history m.step m.moves moments frames

/-- Only the topmost stream matters for a step, and what is made of the item that it brings. -/
theorem step_congr {m m' : Machine η ε σ α} {moment : η} {frames : List (Frame σ)}
    (hlength : m.length = m'.length) (hspent : m.spent = m'.spent)
    (hlive : ∀ top, frames.head? = some top →
      m.stepLive moment top.live = m'.stepLive moment top.live)
    (hrun : ∀ i x, .applied i x ∈ m.moves moment frames → m.run i x = m'.run i x) :
    m.step moment frames = m'.step moment frames := by
  cases frames with
  | nil => rfl
  | cons top below =>
      have hsame := hlive top rfl
      cases hstep : m.stepLive moment top.live with
      | item result next =>
          rw [hstep] at hsame
          cases result with
          | error error => simp only [step, Frame.step, advance, ← hsame, hstep]
          | ok x =>
              by_cases hpassed : top.applied = m.length
              · simp only [step, Frame.step, advance, ← hsame, hstep, ← hlength, if_pos hpassed]
              · have hmade : m.run top.applied x = m'.run top.applied x :=
                  hrun top.applied x (by simp [moves, hstep, hpassed])
                simp only [step, Frame.step, advance, ← hsame, hstep, ← hlength, ← hspent, hmade]
      | working next => simp only [step, Frame.step, advance, ← hsame, hstep]
      | waiting => simp only [step, Frame.step, advance, ← hsame, hstep]
      | ended => simp only [step, Frame.step, advance, ← hsame, hstep]

/-- The machine whose streams know where they are. -/
def located (m : Machine η ε σ α) : Machine η (Place × ε) (Located σ) (Place × α) where
  length := m.length
  spent a := m.spent a.live
  run := Located.run m.run
  stepLive moment := Located.step (m.stepLive moment)

end Machine

def forget (f : Frame (Located σ)) : Frame σ := ⟨f.applied, f.live.live⟩

/-- What a step brings when nothing is known of places. -/
def forgetPlaces :
    Progress (Place × ε) (List (Frame (Located σ))) (Place × α) → Progress ε (List (Frame σ)) α
  | .item result next => .item (LocatedItem.forget result) (next.map forget)
  | .working next => .working (next.map forget)
  | .waiting => .waiting
  | .ended => .ended

namespace Machine

/-! ### The same with places and without -/

section Forget

variable (m : Machine η ε σ α) (moment : η) (frames : List (Frame (Located σ)))

theorem step_forget :
    m.step moment (frames.map forget) = forgetPlaces (m.located.step moment frames) := by
  cases frames with
  | nil => rfl
  | cons top below =>
      cases hstep : m.stepLive moment top.live.live with
      | item result next =>
          cases result with
          | error error =>
              simp [step, located, Frame.step, advance, forget, Located.step, hstep,
                forgetPlaces, LocatedItem.forget, Located.past]
          | ok x =>
              by_cases hpassed : top.applied = m.length
              · simp [step, located, Frame.step, advance, forget, Located.step, hstep,
                  forgetPlaces, LocatedItem.forget, Located.past, hpassed]
              · cases hspent : m.spent next <;>
                  simp [step, located, Frame.step, advance, forget, Located.step, hstep,
                    forgetPlaces, Located.run, Located.past, hpassed, hspent]
      | working next =>
          simp [step, located, Frame.step, advance, forget, Located.step, hstep, forgetPlaces]
      | waiting =>
          simp [step, located, Frame.step, advance, forget, Located.step, hstep, forgetPlaces]
      | ended =>
          simp [step, located, Frame.step, advance, forget, Located.step, hstep, forgetPlaces]

theorem moves_forget :
    m.moves moment (frames.map forget) = (m.located.moves moment frames).map Move.forget := by
  cases frames with
  | nil => rfl
  | cons top below =>
      cases hstep : m.stepLive moment top.live.live with
      | item result next =>
          cases result with
          | error error =>
              simp [moves, located, forget, Located.step, hstep, Move.forget, LocatedItem.forget]
          | ok x =>
              by_cases hpassed : top.applied = m.length <;>
                simp [moves, located, forget, Located.step, hstep, Move.forget,
                  LocatedItem.forget, hpassed]
      | working next => simp [moves, located, forget, Located.step, hstep]
      | waiting => simp [moves, located, forget, Located.step, hstep]
      | ended => simp [moves, located, forget, Located.step, hstep]

theorem done_forget (moments : List η) :
    m.done moments (frames.map forget) = (m.located.done moments frames).map Move.forget := by
  induction moments generalizing frames with
  | nil => rfl
  | cons moment later ih =>
      have hafter : (m.step moment (frames.map forget)).after (frames.map forget) =
          ((m.located.step moment frames).after frames).map forget := by
        rw [step_forget]
        cases m.located.step moment frames <;> rfl
      rw [done, done, history, history, List.map_append, moves_forget, hafter]
      exact congrArg _ (ih _)

variable {m moment frames}

theorem step_forget_eq_item {item : Except ε α} {next : List (Frame σ)}
    (h : m.step moment (frames.map forget) = .item item next) :
    ∃ item' next', m.located.step moment frames = .item item' next' ∧
      LocatedItem.forget item' = item ∧ next'.map forget = next := by
  rw [step_forget] at h
  cases hlocated : m.located.step moment frames with
  | item item' next' =>
      rw [hlocated] at h
      cases h
      exact ⟨item', next', rfl, rfl, rfl⟩
  | working next' => simp [hlocated, forgetPlaces] at h
  | waiting => simp [hlocated, forgetPlaces] at h
  | ended => simp [hlocated, forgetPlaces] at h

theorem step_forget_eq_working {next : List (Frame σ)}
    (h : m.step moment (frames.map forget) = .working next) :
    ∃ next', m.located.step moment frames = .working next' ∧ next'.map forget = next := by
  rw [step_forget] at h
  cases hlocated : m.located.step moment frames with
  | working next' =>
      rw [hlocated] at h
      cases h
      exact ⟨next', rfl, rfl⟩
  | item item' next' => simp [hlocated, forgetPlaces] at h
  | waiting => simp [hlocated, forgetPlaces] at h
  | ended => simp [hlocated, forgetPlaces] at h

/-- Every run is one with places that are forgotten. -/
theorem runs_forget {moments : List η} {items : List (Except ε α)} {last : List (Frame σ)}
    (h : Runs m.step moments (frames.map forget) items last) :
    ∃ items' last', Runs m.located.step moments frames items' last' ∧
      items'.map LocatedItem.forget = items ∧ last'.map forget = last := by
  generalize hstart : frames.map forget = start at h
  induction h generalizing frames with
  | refl state => exact ⟨[], frames, .refl frames, rfl, hstart⟩
  | item hstep _ ih =>
      subst hstart
      obtain ⟨item', next', hlocated, rfl, rfl⟩ := step_forget_eq_item hstep
      obtain ⟨items', last', hruns, rfl, rfl⟩ := ih rfl
      exact ⟨item' :: items', last', .item hlocated hruns, rfl, rfl⟩
  | working hstep _ ih =>
      subst hstart
      obtain ⟨next', hlocated, rfl⟩ := step_forget_eq_working hstep
      obtain ⟨items', last', hruns, rfl, rfl⟩ := ih rfl
      exact ⟨items', last', .working hlocated hruns, rfl, rfl⟩

end Forget

end Machine

/-! ### What lies ahead -/

/-- A frame lies under an item that a frame has brought already. -/
def Under (above below : Frame (Located σ)) : Prop :=
  ∃ i, i < below.live.taken ∧ below.live.parent ++ [i] <+: above.live.parent

/-- Each frame lies under the frames below it, and as deep as its items have passed steps. -/
structure Nests (frames : List (Frame (Located σ))) : Prop where
  under : frames.Pairwise Under
  depth : ∀ f ∈ frames, f.live.parent.length = f.applied

/-- Whatever the frames bring next comes after a place. -/
def Ahead (p : Place) (frames : List (Frame (Located σ))) : Prop :=
  ∀ f ∈ frames, p.Before f.live.next

section Order

variable {applied : Nat} {a : Located σ} {p : Place}
  {below frames frames' : List (Frame (Located σ))}

theorem Nests.sublist (h : Nests frames) (hsub : frames'.Sublist frames) : Nests frames' :=
  ⟨h.under.sublist hsub, fun f hf => h.depth f (hsub.subset hf)⟩

theorem nests_start (live : σ) : Nests [⟨0, .start live⟩] :=
  ⟨List.pairwise_singleton _ _, by simp [Located.start]⟩

/-- The topmost stream has gone on. -/
theorem Nests.top {b : Located σ} (h : Nests (⟨applied, a⟩ :: below)) (hb : b.parent = a.parent) :
    Nests (⟨applied, b⟩ :: below) := by
  obtain ⟨hunder, hbelow⟩ := List.pairwise_cons.mp h.under
  obtain ⟨hdepth, hdepths⟩ := List.forall_mem_cons.mp h.depth
  refine ⟨List.pairwise_cons.mpr ⟨fun f hf => ?_, hbelow⟩, List.forall_mem_cons.mpr ⟨?_, hdepths⟩⟩
  · obtain ⟨i, hi, hbeneath⟩ := hunder f hf
    exact ⟨i, hi, by simpa only [hb] using hbeneath⟩
  · simpa only [hb] using hdepth

theorem Nests.next_length (h : Nests (⟨applied, a⟩ :: below)) : a.next.length = applied + 1 := by
  have hdepth : a.parent.length = applied := h.depth _ List.mem_cons_self
  rw [Located.next, List.length_append, hdepth, List.length_singleton]

/-- A stream is put on top that lies under the item just taken. -/
theorem Nests.push (h : Nests (⟨applied, a⟩ :: below)) (live made : σ) :
    Nests (⟨applied + 1, ⟨a.next, 0, made⟩⟩ :: ⟨applied, a.past live⟩ :: below) := by
  have hpast : Nests (⟨applied, a.past live⟩ :: below) := h.top rfl
  obtain ⟨hunder, _⟩ := List.pairwise_cons.mp h.under
  obtain ⟨hdepth, _⟩ := List.forall_mem_cons.mp h.depth
  refine ⟨List.pairwise_cons.mpr ⟨List.forall_mem_cons.mpr ⟨?_, fun f hf => ?_⟩, hpast.under⟩,
    List.forall_mem_cons.mpr ⟨?_, hpast.depth⟩⟩
  · exact ⟨a.taken, Nat.lt_succ_self _, List.prefix_rfl⟩
  · obtain ⟨i, hi, hbeneath⟩ := hunder f hf
    exact ⟨i, hi, hbeneath.trans (List.prefix_append _ _)⟩
  · simpa [Located.next] using hdepth

/-- Everything else comes after the item that the topmost stream brings next. -/
theorem ahead_past (h : Nests (⟨applied, a⟩ :: below)) (live : σ) :
    Ahead a.next (⟨applied, a.past live⟩ :: below) := by
  obtain ⟨hunder, _⟩ := List.pairwise_cons.mp h.under
  refine List.forall_mem_cons.mpr ⟨?_, fun f hf => ?_⟩
  · exact Place.before_later List.prefix_rfl (Nat.lt_succ_self _)
  · obtain ⟨i, hi, hbeneath⟩ := hunder f hf
    exact Place.before_later (hbeneath.trans (List.prefix_append _ _)) hi

theorem ahead_push (h : Nests (⟨applied, a⟩ :: below)) (live made : σ) :
    Ahead a.next (⟨applied + 1, ⟨a.next, 0, made⟩⟩ :: ⟨applied, a.past live⟩ :: below) :=
  List.forall_mem_cons.mpr ⟨Place.before_under _ 0, ahead_past h live⟩

theorem Ahead.trans {q : Place} (h : p.Before q) (h' : Ahead q frames) : Ahead p frames :=
  fun f hf => h.trans (h' f hf)

theorem Ahead.sublist (h : Ahead p frames) (hsub : frames'.Sublist frames) : Ahead p frames' :=
  fun f hf => h f (hsub.subset hf)

end Order

/-! ### What a step does -/

/-- What becomes of frames in one step, and what the step has done with an item. -/
inductive Stepped (m : Machine η ε σ α) :
    List (Frame (Located σ)) → Progress (Place × ε) (List (Frame (Located σ))) (Place × α) →
      List (Move (Place × ε) (Place × α)) → Prop where
  | none : Stepped m [] .ended []
  | failed {applied : Nat} {a : Located σ} {below : List (Frame (Located σ))} (error : ε)
      (live : σ) :
      Stepped m (⟨applied, a⟩ :: below)
        (.item (.error (a.next, error)) (⟨applied, a.past live⟩ :: below))
        [.taken applied (.error (a.next, error))]
  | passed {applied : Nat} {a : Located σ} {below : List (Frame (Located σ))} (x : α) (live : σ) :
      Stepped m (⟨applied, a⟩ :: below)
        (.item (.ok (a.next, x)) (⟨applied, a.past live⟩ :: below))
        [.taken applied (.ok (a.next, x))]
  | opened {applied : Nat} {a : Located σ} {below : List (Frame (Located σ))} (x : α)
      (live made : σ) :
      Stepped m (⟨applied, a⟩ :: below)
        (.working (⟨applied + 1, ⟨a.next, 0, made⟩⟩ ::
          keep m.located.spent applied (a.past live) below))
        [.taken applied (.ok (a.next, x)), .applied applied (a.next, x)]
  | working {applied : Nat} {a : Located σ} {below : List (Frame (Located σ))} (live : σ) :
      Stepped m (⟨applied, a⟩ :: below)
        (.working (⟨applied, { a with live := live }⟩ :: below)) []
  | waiting (frames : List (Frame (Located σ))) : Stepped m frames .waiting []
  | ended (top : Frame (Located σ)) (below : List (Frame (Located σ))) :
      Stepped m (top :: below) (.working below) []

theorem stepped (m : Machine η ε σ α) (moment : η) (frames : List (Frame (Located σ))) :
    Stepped m frames (m.located.step moment frames) (m.located.moves moment frames) := by
  cases frames with
  | nil => exact .none
  | cons top below =>
      obtain ⟨applied, a⟩ := top
      cases hstep : m.stepLive moment a.live with
      | item result live =>
          cases result with
          | error error =>
              have hlocated : m.located.stepLive moment a =
                  .item (.error (a.next, error)) (a.past live) := by
                simp only [Machine.located, Located.step, hstep]
              simp only [Machine.step, step_error hlocated, Machine.moves, hlocated]
              exact .failed error live
          | ok x =>
              have hlocated : m.located.stepLive moment a =
                  .item (.ok (a.next, x)) (a.past live) := by
                simp only [Machine.located, Located.step, hstep]
              by_cases hpassed : applied = m.located.length
              · simp only [Machine.step, step_passed hlocated hpassed, Machine.moves, hlocated,
                  if_pos hpassed]
                exact .passed x live
              · simp only [Machine.step, step_opens hlocated hpassed, Machine.moves, hlocated,
                  if_neg hpassed]
                exact .opened x live (m.run applied x)
      | working live =>
          have hlocated : m.located.stepLive moment a = .working { a with live := live } := by
            simp only [Machine.located, Located.step, hstep]
          simp only [Machine.step, step_working hlocated, Machine.moves, hlocated]
          exact .working live
      | waiting =>
          have hlocated : m.located.stepLive moment a = .waiting := by
            simp only [Machine.located, Located.step, hstep]
          simp only [Machine.step, step_waiting hlocated, Machine.moves, hlocated]
          exact .waiting _
      | ended =>
          have hlocated : m.located.stepLive moment a = .ended := by
            simp only [Machine.located, Located.step, hstep]
          simp only [Machine.step, step_ended hlocated, Machine.moves, hlocated]
          exact .ended _ below

namespace Stepped

variable {m : Machine η ε σ α} {frames next : List (Frame (Located σ))} {item : LocatedItem ε α}
  {progress : Progress (Place × ε) (List (Frame (Located σ))) (Place × α)}
  {done : List (Move (Place × ε) (Place × α))}

/-- An item is as deep in the forest as it has passed steps. -/
theorem depth (h : Stepped m frames progress done) (hnests : Nests frames) {passed : Nat}
    {result : LocatedItem ε α} (hmem : .taken passed result ∈ done) :
    result.place.length = passed + 1 := by
  cases h with
  | none | waiting | working | ended => simp at hmem
  | failed | passed | opened =>
      obtain ⟨rfl, rfl⟩ : passed = _ ∧ result = _ := by simpa using hmem
      exact hnests.next_length

/-- What is done before another item comes out is done with an item before that one. -/
theorem upTo_of_before (h : Stepped m frames progress done) (hnests : Nests frames)
    {move : Move (Place × ε) (Place × α)} (hmove : move ∈ done)
    (hbefore : move.place.Before item.place) : move.UpTo item := by
  cases move with
  | taken passed result => exact ⟨h.depth hnests hmove, .inr hbefore⟩
  | applied i x => exact hbefore

/-- After a step, whatever comes next comes after what the step has done. -/
theorem leaves (h : Stepped m frames progress done) (hnests : Nests frames) :
    progress.Leaves fun next => Nests next ∧ (∀ p, Ahead p frames → Ahead p next) ∧
      ∀ move ∈ done, Ahead move.place next := by
  cases h with
  | none => exact True.intro
  | waiting => exact True.intro
  | failed _ live | passed _ live =>
      have hahead := ahead_past hnests live
      exact ⟨hnests.top rfl, fun p hp => .trans (hp _ List.mem_cons_self) hahead,
        List.forall_mem_singleton.mpr hahead⟩
  | @opened applied a below x live made =>
      have hsub := (keep_sublist m.located.spent applied (a.past live) below).cons_cons
        ⟨applied + 1, ⟨a.next, 0, made⟩⟩
      have hahead := (ahead_push hnests live made).sublist hsub
      exact ⟨(hnests.push live made).sublist hsub,
        fun p hp => .trans (hp _ List.mem_cons_self) hahead,
        List.forall_mem_cons.mpr ⟨hahead, List.forall_mem_singleton.mpr hahead⟩⟩
  | working live =>
      exact ⟨hnests.top rfl,
        fun p hp => List.forall_mem_cons.mpr (List.forall_mem_cons.mp hp), by simp⟩
  | ended top below =>
      have hsub := List.sublist_cons_self top below
      exact ⟨hnests.sublist hsub, fun p hp => hp.sublist hsub, by simp⟩

/-- The item that a step brings is the one that it has taken, and nothing is applied to it. -/
theorem of_item (h : Stepped m frames (.item item next) done) :
    (∀ p, Ahead p frames → p.Before item.place) ∧
      ∀ move ∈ done, ∃ passed, move = .taken passed item := by
  cases h with
  | failed | passed =>
      exact ⟨fun p hp => hp _ List.mem_cons_self, List.forall_mem_singleton.mpr ⟨_, rfl⟩⟩

end Stepped

/-! ### Depth first -/

section Order

variable {m : Machine η ε σ α} {moments : List η} {moment : η}
  {frames last next : List (Frame (Located σ))} {items : List (LocatedItem ε α)}
  {item : LocatedItem ε α}

/-- Until an item comes out, nothing is done with any item that comes after it. -/
theorem upTo_of_runs (h : Runs m.located.step moments frames items last)
    (hitem : m.located.step moment last = .item item next) (hnests : Nests frames) :
    (∀ p, Ahead p frames → p.Before item.place) ∧
      ∀ move ∈ m.located.done (moments ++ [moment]) frames, move.UpTo item := by
  -- What is ahead of a place stays ahead of it in every step, and the item is the last of that.
  induction h with
  | refl frames =>
      have hstepped := stepped m moment frames
      rw [hitem] at hstepped
      obtain ⟨hahead, hdone⟩ := hstepped.of_item
      refine ⟨hahead, fun move hmove => ?_⟩
      have hnow : move ∈ m.located.moves moment frames := by
        simpa [Machine.done, history] using hmove
      obtain ⟨passed, rfl⟩ := hdone move hnow
      exact ⟨hstepped.depth hnests hnow, .inl rfl⟩
  | @item now _ frames _ _ _ _ hstep _ ih | @working now _ frames _ _ _ hstep _ ih =>
      have hstepped := stepped m now frames
      have hleaves := hstepped.leaves hnests
      rw [hstep] at hleaves
      obtain ⟨hnests', hahead, hdone⟩ := hleaves
      obtain ⟨hbefore, hlater⟩ := ih hitem hnests'
      refine ⟨fun p hp => hbefore p (hahead p hp), fun move hmove => ?_⟩
      rw [Machine.done, List.cons_append, history, hstep, Progress.after] at hmove
      rcases List.mem_append.mp hmove with hnow | hmove
      · exact hstepped.upTo_of_before hnests hnow (hbefore _ (hdone move hnow))
      · exact hlater move hmove

end Order

end Frame

end StackQuery
