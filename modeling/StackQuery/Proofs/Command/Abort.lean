import StackQuery.Proofs.Command.Delivery
import StackQuery.Proofs.Evaluation.Abort

/-!
# What a query does once it is aborted

Whether to stop is looked at when the stream brings something.  A solution that
has been handed to the sink before is not taken back: the sink answers for it,
and if it refuses, the query fails with that.  After that no solution is handed
over.  The query stays at its stream as long as that works or waits, and returns
as soon as the stream brings something or ends.

Setting the signal opens the gate once.  A stream that comes to the gate again
before it brings anything waits there, and so does the query.
-/

namespace StackQuery

namespace Solutions

/-- In these moments, one after another, a stream brings nothing and does not end. -/
inductive Idles : List Surroundings → Solutions → Solutions → Prop where
  | nil (live : Solutions) : Idles [] live live
  | works {moments : List Surroundings} {moment : Surroundings} {live next last : Solutions}
      (h : Idles moments live next) (hstep : next.step moment = .working last) :
      Idles (moments ++ [moment]) live last
  | waits {moments : List Surroundings} {moment : Surroundings} {live last : Solutions}
      (h : Idles moments live last) (hstep : last.step moment = .waiting) :
      Idles (moments ++ [moment]) live last

end Solutions

/-! ## Courses -/

def Course.world {ρ ω : Type} : Course ρ ω → ω
  | .underway _ world => world
  | .finished _ world => world

namespace Behaviour

variable {κ ρ ω : Type} {b : Behaviour κ ρ ω} {id : CommandId} {command : κ} {run : ρ}
  {world : ω} {course : Course ρ ω}

/-- The worlds in which the steps are taken. -/
def worlds (b : Behaviour κ ρ ω) (id : CommandId) (command : κ) :
    List (ω → ω) → Course ρ ω → List ω
  | [], _ => []
  | change :: changes, course =>
      course.world :: b.worlds id command changes (b.goOn id command change course)

theorem follow_of_waiting (h : b.step id command run world = .waiting) (count : Nat) :
    b.follow id command (List.replicate count fun world => world) (.underway run world) =
      .underway run world := by
  induction count with
  | zero => rfl
  | succ count ih =>
      rw [List.replicate_succ, follow_cons]
      simp only [goOn, h]
      exact ih

/-- A run that comes to wait for good never returns. -/
theorem underway_of_waiting {steps : Nat}
    (hcourse : b.follow id command (List.replicate steps fun world => world) course =
      .underway run world)
    (hwaits : b.step id command run world = .waiting) (count : Nat) :
    ∃ run world, b.follow id command (List.replicate count fun world => world) course =
      .underway run world := by
  cases hreached : b.follow id command (List.replicate count fun world => world) course with
  | underway run world => exact ⟨run, world, rfl⟩
  | finished result world' =>
      -- What has returned stays so, but as many steps later the run still waits.
      have hlater : b.follow id command (List.replicate (count + steps) fun world => world)
          course = .finished result world' := by
        rw [← List.replicate_append_replicate, follow_append, hreached, follow_finished]
      rw [Nat.add_comm, ← List.replicate_append_replicate, follow_append, hcourse,
        follow_of_waiting hwaits] at hlater
      cases hlater

end Behaviour

/-! ## Where a query stands -/

namespace Run

/-- The stream that a query is at, and the library it uses. -/
def stream? : Run → Option (Library × Solutions)
  | .pulling library live _ _ => some (library, live)
  | .delivering library live _ _ _ => some (library, live)
  | _ => none

/-- The solution that has been handed to the sink, as long as that has not answered. -/
def pending? (id : CommandId) : Run → Option Event
  | .delivering _ _ index _ stack => some (.solution (some id) index stack)
  | _ => none

/-- The number of steps until the sink has answered. -/
def stepsDue : Run → Nat
  | .delivering _ _ _ _ _ => 1
  | _ => 0

/-- The sink once it has answered for what was handed to it, if anything was. -/
def answered {σ : Type} (services : Services σ) (id : CommandId) (run : Run) (state : σ) : σ :=
  match run.pending? id with
  | some event => (services.sink.put state event).1
  | none => state

end Run

section Aborted

variable {σ : Type} {services : Services σ} {id : CommandId} {tokens : List Token}
  {library : Library} {live : Solutions} {index : Nat} {left : Option Nat} {run : Run}
  {w : World σ} {worlds : List (World σ)} {change : World σ → World σ} {changes : List (World σ → World σ)}
  {course : Course Run (World σ)}

/-! ## One step -/

/-- Where a step of an aborted query at its stream can lead to. -/
inductive Slackens (services : Services σ) (library : Library) (live : Solutions) (index : Nat)
    (left : Option Nat) (w : World σ) (change : World σ → World σ) :
    Course Run (World σ) → Prop where
  | works {next : Solutions} {v : World σ} (hsink : v.sink = w.sink)
      (hstep : live.step (w.surroundings services library true) = .working next) :
      Slackens services library live index left w change
        (.underway (.pulling library next index left) (change v))
  | waits {v : World σ} (hsink : v.sink = w.sink)
      (hstep : live.step (w.surroundings services library true) = .waiting) :
      Slackens services library live index left w change
        (.underway (.pulling library live index left) (change v))
  | ended {v : World σ} (hsink : v.sink = w.sink) :
      Slackens services library live index left w change (.finished (.ok ()) v)
  | aborted {v : World σ} (hsink : v.sink = w.sink) :
      Slackens services library live index left w change
        (.finished (.error (.eval .aborted)) v)

theorem slackens_pulling (services : Services σ) (id : CommandId) (tokens : List Token)
    (library : Library) (live : Solutions) (index : Nat) (left : Option Nat) (w : World σ)
    (change : World σ → World σ) :
    Slackens services library live index left w change
      ((Command.behaviour services).goOn id (.query tokens true) change
        (.underway (.pulling library live index left) w)) := by
  have hpull : (Command.behaviour services).step id (.query tokens true)
      (.pulling library live index left) w =
        w.pullQuery services true library live index left := rfl
  by_cases hleft : left = some 0
  · simp only [Behaviour.goOn, hpull, World.pullQuery, if_pos hleft]
    exact .ended rfl
  cases hstep : live.step (w.surroundings services library true) with
  | item item next =>
      simp only [Behaviour.goOn, hpull, World.pullQuery, if_neg hleft, hstep, World.deliver,
        if_true]
      exact .aborted rfl
  | working next =>
      simp only [Behaviour.goOn, hpull, World.pullQuery, if_neg hleft, hstep]
      exact .works rfl hstep
  | waiting =>
      simp only [World.pullQuery, if_neg hleft, hstep] at hpull
      obtain ⟨v, hsink, hgoes⟩ := Inquiry.goOn_waitAtGate hpull change
      rw [hgoes]
      exact .waits hsink hstep
  | ended =>
      simp only [Behaviour.goOn, hpull, World.pullQuery, if_neg hleft, hstep]
      exact .ended rfl

/-! ## The whole course -/

/--
How a query that was aborted in some run and world can stand after steps in
some worlds: its stream has brought nothing in any of them, or it has returned.
It fails with what the sink says only if the sink had not answered yet when the
query was aborted, and refuses.
-/
inductive Subsides (services : Services σ) (id : CommandId) (run : Run) (w : World σ)
    (worlds : List (World σ)) : Course Run (World σ) → Prop where
  | idles {library : Library} {live next : Solutions} {index : Nat} {left : Option Nat}
      {v : World σ} (hstream : run.stream? = some (library, live))
      (hidles : Solutions.Idles (worlds.map (·.surroundings services library true)) live next) :
      Subsides services id run w worlds (.underway (.pulling library next index left) v)
  | ended (v : World σ) : Subsides services id run w worlds (.finished (.ok ()) v)
  | aborted (v : World σ) :
      Subsides services id run w worlds (.finished (.error (.eval .aborted)) v)
  | refused {event : Event} {error : SinkError} (hpending : run.pending? id = some event)
      (hrefuses : (services.sink.put w.sink event).2 = .error error) (v : World σ) :
      Subsides services id run w worlds (.finished (.error (.sink error)) v)

theorem Subsides.goOn (h : Subsides services id run w worlds course) (tokens : List Token)
    (change : World σ → World σ) :
    Subsides services id run w (worlds ++ [course.world])
        ((Command.behaviour services).goOn id (.query tokens true) change course) ∧
      (Inquiry.SparesSink change →
        ((Command.behaviour services).goOn id (.query tokens true) change course).world.sink =
          course.world.sink) := by
  cases h with
  | ended v => exact ⟨.ended v, fun _ => rfl⟩
  | aborted v => exact ⟨.aborted v, fun _ => rfl⟩
  | refused hpending hrefuses v => exact ⟨.refused hpending hrefuses v, fun _ => rfl⟩
  | @idles library live next index left v hstream hidles =>
      have hstays {last : Solutions}
          (hlast : Solutions.Idles (worlds.map (·.surroundings services library true) ++
            [v.surroundings services library true]) live last) (v' : World σ) :
          Subsides services id run w (worlds ++ [v])
            (.underway (.pulling library last index left) v') :=
        .idles hstream (by rwa [List.map_append])
      have hgoes := slackens_pulling services id tokens library next index left v change
      generalize Behaviour.goOn _ _ _ _ _ = reached at hgoes ⊢
      cases hgoes with
      | works hsink hstep =>
          exact ⟨hstays (hidles.works hstep) _, fun hchange => (hchange _).trans hsink⟩
      | waits hsink hstep =>
          exact ⟨hstays (hidles.waits hstep) _, fun hchange => (hchange _).trans hsink⟩
      | ended hsink => exact ⟨.ended _, fun _ => hsink⟩
      | aborted hsink => exact ⟨.aborted _, fun _ => hsink⟩

theorem Subsides.follow (h : Subsides services id run w worlds course) (tokens : List Token)
    (changes : List (World σ → World σ)) :
    Subsides services id run w
        (worlds ++ (Command.behaviour services).worlds id (.query tokens true) changes course)
        ((Command.behaviour services).follow id (.query tokens true) changes course) ∧
      ((∀ change ∈ changes, Inquiry.SparesSink change) →
        ((Command.behaviour services).follow id (.query tokens true) changes course).world.sink =
          course.world.sink) := by
  induction changes generalizing worlds course with
  | nil => exact ⟨by rwa [Behaviour.worlds, List.append_nil], fun _ => rfl⟩
  | cons change later ih =>
      obtain ⟨hfirst, hkeeps⟩ := h.goOn tokens change
      obtain ⟨hrest, hlater⟩ := ih hfirst
      rw [Behaviour.follow_cons, Behaviour.worlds, List.append_cons]
      refine ⟨hrest, fun hchanges => ?_⟩
      obtain ⟨hchange, hchanges⟩ := List.forall_mem_cons.mp hchanges
      exact (hlater hchanges).trans (hkeeps hchange)

/-- In the first step the sink answers, if it still has to. -/
theorem subsides_goOn (services : Services σ) (id : CommandId) (tokens : List Token) (run : Run)
    (w : World σ) (change : World σ → World σ) :
    Subsides services id run w ([w].drop run.stepsDue)
        ((Command.behaviour services).goOn id (.query tokens true) change (.underway run w)) ∧
      (Inquiry.SparesSink change →
        ((Command.behaviour services).goOn id (.query tokens true) change
          (.underway run w)).world.sink = run.answered services id w.sink) := by
  cases run with
  | pulling library live index left =>
      have hstart : Subsides services id (.pulling library live index left) w []
          (.underway (.pulling library live index left) w) := .idles rfl (.nil live)
      exact hstart.goOn tokens change
  | delivering library live index left stack =>
      rcases hput : services.sink.put w.sink (.solution (some id) index stack) with
        ⟨reached, error | _⟩
      · have hrefuses : (Command.behaviour services).goOn id (.query tokens true) change
            (.underway (.delivering library live index left stack) w) =
              .finished (.error (.sink error)) { w with sink := reached } := by
          simp only [Behaviour.goOn, Command.behaviour, Command.step, World.putSolution,
            putThen_of_error hput]
        rw [hrefuses]
        exact ⟨.refused rfl (congrArg Prod.snd hput) _, fun _ => (congrArg Prod.fst hput).symm⟩
      · have htakes : (Command.behaviour services).goOn id (.query tokens true) change
            (.underway (.delivering library live index left stack) w) =
              .underway (.pulling library live (index + 1) (left.map (· - 1)))
                (change { w with sink := reached }) := by
          simp only [Behaviour.goOn, Command.behaviour, Command.step, World.putSolution,
            putThen_of_ok hput]
        rw [htakes]
        exact ⟨.idles rfl (.nil live),
          fun hchange => (hchange _).trans (congrArg Prod.fst hput).symm⟩
  | ready | announcing | saying | holding | closing => exact ⟨.aborted w, fun _ => rfl⟩

/--
Whatever has come before, a query brings nothing but the abort error from the
moment its signal is set.  A query command that is aborted in any run hands no
solution to the sink any more.  At most the sink still answers for the one that
it has been handed before; apart from that the query returns success or the
abort error, as soon as its stream brings something or ends.
-/
theorem nothing_after_abort :
    (∀ (s : Surroundings) (tokens : List Token) (stack : Stack) (live : Solutions),
      evaluate s tokens stack = .ok live →
      ∀ (before : List Surroundings) (moment : Surroundings), moment.aborted = true →
      ∀ (item : Item) (next : Solutions),
        (before.foldl Solutions.onward live).step moment = .item item next →
        item = .error .aborted) ∧
    ∀ (σ : Type) (services : Services σ) (id : CommandId) (tokens : List Token) (aborted : Bool)
      (before w : World σ) (run : Run) (changes : List (World σ → World σ))
      (course : Course Run (World σ)), changes ≠ [] →
      (Command.behaviour services).follow id (Command.abort (.query tokens aborted) before).1
        changes (.underway run w) = course →
      Subsides services id run w
          (((Command.behaviour services).worlds id
            (Command.abort (.query tokens aborted) before).1 changes (.underway run w)).drop
              run.stepsDue) course ∧
        ((∀ change ∈ changes, Inquiry.SparesSink change) →
          course.world.sink = run.answered services id w.sink) := by
  constructor
  · intro s tokens stack live hlive before moment haborted item next hstep
    exact aborted_of_brings hlive before haborted hstep
  · rintro σ services id tokens aborted before w run changes course hsome rfl
    obtain ⟨change, later, rfl⟩ := List.exists_cons_of_ne_nil hsome
    obtain ⟨hfirst, hanswered⟩ := subsides_goOn services id tokens run w change
    obtain ⟨hrest, hkeeps⟩ := hfirst.follow tokens later
    have hdue : run.stepsDue ≤ [w].length := by cases run <;> simp [Run.stepsDue]
    rw [← List.drop_append_of_le_length hdue] at hrest
    refine ⟨hrest, fun hchanges => ?_⟩
    obtain ⟨hchange, hchanges⟩ := List.forall_mem_cons.mp hchanges
    exact (hkeeps hchanges).trans (hanswered hchange)

end Aborted

/-- Steps that ask the store for the objects of what is topmost under a predicate. -/
def lookingUp (predicate : String) : List Operator :=
  .constant (.resource predicate) :: Standard.graphWords.map .primitive

/--
One query has applied the first of two steps when the signal is set.  Another
one is aborted while the sink has not answered for the first of two solutions.
-/
theorem nothing_after_abort_between_steps :
    (∃ live item next, evaluate (.calm .empty fun _ _ => .waiting)
        [.push (.integer 1), .push (.integer 2)] [] = .ok live ∧
      ([Surroundings.calm .empty fun _ _ => .waiting].foldl Solutions.onward live).step
        ⟨.empty, fun _ _ => .waiting, true⟩ = .item item next ∧ item = .error .aborted) ∧
    let services : Services EventLog :=
      ⟨EventLog.sink, fun _ _ => .found [.integer 1, .integer 2], none⟩
    let library : Library := Library.empty.bind ⟨.composed (lookingUp "urn:p") none, 0⟩
      "urn:ripple:user#p" .reject "urn:ripple:user#p"
    let query : Command := .query [.push (.resource "urn:s"), .call "p"] false
    let start : World EventLog := ⟨⟨library, {}⟩, .empty none, .closed⟩
    ∃ live w course,
      (Command.behaviour services).follow 0 query (List.replicate 7 id) (.underway .ready start) =
        .underway (.delivering library live 0 none [.integer 1]) w ∧
      (Command.behaviour services).follow 0 (query.abort w).1 [id, id]
        (.underway (.delivering library live 0 none [.integer 1]) (query.abort w).2) = course ∧
      Subsides services 0 (.delivering library live 0 none [.integer 1]) (query.abort w).2
        (((Command.behaviour services).worlds 0 (query.abort w).1 [id, id]
          (.underway (.delivering library live 0 none [.integer 1]) (query.abort w).2)).drop 1)
        course ∧
      course.world.sink = ⟨#[.solution (some 0) 0 [.integer 1]], none⟩ ∧
      ∃ left, course = .finished (.error (.eval .aborted)) left := by
  constructor
  · obtain ⟨live, item, next, hlive, hstep⟩ : ∃ live item next,
        evaluate (.calm .empty fun _ _ => .waiting) [.push (.integer 1), .push (.integer 2)] [] =
          .ok live ∧
        ([Surroundings.calm .empty fun _ _ => .waiting].foldl Solutions.onward live).step
          ⟨.empty, fun _ _ => .waiting, true⟩ = .item item next := ⟨_, _, _, rfl, rfl⟩
    exact ⟨live, item, next, hlive, hstep,
      nothing_after_abort.1 _ _ _ _ hlive _ _ rfl _ _ hstep⟩
  · intro services library query start
    obtain ⟨live, w, course, hstart, hbefore, hcourse, left, hleft⟩ : ∃ live w course,
        (Command.behaviour services).follow 0 query (List.replicate 7 id)
          (.underway .ready start) =
            .underway (.delivering library live 0 none [.integer 1]) w ∧
        (query.abort w).2.sink = .empty none ∧
        (Command.behaviour services).follow 0 (query.abort w).1 [id, id]
          (.underway (.delivering library live 0 none [.integer 1]) (query.abort w).2) = course ∧
        ∃ left, course = .finished (.error (.eval .aborted)) left :=
      ⟨_, _, _, rfl, rfl, rfl, _, rfl⟩
    obtain ⟨hsubsides, hsink⟩ := nothing_after_abort.2 EventLog services 0 _ false w
      (query.abort w).2 (.delivering library live 0 none [.integer 1]) [id, id] course (by simp)
      hcourse
    have hanswered := hsink (by simp [Inquiry.SparesSink])
    rw [hbefore] at hanswered
    exact ⟨live, w, course, hstart, hcourse, hsubsides, hanswered, left, hleft⟩

/--
A sink that refuses the solution it has been handed before the abort makes the
query fail with that.  And a word that comes to the gate twice waits there the
second time, after the abort has opened it once; its query never returns.
-/
theorem aborted_query_refused_or_held :
    (let services : Services EventLog := ⟨EventLog.sink, fun _ _ => .waiting, none⟩
      let query : Command := .query [.push (.integer 1)] false
      let start : World EventLog := ⟨⟨.empty, {}⟩, .empty (some 0), .closed⟩
      ∃ live w left,
        (Command.behaviour services).follow 0 query [id, id, id] (.underway .ready start) =
          .underway (.delivering .empty live 0 none [.integer 1]) w ∧
        (Command.behaviour services).follow 0 (query.abort w).1 [id]
          (.underway (.delivering .empty live 0 none [.integer 1]) (query.abort w).2) =
            .finished (.error (.sink (.receiveFailed "sink closed"))) left) ∧
    let services : Services EventLog :=
      ⟨EventLog.sink, fun _ _ => .found [.resource "urn:s"], some "urn:gate"⟩
    let library : Library :=
      Library.empty.bind ⟨.composed (lookingUp "urn:gate" ++ lookingUp "urn:gate") none, 0⟩
        "urn:ripple:user#twice" .reject "urn:ripple:user#twice"
    let query : Command := .query [.push (.resource "urn:s"), .call "twice"] false
    let start : World EventLog := ⟨⟨library, {}⟩, .empty none, .closed⟩
    ∃ live w,
      (Command.behaviour services).follow 0 query (List.replicate 10 id)
        (.underway .ready start) = .underway (.pulling library live 0 none) w ∧
      (Command.behaviour services).step 0 query (.pulling library live 0 none) w = .waiting ∧
      ∀ count, ∃ run left,
        (Command.behaviour services).follow 0 (query.abort w).1 (List.replicate count id)
          (.underway (.pulling library live 0 none) (query.abort w).2) = .underway run left := by
  constructor
  · exact ⟨_, _, _, rfl, rfl⟩
  · intro services library query start
    obtain ⟨live, w, hstart, hwaits, last, left, hafter, hheld⟩ : ∃ live w,
        (Command.behaviour services).follow 0 query (List.replicate 10 id)
          (.underway .ready start) = .underway (.pulling library live 0 none) w ∧
        (Command.behaviour services).step 0 query (.pulling library live 0 none) w = .waiting ∧
        ∃ last left,
          (Command.behaviour services).follow 0 (query.abort w).1 (List.replicate 4 id)
            (.underway (.pulling library live 0 none) (query.abort w).2) =
              .underway (.pulling library last 0 none) left ∧
          (Command.behaviour services).step 0 (query.abort w).1 (.pulling library last 0 none)
            left = .waiting :=
      ⟨_, _, rfl, rfl, _, _, rfl, rfl⟩
    exact ⟨live, w, hstart, hwaits, Behaviour.underway_of_waiting hafter hheld⟩

end StackQuery
