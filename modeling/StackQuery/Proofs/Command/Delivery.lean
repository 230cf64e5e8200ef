import StackQuery.Proofs.Command.Outcomes
import StackQuery.Proofs.Solutions.Yields

/-!
# What a query delivers

A query pulls its stream and puts out one solution after another, while others
may change everything but the sink between its steps and the store may keep it
waiting.  At any moment what it has pulled is what its stream brings at its
leisure, all of it solutions, and these are what the sink has taken, counted from
zero, apart from one that it may be about to answer for.  The query returns as soon as it has as many solutions as are wanted, or
the stream has ended, or the stream brings an error, or the sink refuses a
solution; it has then pulled no more than that.  If the store lets it pass, it
goes on as far as its stream does.
-/

namespace StackQuery

/-! ## The course of a command -/

inductive Course (ρ ω : Type) where
  | underway (run : ρ) (world : ω)
  | finished (result : Except Failure Unit) (world : ω)

namespace Behaviour

variable {κ ρ ω : Type}

/-- One step of a run, after which others change the world. -/
def goOn (b : Behaviour κ ρ ω) (id : CommandId) (command : κ) (change : ω → ω) :
    Course ρ ω → Course ρ ω
  | .underway run world => match b.step id command run world with
      | .working next left => .underway next (change left)
      | .waiting => .underway run (change world)
      | .returned result left => .finished result left
  | .finished result world => .finished result world

/-- One step after the other, each with the change that comes after it. -/
def follow (b : Behaviour κ ρ ω) (id : CommandId) (command : κ) (changes : List (ω → ω))
    (course : Course ρ ω) : Course ρ ω :=
  changes.foldl (fun course change => b.goOn id command change course) course

theorem follow_cons (b : Behaviour κ ρ ω) (id : CommandId) (command : κ) (change : ω → ω)
    (changes : List (ω → ω)) (course : Course ρ ω) :
    b.follow id command (change :: changes) course =
      b.follow id command changes (b.goOn id command change course) := rfl

theorem follow_append (b : Behaviour κ ρ ω) (id : CommandId) (command : κ)
    (changes more : List (ω → ω)) (course : Course ρ ω) :
    b.follow id command (changes ++ more) course =
      b.follow id command more (b.follow id command changes course) := List.foldl_append

theorem follow_finished (b : Behaviour κ ρ ω) (id : CommandId) (command : κ)
    (changes : List (ω → ω)) (result : Except Failure Unit) (world : ω) :
    b.follow id command changes (.finished result world) = .finished result world := by
  induction changes with
  | nil => rfl
  | cons change later ih => exact ih

end Behaviour

/-! ## Waiting for the store -/

section Waiting

variable {σ : Type}

/-- Opens the gate for whoever waits at it, or comes to it next. -/
def World.opened (w : World σ) : World σ := { w with gate := .granted }

/-- The gate can make a stream wait, but not make it go on in another way. -/
theorem step_surroundings (services : Services σ) (w : World σ) (l : Library)
    (live : Solutions) :
    live.step (w.surroundings services l false) = live.step ⟨l, services.ask, false⟩ ∨
      live.step (w.surroundings services l false) = .waiting ∧ w.gate ≠ .granted := by
  cases hquestion : live.question? with
  | none =>
      refine .inl (live.step_congr fun subject predicate hasked => ?_)
      simp [hquestion] at hasked
  | some question =>
      obtain ⟨subject, predicate⟩ := question
      by_cases hgate : services.guarded = some predicate ∧ w.gate ≠ .granted
      · exact .inr ⟨Solutions.step_of_waiting hquestion (if_pos hgate), hgate.2⟩
      · refine .inl (live.step_congr fun subject' predicate' hasked => ?_)
        rw [hquestion] at hasked
        cases hasked
        exact if_neg hgate

end Waiting

/-! ## What is settled -/

section Settled

variable {moment : Surroundings} {limit : Option Nat} {index count more : Nat}
  {answers : List Stack} {rest items items' later : List Item} {live last last' : Solutions}

theorem wanted_of_le (h : ∀ most, limit = some most → items.length ≤ most) :
    wanted limit items = items := by
  cases limit with
  | none => rfl
  | some most => exact List.take_of_length_le (h most rfl)

theorem delivered_append (answers : List Stack) (rest : List Item) (index : Nat) :
    delivered index (answers.map .ok ++ rest) =
      delivered index (answers.map .ok) ++ delivered (index + answers.length) rest := by
  induction answers generalizing index with
  | nil => rfl
  | cons stack answers ih =>
      have hindex : index + 1 + answers.length = index + (answers.length + 1) := by omega
      simp only [List.map_cons, List.cons_append, delivered, ih, List.length_cons, hindex]

theorem firstError_append (answers : List Stack) (rest : List Item) :
    firstError (answers.map .ok ++ rest) = firstError rest := by
  induction answers with
  | nil => rfl
  | cons stack answers ih => exact ih

/-- Nobody looks at what comes after an error. -/
theorem settled_by_error {error : EvalError} (herror : .error error ∈ items) (index : Nat) :
    delivered index (wanted limit (items ++ later)) = delivered index (wanted limit items) ∧
      firstError (wanted limit (items ++ later)) = firstError (wanted limit items) := by
  induction items generalizing index limit with
  | nil => cases herror
  | cons item items ih =>
      by_cases hlimit : limit = some 0
      · simp [hlimit, wanted]
      · rw [List.cons_append, wanted_cons hlimit, wanted_cons hlimit]
        cases item with
        | error _ => exact ⟨rfl, rfl⟩
        | ok stack =>
            obtain ⟨hdelivered, hfirst⟩ := ih (by simpa using herror) (index + 1)
            exact ⟨congrArg (Output.solution index stack :: ·) hdelivered, hfirst⟩

/-- Once a stream has brought enough, it does not matter how it goes on. -/
theorem Sufficient.settled (h : Sufficient moment limit items last)
    (hlater : Runs Solutions.step (List.replicate more moment) last later last') (index : Nat) :
    delivered index (wanted limit (items ++ later)) = delivered index (wanted limit items) ∧
      firstError (wanted limit (items ++ later)) = firstError (wanted limit items) := by
  rcases h with hended | ⟨most, rfl, hmany⟩ | ⟨error, herror⟩
  · rw [(hlater.eq_of_ended hended).1, List.append_nil]
    exact ⟨rfl, rfl⟩
  · simp only [wanted, List.take_append_of_le_length hmany, and_self]
  · exact settled_by_error herror index

theorem Sufficient.agree (h : Sufficient moment limit items last)
    (hruns : Runs Solutions.step (List.replicate count moment) live items last)
    (h' : Sufficient moment limit items' last')
    (hruns' : Runs Solutions.step (List.replicate more moment) live items' last') (index : Nat) :
    delivered index (wanted limit items') = delivered index (wanted limit items) ∧
      firstError (wanted limit items') = firstError (wanted limit items) := by
  rcases Nat.le_total count more with hle | hle
  · rw [← Nat.add_sub_cancel' hle, ← List.replicate_append_replicate] at hruns'
    obtain ⟨later, rfl, hlater⟩ := hruns.remainder hruns'
    exact h.settled hlater index
  · rw [← Nat.add_sub_cancel' hle, ← List.replicate_append_replicate] at hruns
    obtain ⟨later, rfl, hlater⟩ := hruns'.remainder hruns
    exact (h'.settled hlater index).imp Eq.symm Eq.symm

end Settled

/-! ## Delivering -/

/-- The sink takes solutions one after another, counted from zero. -/
inductive Sink.Takes {σ : Type} (sink : Sink σ) (id : CommandId) (state : σ) :
    List Stack → σ → Prop where
  | nil : Takes sink id state [] state
  | concat {answers : List Stack} {stack : Stack} {mid last : σ}
      (h : Takes sink id state answers mid)
      (hput : sink.put mid (.solution (some id) answers.length stack) = (last, .ok ())) :
      Takes sink id state (answers ++ [stack]) last

theorem Sink.Takes.putAll {σ : Type} {sink : Sink σ} {id : CommandId} {state reached : σ}
    {answers : List Stack} (h : sink.Takes id state answers reached) :
    reached = sink.putAll state ((delivered 0 (answers.map .ok)).map (·.event id)) := by
  induction h with
  | nil => rfl
  | @concat answers stack mid last h hput ih =>
      rw [List.map_append, delivered_append, List.map_append, Sink.putAll_append, ← ih,
        Nat.zero_add]
      exact (congrArg Prod.fst hput).symm

/-- A query that has begun: its stream, how many items are wanted of it, and the sink then. -/
structure Inquiry (σ : Type) where
  services : Services σ
  id : CommandId
  library : Library
  limit : Option Nat
  live : Solutions
  state : σ

namespace Inquiry

variable {σ : Type} {q : Inquiry σ} {tokens : List Token} {next : Solutions} {w : World σ}
  {run : Run} {steps : Nat} {answers : List Stack} {rest : List Item} {reached : σ}

/-- The store as it is when it lets everything pass. -/
def moment (q : Inquiry σ) : Surroundings := ⟨q.library, q.services.ask, false⟩

/-- In some steps the stream has brought solutions, which the sink has taken, and the rest. -/
structure Served (q : Inquiry σ) (steps : Nat) (answers : List Stack) (rest : List Item)
    (next : Solutions) (reached : σ) : Prop where
  runs : Runs Solutions.step (List.replicate steps q.moment) q.live (answers.map .ok ++ rest) next
  within : ∀ most, q.limit = some most → answers.length + rest.length ≤ most
  takes : q.services.sink.Takes q.id q.state answers reached

/-- The run of a query that has put out so many solutions. -/
def pulling (q : Inquiry σ) (next : Solutions) (count : Nat) : Run :=
  .pulling q.library next count (q.limit.map (· - count))

/-- The run of a query that has put out so many solutions and handed over another one. -/
def delivering (q : Inquiry σ) (next : Solutions) (count : Nat) (stack : Stack) : Run :=
  .delivering q.library next count (q.limit.map (· - count)) stack

/--
How far a query has come: it is still at its stream, or has handed over what
that has brought last, or it has returned since nothing more is wanted, since
there is nothing more, since the stream has brought an error, or since the sink
has refused what it has brought last.
-/
inductive Serves (q : Inquiry σ) : Course Run (World σ) → Prop where
  | pulls {steps : Nat} {answers : List Stack} {next : Solutions} {w : World σ}
      (h : q.Served steps answers [] next w.sink) :
      Serves q (.underway (q.pulling next answers.length) w)
  | puts {steps : Nat} {answers : List Stack} {stack : Stack} {next later : Solutions}
      {w : World σ} (h : q.Served steps answers [] next w.sink)
      (hmore : q.limit ≠ some answers.length)
      (hstep : next.step q.moment = .item (.ok stack) later) :
      Serves q (.underway (q.delivering later answers.length stack) w)
  | full {steps : Nat} {answers : List Stack} {next : Solutions} {w : World σ}
      (h : q.Served steps answers [] next w.sink) (hlimit : q.limit = some answers.length) :
      Serves q (.finished (.ok ()) w)
  | ended {steps : Nat} {answers : List Stack} {next : Solutions} {w : World σ}
      (h : q.Served steps answers [] next w.sink) (hended : next.step q.moment = .ended) :
      Serves q (.finished (.ok ()) w)
  | failed {steps : Nat} {answers : List Stack} {error : EvalError} {next : Solutions}
      {w : World σ} (h : q.Served steps answers [.error error] next w.sink) :
      Serves q (.finished (.error (.eval error)) w)
  | refused {steps : Nat} {answers : List Stack} {stack : Stack} {error : SinkError}
      {next : Solutions} {mid : σ} {w : World σ} (h : q.Served steps answers [.ok stack] next mid)
      (hput : q.services.sink.put mid (.solution (some q.id) answers.length stack) =
        (w.sink, .error error)) :
      Serves q (.finished (.error (.sink error)) w)

theorem Served.start (q : Inquiry σ) : q.Served 0 [] [] q.live q.state where
  runs := .refl _
  within := by simp
  takes := .nil

theorem Served.working (h : q.Served steps answers [] next reached) {later : Solutions}
    (hstep : next.step q.moment = .working later) :
    q.Served (steps + 1) answers [] later reached where
  runs := by
    have hlast : Runs Solutions.step [q.moment] next [] later := .working hstep (.refl _)
    rw [List.replicate_succ', ← List.append_nil (_ ++ [])]
    exact h.runs.trans hlast
  within := h.within
  takes := h.takes

/-- The stream has brought an item, of which more are still wanted. -/
theorem Served.item (h : q.Served steps answers [] next reached) {item : Item}
    {later : Solutions} (hstep : next.step q.moment = .item item later)
    (hmore : q.limit ≠ some answers.length) :
    q.Served (steps + 1) answers [item] later reached where
  runs := by
    have hlast : Runs Solutions.step [q.moment] next [item] later := .item hstep (.refl _)
    have hruns := h.runs
    rw [List.append_nil] at hruns
    rw [List.replicate_succ']
    exact hruns.trans hlast
  within := by
    intro most hmost
    have hle := h.within most hmost
    have hne : most ≠ answers.length := fun heq => hmore (heq ▸ hmost)
    simp only [List.length_nil, Nat.add_zero, List.length_singleton] at hle ⊢
    omega
  takes := h.takes

theorem Served.taken {stack : Stack} {mid : σ} (h : q.Served steps answers [.ok stack] next mid)
    (hput : q.services.sink.put mid (.solution (some q.id) answers.length stack) =
      (reached, .ok ())) : q.Served steps (answers ++ [stack]) [] next reached where
  runs := by
    rw [List.map_append, List.append_nil]
    exact h.runs
  within := by
    intro most hmost
    have hle := h.within most hmost
    simpa using hle
  takes := h.takes.concat hput

/-! ## One step -/

/-- A change of the world that leaves the sink alone. -/
def SparesSink (change : World σ → World σ) : Prop := ∀ w, (change w).sink = w.sink

theorem sparesSink_opened : SparesSink (World.opened : World σ → World σ) := fun _ => rfl

variable {change : World σ → World σ} {changes : List (World σ → World σ)}
  {course : Course Run (World σ)}

/-- Where a step of a query at its stream can lead to, and what it tells of the stream. -/
inductive Goes (q : Inquiry σ) (answers : List Stack) (next : Solutions) (w : World σ)
    (change : World σ → World σ) : Course Run (World σ) → Prop where
  | stays {v : World σ} (hsink : v.sink = w.sink) (hmore : q.limit ≠ some answers.length)
      (hheld : w.gate = .granted → next.step q.moment = .waiting) :
      Goes q answers next w change (.underway (q.pulling next answers.length) (change v))
  | works {later : Solutions} {v : World σ} (hsink : v.sink = w.sink)
      (hmore : q.limit ≠ some answers.length) (hstep : next.step q.moment = .working later) :
      Goes q answers next w change (.underway (q.pulling later answers.length) (change v))
  | hands {stack : Stack} {later : Solutions} {v : World σ} (hsink : v.sink = w.sink)
      (hmore : q.limit ≠ some answers.length)
      (hstep : next.step q.moment = .item (.ok stack) later) :
      Goes q answers next w change
        (.underway (q.delivering later answers.length stack) (change v))
  | returns {result : Except Failure Unit} {v : World σ} (h : q.Serves (.finished result v)) :
      Goes q answers next w change (.finished result v)

/-- Whoever waits at the gate, or has just come to it, stays where he is. -/
theorem goOn_waitAtGate {b : Behaviour Command Run (World σ)} {id : CommandId}
    {command : Command} (hstep : b.step id command run w = w.waitAtGate run)
    (change : World σ → World σ) :
    ∃ v : World σ, v.sink = w.sink ∧
      b.goOn id command change (.underway run w) = .underway run (change v) := by
  have hgoes := hstep
  unfold World.waitAtGate at hgoes
  split at hgoes
  next => exact ⟨{ w with gate := w.gate.arrive }, rfl, by simp only [Behaviour.goOn, hgoes]⟩
  next => exact ⟨w, rfl, by simp only [Behaviour.goOn, hgoes]⟩

theorem Served.goes (h : q.Served steps answers [] next w.sink) (tokens : List Token)
    (change : World σ → World σ) :
    q.Goes answers next w change ((Command.behaviour q.services).goOn q.id (.query tokens false)
      change (.underway (q.pulling next answers.length) w)) := by
  have hpull : (Command.behaviour q.services).step q.id (.query tokens false)
      (q.pulling next answers.length) w = w.pullQuery q.services false q.library next
        answers.length (q.limit.map (· - answers.length)) := rfl
  by_cases hleft : q.limit.map (· - answers.length) = some 0
  · obtain ⟨most, hmost, hnone⟩ := Option.map_eq_some_iff.mp hleft
    have hle := h.within most hmost
    have hlimit : q.limit = some answers.length := by
      rw [hmost]
      simp only [List.length_nil, Nat.add_zero] at hle
      exact congrArg some (by omega)
    simp only [Behaviour.goOn, hpull, World.pullQuery, if_pos hleft]
    exact .returns (.full h hlimit)
  have hmore : q.limit ≠ some answers.length := by
    intro hlimit
    simp [hlimit] at hleft
  have hwaits (hheld : next.step (w.surroundings q.services q.library false) = .waiting)
      (hstays : w.gate = .granted → next.step q.moment = .waiting) :
      q.Goes answers next w change ((Command.behaviour q.services).goOn q.id
        (.query tokens false) change (.underway (q.pulling next answers.length) w)) := by
    simp only [World.pullQuery, if_neg hleft, hheld] at hpull
    obtain ⟨v, hsink, hgoes⟩ := goOn_waitAtGate hpull change
    rw [hgoes]
    exact .stays hsink hmore hstays
  -- The gate may be in the way; apart from that the stream goes its way.
  rcases step_surroundings q.services w q.library next with hsame | ⟨hheld, hgate⟩
  · have hsame : next.step (w.surroundings q.services q.library false) =
        next.step q.moment := hsame
    cases hmoment : next.step q.moment with
    | item item later =>
        simp only [Behaviour.goOn, hpull, World.pullQuery, if_neg hleft, hsame, hmoment,
          World.deliver, Bool.false_eq_true, if_false]
        cases item with
        | error error => exact .returns (.failed (h.item hmoment hmore))
        | ok stack => exact .hands rfl hmore hmoment
    | working later =>
        simp only [Behaviour.goOn, hpull, World.pullQuery, if_neg hleft, hsame, hmoment]
        exact .works rfl hmore hmoment
    | waiting => exact hwaits (hsame.trans hmoment) fun _ => hmoment
    | ended =>
        simp only [Behaviour.goOn, hpull, World.pullQuery, if_neg hleft, hsame, hmoment]
        exact .returns (.ended h hmoment)
  · exact hwaits hheld fun hgranted => absurd hgranted hgate

/-- The sink answers for what it has been handed. -/
theorem Served.answered {stack : Stack} (h : q.Served steps answers [.ok stack] next w.sink)
    (tokens : List Token) (change : World σ → World σ) :
    (∃ v, (Command.behaviour q.services).goOn q.id (.query tokens false) change
        (.underway (q.delivering next answers.length stack) w) =
          .underway (q.pulling next (answers ++ [stack]).length) (change v) ∧
        q.Served steps (answers ++ [stack]) [] next v.sink) ∨
      ∃ result v, (Command.behaviour q.services).goOn q.id (.query tokens false) change
        (.underway (q.delivering next answers.length stack) w) = .finished result v ∧
        q.Serves (.finished result v) := by
  rcases hput : q.services.sink.put w.sink (.solution (some q.id) answers.length stack) with
    ⟨reached, error | _⟩
  · refine .inr ⟨_, _, ?_, .refused (w := { w with sink := reached }) h hput⟩
    simp only [Behaviour.goOn, Command.behaviour, Command.step, delivering, World.putSolution,
      putThen_of_error hput]
  · refine .inl ⟨{ w with sink := reached }, ?_, h.taken hput⟩
    simp only [Behaviour.goOn, Command.behaviour, Command.step, delivering, World.putSolution,
      putThen_of_ok hput, pulling, List.length_append, List.length_singleton, Option.map_map]
    rfl

/-! ## The whole course -/

theorem Serves.goOn (h : q.Serves course) (tokens : List Token) (hchange : SparesSink change) :
    q.Serves ((Command.behaviour q.services).goOn q.id (.query tokens false) change course) := by
  cases h with
  | @pulls steps answers next w h =>
      have hspared {v : World σ} (hsink : v.sink = w.sink) :
          q.Served steps answers [] next (change v).sink := by
        rwa [hchange, hsink]
      have hgoes := h.goes tokens change
      generalize Behaviour.goOn _ _ _ _ _ = reached at hgoes ⊢
      cases hgoes with
      | stays hsink => exact .pulls (hspared hsink)
      | works hsink _ hstep => exact .pulls ((hspared hsink).working hstep)
      | hands hsink hmore hstep => exact .puts (hspared hsink) hmore hstep
      | returns hserves => exact hserves
  | @puts steps answers stack next later w h hmore hstep =>
      rcases (h.item hstep hmore).answered tokens change with
        ⟨v, hgoes, hserved⟩ | ⟨result, v, hgoes, hserves⟩
      · rw [hgoes]
        have hspared : q.Served (steps + 1) (answers ++ [stack]) [] later (change v).sink := by
          rwa [hchange]
        exact .pulls hspared
      · rw [hgoes]
        exact hserves
  | full h hlimit => exact .full h hlimit
  | ended h hended => exact .ended h hended
  | failed h => exact .failed h
  | refused h hput => exact .refused h hput

theorem Serves.follow (h : q.Serves course) (tokens : List Token)
    (hchanges : ∀ change ∈ changes, SparesSink change) :
    q.Serves ((Command.behaviour q.services).follow q.id (.query tokens false) changes
      course) := by
  induction changes generalizing course with
  | nil => exact h
  | cons change later ih =>
      obtain ⟨hchange, hlater⟩ := List.forall_mem_cons.mp hchanges
      exact ih (h.goOn tokens hchange) hlater

/-! ## Coming to the end -/

/-- The course is over, or it has got so far with the stream and the gate is open. -/
inductive Reaches (q : Inquiry σ) (steps : Nat) : Course Run (World σ) → Prop where
  | finished (result : Except Failure Unit) (w : World σ) : Reaches q steps (.finished result w)
  | pulls {taken : Nat} {answers : List Stack} {next : Solutions} {w : World σ}
      (h : q.Served taken answers [] next w.sink) (hgate : w.gate = .granted)
      (hle : steps ≤ taken) : Reaches q steps (.underway (q.pulling next answers.length) w)
  | puts {taken : Nat} {answers : List Stack} {stack : Stack} {next : Solutions} {w : World σ}
      (h : q.Served taken answers [.ok stack] next w.sink) (hgate : w.gate = .granted)
      (hle : steps ≤ taken) :
      Reaches q steps (.underway (q.delivering next answers.length stack) w)

/-- The course is over, or the gate is open and the stream and the sink have made so many steps. -/
inductive Advances (q : Inquiry σ) (count : Nat) : Course Run (World σ) → Prop where
  | finished (result : Except Failure Unit) (w : World σ) : Advances q count (.finished result w)
  | pulls {taken : Nat} {answers : List Stack} {next : Solutions} {w : World σ}
      (h : q.Served taken answers [] next w.sink) (hgate : w.gate = .granted)
      (hle : count ≤ taken + answers.length) :
      Advances q count (.underway (q.pulling next answers.length) w)
  | puts {taken : Nat} {answers : List Stack} {stack : Stack} {next later : Solutions}
      {w : World σ} (h : q.Served taken answers [] next w.sink)
      (hmore : q.limit ≠ some answers.length)
      (hstep : next.step q.moment = .item (.ok stack) later) (hgate : w.gate = .granted)
      (hle : count ≤ taken + 1 + answers.length) :
      Advances q count (.underway (q.delivering later answers.length stack) w)

theorem Served.advances {taken count : Nat} (h : q.Served taken answers [] next w.sink)
    (hheld : (w.gate = .granted → next.step q.moment = .waiting) →
      count ≤ taken + answers.length)
    (hle : count ≤ taken + answers.length + 1) (tokens : List Token) :
    q.Advances count ((Command.behaviour q.services).goOn q.id (.query tokens false)
      World.opened (.underway (q.pulling next answers.length) w)) := by
  have hgoes := h.goes tokens World.opened
  generalize Behaviour.goOn _ _ _ _ _ = reached at hgoes ⊢
  cases hgoes with
  | @stays v hsink _ hwaits =>
      have hserved : q.Served taken answers [] next v.opened.sink := hsink ▸ h
      exact .pulls hserved rfl (hheld hwaits)
  | @works later v hsink _ hstep =>
      have hserved : q.Served (taken + 1) answers [] later v.opened.sink :=
        hsink ▸ h.working hstep
      exact .pulls hserved rfl (by omega)
  | @hands stack later v hsink hmore hstep =>
      have hserved : q.Served taken answers [] next v.opened.sink := hsink ▸ h
      exact .puts hserved hmore hstep rfl (by omega)
  | returns => exact .finished _ _

theorem Served.advances_answered {stack : Stack} {taken count : Nat}
    (h : q.Served taken answers [.ok stack] next w.sink)
    (hle : count ≤ taken + answers.length + 1) (tokens : List Token) :
    q.Advances count ((Command.behaviour q.services).goOn q.id (.query tokens false)
      World.opened (.underway (q.delivering next answers.length stack) w)) := by
  rcases h.answered tokens World.opened with ⟨v, hgoes, hserved⟩ | ⟨result, v, hgoes, _⟩
  · have hlength : count ≤ taken + (answers ++ [stack]).length := by
      rw [List.length_append, List.length_singleton]
      omega
    rw [hgoes]
    exact .pulls (w := v.opened) hserved rfl hlength
  · rw [hgoes]
    exact .finished result v

theorem Serves.advances_goOn (h : q.Serves course) (tokens : List Token) :
    q.Advances 0 ((Command.behaviour q.services).goOn q.id (.query tokens false) World.opened
      course) := by
  cases h with
  | pulls h => exact h.advances (fun _ => Nat.zero_le _) (Nat.zero_le _) tokens
  | puts h hmore hstep => exact (h.item hstep hmore).advances_answered (Nat.zero_le _) tokens
  | full | ended | failed | refused => exact .finished _ _

section Longer

variable {total : Nat} {items : List Item} {last : Solutions}
  (hruns : Runs Solutions.step (List.replicate total q.moment) q.live items last)
include hruns

theorem Served.remainder (h : q.Served steps answers rest next reached) (hle : steps ≤ total) :
    ∃ later, items = (answers.map .ok ++ rest) ++ later ∧
      Runs Solutions.step (List.replicate (total - steps) q.moment) next later last := by
  refine h.runs.remainder ?_
  rwa [List.replicate_append_replicate, Nat.add_sub_cancel' hle]

theorem Served.beyond (h : q.Served steps answers rest next reached) (hle : total ≤ steps) :
    ∃ later, answers.map .ok ++ rest = items ++ later ∧
      Runs Solutions.step (List.replicate (steps - total) q.moment) last later next := by
  have htaken := h.runs
  rw [← Nat.add_sub_cancel' hle, ← List.replicate_append_replicate] at htaken
  exact hruns.remainder htaken

theorem Served.length_le (h : q.Served steps answers rest next reached) (hle : steps ≤ total) :
    answers.length + rest.length ≤ items.length := by
  obtain ⟨later, rfl, _⟩ := h.remainder hruns hle
  simp

theorem Served.le_length (h : q.Served steps answers rest next reached) (hle : total ≤ steps) :
    items.length ≤ answers.length + rest.length := by
  obtain ⟨later, hlater, _⟩ := h.beyond hruns hle
  have hlength := congrArg List.length hlater
  simp only [List.length_append, List.length_map] at hlength
  omega

theorem Served.not_waiting (h : q.Served steps answers rest next reached) (hless : steps < total) :
    next.step q.moment ≠ .waiting := by
  intro hwaiting
  obtain ⟨later, _, hlater⟩ := h.remainder hruns (Nat.le_of_lt hless)
  obtain ⟨extra, hextra⟩ := Nat.exists_eq_add_of_lt (Nat.sub_pos_of_lt hless)
  rw [hextra, List.replicate_succ] at hlater
  cases hlater with
  | item hstep | working hstep => simp [hwaiting] at hstep

/-- With the gate open, a query goes on as long as its stream does. -/
theorem Advances.goOn {count : Nat} (h : q.Advances count course)
    (hless : count < total + items.length) (tokens : List Token) :
    q.Advances (count + 1) ((Command.behaviour q.services).goOn q.id (.query tokens false)
      World.opened course) := by
  cases h with
  | finished => exact .finished _ _
  | @pulls taken answers next w h hgate hle =>
      -- As long as the stream is behind, the query is not held up, so it does not stay.
      refine h.advances (fun hheld => Nat.lt_of_le_of_ne hle fun heq => ?_) (by omega) tokens
      refine h.not_waiting hruns (Nat.lt_of_not_le fun hpast => ?_) (hheld hgate)
      have hlength := h.le_length hruns hpast
      simp only [List.length_nil, Nat.add_zero] at hlength
      omega
  | puts h hmore hstep hgate hle =>
      exact (h.item hstep hmore).advances_answered (by omega) tokens

theorem Advances.follow (h : q.Advances 0 course) (tokens : List Token) {count : Nat}
    (hle : count ≤ total + items.length) :
    q.Advances count ((Command.behaviour q.services).follow q.id (.query tokens false)
      (List.replicate count World.opened) course) := by
  induction count with
  | zero => exact h
  | succ count ih =>
      rw [List.replicate_succ', Behaviour.follow_append]
      exact (ih (Nat.le_of_succ_le hle)).goOn hruns hle tokens

/-- The sink answers once for every solution, so all other steps are the stream's. -/
theorem Advances.reaches (h : q.Advances (total + items.length) course) :
    q.Reaches total course := by
  cases h with
  | finished result w => exact .finished result w
  | @pulls taken answers next w h hgate hle =>
      refine .pulls h hgate (Nat.le_of_not_lt fun hless => ?_)
      have hlength := h.length_le hruns (Nat.le_of_lt hless)
      simp only [List.length_nil, Nat.add_zero] at hlength
      omega
  | @puts taken answers stack next later w h hmore hstep hgate hle =>
      have hitem := h.item hstep hmore
      refine .puts hitem hgate (Nat.le_of_not_lt fun hless => ?_)
      have hlength := hitem.length_le hruns (Nat.le_of_lt hless)
      simp only [List.length_singleton] at hlength
      omega

/-- Whatever has made a run sufficient, a query that has got past it is at its end. -/
theorem Served.full_or_ended (h : q.Served steps answers [] next reached) (hle : total ≤ steps)
    (hsufficient : Sufficient q.moment q.limit items last) :
    q.limit = some answers.length ∨ next.step q.moment = .ended := by
  obtain ⟨later, hlater, hrest⟩ := h.beyond hruns hle
  rw [List.append_nil] at hlater
  rcases hsufficient with hended | ⟨most, hmost, hmany⟩ | ⟨error, herror⟩
  · rw [← (hrest.eq_of_ended hended).2] at hended
    exact .inr hended
  · have hwithin := h.within most hmost
    have hlength := h.le_length hruns hle
    simp only [List.length_nil, Nat.add_zero] at hwithin hlength
    rw [hmost]
    exact .inl (congrArg some (by omega))
  · -- A query that is still at its stream has pulled no error.
    have hmem : Except.error error ∈ answers.map (Except.ok (ε := EvalError)) :=
      hlater ▸ List.mem_append_left later herror
    simp at hmem

/-- Once the stream has brought all that a query looks at, the query returns. -/
theorem Advances.finished_of_sufficient (h : q.Advances (total + items.length) course)
    (hsufficient : Sufficient q.moment q.limit items last) (tokens : List Token) :
    ∃ result v, (Command.behaviour q.services).goOn q.id (.query tokens false) World.opened
      course = .finished result v := by
  cases h with
  | finished result v => exact ⟨result, v, rfl⟩
  | @pulls taken answers next w h hgate hle =>
      have hpast : total ≤ taken := by
        refine Nat.le_of_not_lt fun hless => ?_
        have hlength := h.length_le hruns (Nat.le_of_lt hless)
        simp only [List.length_nil, Nat.add_zero] at hlength
        omega
      have hfinished := h.full_or_ended hruns hpast hsufficient
      have hgoes := h.goes tokens World.opened
      generalize Behaviour.goOn _ _ _ _ _ = reached at hgoes ⊢
      cases hgoes with
      | stays _ hmore hheld =>
          rcases hfinished with hfull | hended
          · exact absurd hfull hmore
          · simp [hheld hgate] at hended
      | works _ hmore hstep | hands _ hmore hstep =>
          rcases hfinished with hfull | hended
          · exact absurd hfull hmore
          · simp [hstep] at hended
      | returns => exact ⟨_, _, rfl⟩
  | @puts taken answers stack next later w h hmore hstep hgate hle =>
      -- The stream was not asked again after it had brought enough.
      have hbefore : taken < total := by
        refine Nat.lt_of_not_le fun hpast => ?_
        rcases h.full_or_ended hruns hpast hsufficient with hfull | hended
        · exact hmore hfull
        · simp [hstep] at hended
      have hlength := (h.item hstep hmore).length_le hruns hbefore
      simp only [List.length_singleton] at hlength
      omega

/-- What has been served is all that a long run of the stream comes to. -/
theorem Served.settles (h : q.Served steps answers rest next reached)
    (henough : Sufficient q.moment q.limit (answers.map .ok ++ rest) next)
    (hsufficient : Sufficient q.moment q.limit items last) :
    delivered 0 (wanted q.limit items) =
        delivered 0 (answers.map .ok) ++ delivered answers.length rest ∧
      firstError (wanted q.limit items) = firstError rest := by
  obtain ⟨hdelivered, hfirst⟩ := henough.agree h.runs hsufficient hruns 0
  have hall : wanted q.limit (answers.map .ok ++ rest) = answers.map .ok ++ rest :=
    wanted_of_le fun most hmost => by simpa using h.within most hmost
  rw [hall, delivered_append, Nat.zero_add] at hdelivered
  rw [hall, firstError_append] at hfirst
  exact ⟨hdelivered, hfirst⟩

/-- If the sink takes everything, any long run of the stream tells what a query comes to. -/
theorem Serves.result_of_sufficient {result : Except Failure Unit}
    (h : q.Serves (.finished result w)) (haccepts : q.services.sink.Accepts)
    (hsufficient : Sufficient q.moment q.limit items last) :
    result = firstError (wanted q.limit items) ∧
      w.sink = q.services.sink.putAll q.state
        ((delivered 0 (wanted q.limit items)).map (·.event q.id)) := by
  cases h with
  | @full steps answers next _ h hlimit =>
      have henough : Sufficient q.moment q.limit (answers.map .ok ++ []) next :=
        .inr (.inl ⟨_, hlimit, by simp⟩)
      obtain ⟨hdelivered, hfirst⟩ := h.settles hruns henough hsufficient
      rw [hdelivered, hfirst, h.takes.putAll]
      simp [firstError, delivered]
  | ended h hended =>
      obtain ⟨hdelivered, hfirst⟩ := h.settles hruns (.inl hended) hsufficient
      rw [hdelivered, hfirst, h.takes.putAll]
      simp [firstError, delivered]
  | @failed steps answers error next _ h =>
      have henough : Sufficient q.moment q.limit (answers.map .ok ++ [.error error]) next :=
        .inr (.inr ⟨error, by simp⟩)
      obtain ⟨hdelivered, hfirst⟩ := h.settles hruns henough hsufficient
      rw [hdelivered, hfirst, h.takes.putAll]
      simp [firstError, delivered]
  | @refused steps answers stack error next mid _ h hput =>
      have haccepted := haccepts mid (.solution (some q.id) answers.length stack)
      rw [hput] at haccepted
      cases haccepted

end Longer

/-! ## From the beginning -/

section Beginning

variable {services : Services σ} {id : CommandId} {live : Solutions}

/-- The course of a query from its beginning in a world. -/
def courseOf (services : Services σ) (id : CommandId) (tokens : List Token) (w : World σ)
    (changes : List (World σ → World σ)) : Course Run (World σ) :=
  (Command.behaviour services).follow id (.query tokens false) changes (.underway .ready w)

/-- The inquiry that a query makes which begins in a world, with the stream it gets. -/
def begun (services : Services σ) (id : CommandId) (w : World σ) (live : Solutions) :
    Inquiry σ :=
  ⟨services, id, w.session.library, w.session.config.solutionLimit, live, w.sink⟩

theorem courseOf_append (services : Services σ) (id : CommandId) (tokens : List Token)
    (w : World σ) (changes more : List (World σ → World σ)) :
    courseOf services id tokens w (changes ++ more) =
      (Command.behaviour services).follow id (.query tokens false) more
        (courseOf services id tokens w changes) := Behaviour.follow_append _ _ _ _ _ _

theorem courseOf_of_error {error : EvalError}
    (herror : evaluate ⟨w.session.library, services.ask, false⟩ tokens [] = .error error)
    (change : World σ → World σ) (changes : List (World σ → World σ)) :
    courseOf services id tokens w (change :: changes) = .finished (.error (.eval error)) w := by
  have hbegin : evaluate (w.surroundings services w.session.library false) tokens [] =
      .error error := herror
  have hfirst : (Command.behaviour services).goOn id (.query tokens false) change
      (.underway .ready w) = .finished (.error (.eval error)) w := by
    simp only [Behaviour.goOn, Command.behaviour, Command.step, World.beginQuery, hbegin]
  rw [courseOf, Behaviour.follow_cons, hfirst, Behaviour.follow_finished]

theorem courseOf_of_ok
    (hlive : evaluate ⟨w.session.library, services.ask, false⟩ tokens [] = .ok live)
    (change : World σ → World σ) (changes : List (World σ → World σ)) :
    courseOf services id tokens w (change :: changes) =
      (Command.behaviour services).follow id (.query tokens false) changes
        (.underway ((begun services id w live).pulling live 0) (change w)) := by
  have hbegin : evaluate (w.surroundings services w.session.library false) tokens [] =
      .ok live := hlive
  have hlimit : (begun services id w live).limit.map (· - 0) = w.session.config.solutionLimit :=
    Option.map_id'
  have hfirst : (Command.behaviour services).goOn id (.query tokens false) change
      (.underway .ready w) =
        .underway ((begun services id w live).pulling live 0) (change w) := by
    simp only [Behaviour.goOn, Command.behaviour, Command.step, World.beginQuery, hbegin, pulling,
      hlimit]
    rfl
  rw [courseOf, Behaviour.follow_cons, hfirst]

theorem serves_courseOf
    (hlive : evaluate ⟨w.session.library, services.ask, false⟩ tokens [] = .ok live)
    (hsome : changes ≠ []) (hchanges : ∀ change ∈ changes, SparesSink change) :
    (begun services id w live).Serves (courseOf services id tokens w changes) := by
  obtain ⟨change, later, rfl⟩ := List.exists_cons_of_ne_nil hsome
  obtain ⟨hchange, hlater⟩ := List.forall_mem_cons.mp hchanges
  have hstart : (begun services id w live).Served 0 [] [] live (change w).sink := by
    rw [hchange]
    exact .start (begun services id w live)
  have hfirst := Serves.pulls (w := change w) hstart
  rw [courseOf_of_ok hlive]
  exact hfirst.follow tokens hlater

/-- Once the gate has been opened, a query gets as far as its stream does. -/
theorem advances_courseOf {steps : Nat} {items : List Item} {last : Solutions}
    (hlive : evaluate ⟨w.session.library, services.ask, false⟩ tokens [] = .ok live)
    (hchanges : ∀ change ∈ changes, SparesSink change)
    (hruns : Runs Solutions.step
      (List.replicate steps ⟨w.session.library, services.ask, false⟩) live items last) :
    (begun services id w live).Advances (steps + items.length) (courseOf services id tokens w
      (changes ++ List.replicate (steps + items.length + 1) World.opened)) := by
  have hopened : (begun services id w live).Advances 0
      (courseOf services id tokens w (changes ++ [World.opened])) := by
    cases changes with
    | nil =>
        rw [List.nil_append, courseOf_of_ok hlive]
        exact .pulls (w := w.opened) (.start (begun services id w live)) rfl (Nat.zero_le _)
    | cons change later =>
        rw [courseOf_append]
        exact (serves_courseOf hlive (List.cons_ne_nil _ _) hchanges).advances_goOn tokens
  rw [List.replicate_succ, ← List.singleton_append, ← List.append_assoc, courseOf_append]
  exact hopened.follow hruns tokens (Nat.le_refl _)

/-- A query that has as many solutions as are wanted returns, whatever its stream would do. -/
theorem step_of_full {count : Nat} (hlimit : q.limit = some count) (next : Solutions)
    (w : World σ) (tokens : List Token) :
    (Command.behaviour q.services).step q.id (.query tokens false) (q.pulling next count) w =
      .returned (.ok ()) w := by
  simp only [Command.behaviour, Command.step, pulling, World.pullQuery, hlimit, Option.map_some,
    Nat.sub_self, if_true]

/--
A query delivers the solutions that its stream brings, one by one, up to the
first error among those that are wanted, and returns that error.  It takes
nothing from the stream after that, whether or not there would be more, and
puts nothing after a solution that the sink refuses.  This holds whatever others
change but the sink; and a query that the store does not hold up comes to its
end as soon as the stream has brought enough and the sink has answered for it.
-/
theorem query_delivers_up_to_limit (services : Services σ) (id : CommandId)
    (tokens : List Token) (w : World σ) :
    (∀ error, evaluate ⟨w.session.library, services.ask, false⟩ tokens [] = .error error →
      ∀ change changes,
        courseOf services id tokens w (change :: changes) = .finished (.error (.eval error)) w) ∧
    ∀ live, evaluate ⟨w.session.library, services.ask, false⟩ tokens [] = .ok live →
      (∀ count, w.session.config.solutionLimit = some count → ∀ next left,
        (Command.behaviour services).step id (.query tokens false)
          ((begun services id w live).pulling next count) left = .returned (.ok ()) left) ∧
      ∀ changes : List (World σ → World σ), (∀ change ∈ changes, SparesSink change) →
        (changes ≠ [] →
          (begun services id w live).Serves (courseOf services id tokens w changes)) ∧
        ∀ steps items last,
          Runs Solutions.step (List.replicate steps ⟨w.session.library, services.ask, false⟩) live
            items last →
          (begun services id w live).Reaches steps (courseOf services id tokens w
            (changes ++ List.replicate (steps + items.length + 1) World.opened)) ∧
          (Sufficient ⟨w.session.library, services.ask, false⟩ w.session.config.solutionLimit items
              last →
            ∃ result left, courseOf services id tokens w
                (changes ++ List.replicate (steps + items.length + 2) World.opened) =
                  .finished result left ∧
              (services.sink.Accepts →
                result = firstError (wanted w.session.config.solutionLimit items) ∧
                left.sink = services.sink.putAll w.sink
                  ((delivered 0 (wanted w.session.config.solutionLimit items)).map
                    (·.event id)))) := by
  refine ⟨fun error herror => courseOf_of_error herror, fun live hlive =>
    ⟨fun count hlimit next left => ?_, fun changes hchanges => ⟨fun hsome => ?_, ?_⟩⟩⟩
  · exact step_of_full (q := begun services id w live) hlimit next left tokens
  · exact serves_courseOf hlive hsome hchanges
  intro steps items last hruns
  have hadvances : (begun services id w live).Advances (steps + items.length)
      (courseOf services id tokens w
        (changes ++ List.replicate (steps + items.length + 1) World.opened)) :=
    advances_courseOf hlive hchanges hruns
  refine ⟨hadvances.reaches hruns, fun hsufficient => ?_⟩
  obtain ⟨result, left, hfinished⟩ := hadvances.finished_of_sufficient hruns hsufficient tokens
  have hcourse : courseOf services id tokens w
      (changes ++ List.replicate (steps + items.length + 2) World.opened) =
        .finished result left := by
    rw [List.replicate_succ', ← List.append_assoc, courseOf_append]
    exact hfinished
  have hall : ∀ change ∈ changes ++ List.replicate (steps + items.length + 2) World.opened,
      SparesSink change := by
    intro change hmem
    rcases List.mem_append.mp hmem with hmem | hmem
    · exact hchanges change hmem
    · rw [List.eq_of_mem_replicate hmem]
      exact sparesSink_opened
  have hserves : (begun services id w live).Serves (.finished result left) :=
    hcourse ▸ serves_courseOf hlive (by simp) hall
  exact ⟨result, left, hcourse, fun haccepts =>
    hserves.result_of_sufficient hruns haccepts hsufficient⟩

end Beginning

end Inquiry

end StackQuery
