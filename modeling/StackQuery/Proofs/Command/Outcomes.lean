import StackQuery.Command.Run
import StackQuery.Proofs.CommandQueue.Serial
import StackQuery.Proofs.Streams.Runs

/-!
# What commands come to

A query, a definition or a directive that nothing disturbs puts out some
solutions or a message, reports a failure if it has one, and ends completed or
failed.  Which of these is said here in terms of what the query's stream
brings and of what the session makes of a definition or a directive; only the
latter change the session.  Run step by step, in a world whose sink takes every
event, commands come to just that.
-/

namespace StackQuery

/-- What a command puts out, whatever its number. -/
inductive Output where
  | solution (index : Nat) (stack : Stack)
  | message (text : String)
  | report (name : String) (failure : Failure)

def Output.event (id : CommandId) : Output → Event
  | .solution index stack => .solution (some id) index stack
  | .message text => .message (some id) text
  | .report name failure => .error (.ofFailure (some id) name failure)

structure Outcome where
  outputs : List Output
  status : CommandStatus

/-- What a command comes to that puts something out and then returns. -/
def Outcome.returned (name : String) (outputs : List Output) :
    Except Failure Unit → Outcome
  | .ok () => ⟨outputs, .completed⟩
  | .error failure => ⟨outputs ++ [.report name failure], .ofResult false (.error failure)⟩

/-! ## Queries -/

section Queries

variable {limit left : Option Nat} {index : Nat} {item : Item} {items : List Item}

/-- The items that a query asks for. -/
def wanted (limit : Option Nat) (items : List Item) : List Item :=
  match limit with
  | some count => items.take count
  | none => items

/-- The solutions up to the first error. -/
def delivered (index : Nat) : List Item → List Output
  | .ok stack :: items => .solution index stack :: delivered (index + 1) items
  | _ => []

def firstError : List Item → Except Failure Unit
  | [] => .ok ()
  | .ok _ :: items => firstError items
  | .error error :: _ => .error (.eval error)

/--
A stream has brought all that a query will look at: it has ended, or there are
as many items as are asked for, or an error.
-/
def Sufficient (moment : Surroundings) (limit : Option Nat) (items : List Item)
    (last : Solutions) : Prop :=
  last.step moment = .ended ∨ (∃ count, limit = some count ∧ count ≤ items.length) ∨
    ∃ error, .error error ∈ items

@[simp] theorem wanted_nil : wanted limit [] = [] := by
  cases limit <;> simp [wanted]

theorem wanted_cons (h : limit ≠ some 0) :
    wanted limit (item :: items) = item :: wanted (limit.map (· - 1)) items := by
  cases limit with
  | none => rfl
  | some count =>
      cases count with
      | zero => exact absurd rfl h
      | succ count => simp [wanted]

end Queries

/-! ## Definitions and directives -/

/-- What a definition or a directive does to a session, and its message. -/
def Session.act? (s : Session) : Command → Option (Except EvalError (Session × String))
  | .define name tokens => some (s.runDefine name tokens)
  | .directive directive => some (s.runDirective directive)
  | .query _ _ | .script _ => none

/-- A session changes by a definition or a directive that succeeds, and by nothing else. -/
def Session.leftBy (s : Session) (command : Command) : Session :=
  match s.act? command with
  | some (.ok (left, _)) => left
  | _ => s

/-! ## All commands -/

/-- What a command comes to in a session when nothing disturbs it. -/
inductive Performs (ask : Connection) (s : Session) : Command → Outcome → Prop where
  | refused {tokens : List Token} {aborted : Bool} {error : EvalError}
      (h : evaluate ⟨s.library, ask, aborted⟩ tokens [] = .error error) :
      Performs ask s (.query tokens aborted) (.returned "query" [] (.error (.eval error)))
  | answered {tokens : List Token} {live last : Solutions} {moments : List Surroundings}
      {items : List Item} (h : evaluate ⟨s.library, ask, false⟩ tokens [] = .ok live)
      (hmoments : ∀ moment ∈ moments, moment = ⟨s.library, ask, false⟩)
      (hruns : Runs Solutions.step moments live items last)
      (hsufficient : Sufficient ⟨s.library, ask, false⟩ s.config.solutionLimit items last) :
      Performs ask s (.query tokens false)
        (.returned "query" (delivered 0 (wanted s.config.solutionLimit items))
          (firstError (wanted s.config.solutionLimit items)))
  | announced {command : Command} {left : Session} {text : String}
      (h : s.act? command = some (.ok (left, text))) :
      Performs ask s command (.returned command.name [.message text] (.ok ()))
  | failed {command : Command} {error : EvalError} (h : s.act? command = some (.error error)) :
      Performs ask s command (.returned command.name [] (.error (.eval error)))

/-- Commands one by one, each in the session that the ones before it have left. -/
inductive PerformsAll (ask : Connection) : Session → List Command → List Outcome → Prop where
  | nil (s : Session) : PerformsAll ask s [] []
  | cons {s : Session} {command : Command} {outcome : Outcome} {commands : List Command}
      {outcomes : List Outcome} (h : Performs ask s command outcome)
      (later : PerformsAll ask (s.leftBy command) commands outcomes) :
      PerformsAll ask s (command :: commands) (outcome :: outcomes)

section PerformsAll

variable {ask : Connection} {s : Session} {commands : List Command} {outcomes : List Outcome}

theorem PerformsAll.eraseIdx_query (h : PerformsAll ask s commands outcomes) {place : Nat}
    {tokens : List Token} {aborted : Bool}
    (hquery : commands[place]? = some (.query tokens aborted)) :
    PerformsAll ask s (commands.eraseIdx place) (outcomes.eraseIdx place) := by
  induction h generalizing place with
  | nil => simp at hquery
  | cons hfirst later ih =>
      cases place with
      | zero =>
          simp only [List.getElem?_cons_zero, Option.some.injEq] at hquery
          subst hquery
          exact later
      | succ place => exact .cons hfirst (ih hquery)

end PerformsAll

/-! ## Running commands -/

section Running

variable {σ : Type} {services : Services σ}

/-- What the store says as long as the gate, if there is one, is closed. -/
abbrev Services.store (services : Services σ) : Connection :=
  Gate.closed.connection services.guarded services.ask

/-- The state of a sink that has been given some events. -/
def Sink.putAll (sink : Sink σ) (state : σ) (events : List Event) : σ :=
  events.foldl (fun state event => (sink.put state event).1) state

/-- A sink that never refuses an event. -/
def Sink.Accepts (sink : Sink σ) : Prop := ∀ state event, (sink.put state event).2 = .ok ()

variable {session : Session} {state : σ} {gate : Gate} {event : Event} {next : Run}
  {id : CommandId}

theorem putThen_of_ok {w : World σ} {reached : σ}
    (hput : services.sink.put w.sink event = (reached, .ok ())) (next : Run) :
    w.putThen services event next = .working next { w with sink := reached } := by
  simp only [World.putThen, hput]

theorem putThen_of_error {w : World σ} {reached : σ} {error : SinkError}
    (hput : services.sink.put w.sink event = (reached, .error error)) (next : Run) :
    w.putThen services event next =
      .returned (.error (.sink error)) { w with sink := reached } := by
  simp only [World.putThen, hput]

theorem putThen_of_accepts (haccepts : services.sink.Accepts) (w : World σ) (event : Event)
    (next : Run) :
    w.putThen services event next =
      .working next { w with sink := (services.sink.put w.sink event).1 } := by
  simp only [World.putThen, haccepts w.sink event]

theorem putLast_of_accepts (haccepts : services.sink.Accepts) (w : World σ) (event : Event) :
    w.putLast services event =
      .returned (.ok ()) { w with sink := (services.sink.put w.sink event).1 } := by
  simp only [World.putLast, haccepts w.sink event, Except.mapError]

section Pulling

variable {library : Library} {tokens : List Token} {live last : Solutions}
  {moments : List Surroundings} {items : List Item} {index : Nat} {left : Option Nat}

private theorem completes_full (id : CommandId) (tokens : List Token) (library : Library)
    (live : Solutions) (index : Nat) (session : Session) (state : σ) :
    (Command.behaviour services).Completes id (.query tokens false)
      (.pulling library live index (some 0)) ⟨session, state, .closed⟩ (.ok ())
      ⟨session, state, .closed⟩ := by
  refine .returns ?_
  simp only [Command.behaviour, Command.step, World.pullQuery, if_true]

private theorem step_pulling (hleft : left ≠ some 0) :
    (Command.behaviour services).step id (.query tokens false) (.pulling library live index left)
        ⟨session, state, .closed⟩ =
      match live.step ⟨library, services.store, false⟩ with
      | .item item next => World.deliver ⟨session, state, .closed⟩ false library index left item next
      | .working next => .working (.pulling library next index left) ⟨session, state, .closed⟩
      | .waiting => World.waitAtGate ⟨session, state, .closed⟩ (.pulling library live index left)
      | .ended => .returned (.ok ()) ⟨session, state, .closed⟩ := by
  simp only [Command.behaviour, Command.step, World.pullQuery, if_neg hleft]
  rfl

/-- A query whose stream brings all that it looks at delivers the solutions and returns. -/
theorem completes_pulling (haccepts : services.sink.Accepts)
    (hruns : Runs Solutions.step moments live items last)
    (hmoments : ∀ moment ∈ moments, moment = ⟨library, services.store, false⟩)
    (hsufficient : Sufficient ⟨library, services.store, false⟩ left items last) (state : σ) :
    (Command.behaviour services).Completes id (.query tokens false)
      (.pulling library live index left) ⟨session, state, .closed⟩
      (firstError (wanted left items))
      ⟨session, services.sink.putAll state ((delivered index (wanted left items)).map (·.event id)),
        .closed⟩ := by
  induction hruns generalizing index left state with
  | refl live =>
      rw [wanted_nil]
      by_cases hleft : left = some 0
      · subst hleft
        exact completes_full id tokens library live index session state
      · have hended : live.step ⟨library, services.store, false⟩ = .ended := by
          rcases hsufficient with hended | ⟨count, rfl, hle⟩ | ⟨error, herror⟩
          · exact hended
          · simp only [List.length_nil, Nat.le_zero_eq] at hle
            simp [hle] at hleft
          · cases herror
        refine .returns ?_
        rw [step_pulling hleft, hended]
        rfl
  | @item moment moments live next last result items hstep _ ih =>
      obtain ⟨rfl, hlater⟩ := List.forall_mem_cons.mp hmoments
      by_cases hleft : left = some 0
      · subst hleft
        exact completes_full id tokens library live index session state
      · rw [wanted_cons hleft]
        cases result with
        | error error =>
            refine .returns ?_
            rw [step_pulling hleft, hstep]
            rfl
        | ok stack =>
            have hrest : Sufficient ⟨library, services.store, false⟩ (left.map (· - 1)) items
                last := by
              rcases hsufficient with hended | ⟨count, rfl, hle⟩ | ⟨error, herror⟩
              · exact .inl hended
              · refine .inr (.inl ⟨count - 1, rfl, ?_⟩)
                simp only [List.length_cons] at hle
                omega
              · refine .inr (.inr ⟨error, ?_⟩)
                simpa using herror
            have hpulls : (Command.behaviour services).step id (.query tokens false)
                (.pulling library live index left) ⟨session, state, .closed⟩ =
                  .working (.delivering library next index left stack)
                    ⟨session, state, .closed⟩ := by
              rw [step_pulling hleft, hstep]
              rfl
            have hputs : (Command.behaviour services).step id (.query tokens false)
                (.delivering library next index left stack) ⟨session, state, .closed⟩ =
                  .working (.pulling library next (index + 1) (left.map (· - 1)))
                    ⟨session, (services.sink.put state (.solution (some id) index stack)).1,
                      .closed⟩ := putThen_of_accepts haccepts _ _ _
            exact .works hpulls (.works hputs (ih hlater hrest _))
  | @working moment moments live next last items hstep _ ih =>
      obtain ⟨rfl, hlater⟩ := List.forall_mem_cons.mp hmoments
      by_cases hleft : left = some 0
      · subst hleft
        exact completes_full id tokens library live index session state
      · refine .works ?_ (ih hlater hsufficient state)
        rw [step_pulling hleft, hstep]

end Pulling

theorem Sink.putAll_append (sink : Sink σ) (state : σ) (events more : List Event) :
    sink.putAll state (events ++ more) = sink.putAll (sink.putAll state events) more :=
  List.foldl_append

theorem Outcome.status_returned (name : String) (outputs : List Output)
    (result : Except Failure Unit) :
    (Outcome.returned name outputs result).status = .ofResult false result := by
  cases result with
  | ok _ => rfl
  | error failure => rfl

theorem reported_returned (command : Command) (outputs : List Output)
    (result : Except Failure Unit) :
    (Command.behaviour services).reported id command
        ⟨session, services.sink.putAll state (outputs.map (·.event id)), gate⟩ result =
      ⟨session, services.sink.putAll state
        ((Outcome.returned command.name outputs result).outputs.map (·.event id)), gate⟩ := by
  cases result with
  | ok _ => rfl
  | error failure =>
      simp only [Outcome.returned, List.map_append, Sink.putAll_append]
      rfl

theorem step_act (services : Services σ) (id : CommandId) (w : World σ) {command : Command}
    {made : Except EvalError (Session × String)} (hact : w.session.act? command = some made) :
    (Command.behaviour services).step id command .ready w = w.announce made := by
  cases command with
  | define | directive =>
      cases hact
      rfl
  | query | script => cases hact

theorem step_announcing (services : Services σ) (id : CommandId) (w : World σ)
    {command : Command} {made : Except EvalError (Session × String)}
    (hact : session.act? command = some made) (text : String) :
    (Command.behaviour services).step id command (.announcing text) w =
      w.putLast services (.message (some id) text) := by
  cases command with
  | define | directive => rfl
  | query | script => cases hact

/-- Left alone, a command puts out what it comes to, and leaves the session as it should. -/
theorem Performs.completes (haccepts : services.sink.Accepts) {command : Command}
    {outcome : Outcome} (h : Performs services.store session command outcome) (id : CommandId)
    (state : σ) :
    ∃ outputs result, outcome = .returned command.name outputs result ∧
      (Command.behaviour services).Completes id command .ready ⟨session, state, .closed⟩ result
        ⟨session.leftBy command, services.sink.putAll state (outputs.map (·.event id)),
          .closed⟩ := by
  cases h with
  | @refused tokens aborted error hrefused =>
      refine ⟨[], .error (.eval error), rfl, .returns ?_⟩
      have hsurroundings : World.surroundings services ⟨session, state, .closed⟩ session.library
          aborted = ⟨session.library, services.store, aborted⟩ := rfl
      simp only [Command.behaviour, Command.step, World.beginQuery, hsurroundings, hrefused]
      rfl
  | @answered tokens live last moments items hlive hmoments hruns hsufficient =>
      refine ⟨_, _, rfl, .works ?_ (completes_pulling haccepts hruns hmoments hsufficient state)⟩
      have hsurroundings : World.surroundings services ⟨session, state, .closed⟩ session.library
          false = ⟨session.library, services.store, false⟩ := rfl
      simp only [Command.behaviour, Command.step, World.beginQuery, hsurroundings, hlive]
      rfl
  | @announced _ left text hact =>
      have hleft : session.leftBy command = left := by
        simp only [Session.leftBy, hact]
      have hfirst := step_act services id ⟨session, state, .closed⟩ hact
      have hlast := step_announcing services id ⟨left, state, .closed⟩ hact text
      rw [putLast_of_accepts haccepts] at hlast
      rw [hleft]
      exact ⟨[.message text], .ok (), rfl, .works hfirst (.returns hlast)⟩
  | @failed _ error hact =>
      have hleft : session.leftBy command = session := by
        simp only [Session.leftBy, hact]
      have hstep := step_act services id ⟨session, state, .closed⟩ hact
      rw [hleft]
      exact ⟨[], .error (.eval error), rfl, .returns hstep⟩

/-- The events that the commands with these numbers put out. -/
def eventsOf (ids : List CommandId) (outcomes : List Outcome) : List Event :=
  (ids.zip outcomes).flatMap fun (id, outcome) => outcome.outputs.map (·.event id)

/-- Run one by one, commands come to what each of them comes to in the session before it. -/
theorem PerformsAll.oneByOne (haccepts : services.sink.Accepts) {outcomes : List Outcome}
    {entries : List (CommandId × Command)}
    (h : PerformsAll services.store session (entries.map (·.2)) outcomes) (state : σ) :
    ∃ results, outcomes.map (·.status) = results.map (.ofResult false) ∧
      (Command.behaviour services).OneByOne ⟨session, state, .closed⟩ entries results
        ⟨(entries.map (·.2)).foldl Session.leftBy session,
          services.sink.putAll state (eventsOf (entries.map (·.1)) outcomes), .closed⟩ := by
  induction entries generalizing session outcomes state with
  | nil =>
      cases h with
      | nil => exact ⟨[], rfl, .nil _⟩
  | cons entry entries ih =>
      obtain ⟨id, command⟩ := entry
      cases h with
      | cons hfirst later =>
          obtain ⟨outputs, result, rfl, hcompletes⟩ := hfirst.completes haccepts id state
          obtain ⟨results, hstatus, hrest⟩ := ih later
            (services.sink.putAll state
              ((Outcome.returned command.name outputs result).outputs.map (·.event id)))
          refine ⟨result :: results, ?_, ?_⟩
          · simp only [List.map_cons, hstatus, Outcome.status_returned]
          · simp only [List.map_cons, eventsOf, List.zip_cons_cons, List.flatMap_cons,
              Sink.putAll_append, List.foldl_cons]
            refine .cons hcompletes ?_
            rw [reported_returned]
            exact hrest

end Running

end StackQuery
