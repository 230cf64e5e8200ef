import StackQuery.Command
import StackQuery.CommandQueue
import StackQuery.Graph.Gate
import StackQuery.Session

/-!
Running commands, step by step.

A query pulls its solutions one at a time and puts each out before it pulls the
next.  Definitions and directives act at once and then put out one message.

A sink may take its time over an event.  To put one out therefore takes two
steps: the event is handed over at the end of one step, and in the next one the
sink answers.  Anything may happen in between; a query may be aborted there.
-/

namespace StackQuery

/-- What commands change: the session, the sink and the gate. -/
structure World (σ : Type) where
  session : Session
  sink : σ
  gate : Gate

/-- What commands only use: the sink, the store, and the predicate that the gate guards. -/
structure Services (σ : Type) where
  sink : Sink σ
  ask : Connection
  guarded : Option String

inductive Run where
  | ready
  /-- The library is the one that the query started with; `left` solutions are still wanted. -/
  | pulling (library : Library) (live : Solutions) (index : Nat) (left : Option Nat)
  /-- A solution has been handed to the sink, which has not answered yet. -/
  | delivering (library : Library) (live : Solutions) (index : Nat) (left : Option Nat)
      (stack : Stack)
  | announcing (text : String)
  | saying (before : List String)
  | holding
  | closing (after : List String)

/-! ## Definitions and directives -/

/-- The value that a token is written as in a definition. -/
def Token.value (l : Library) : Token → Except EvalError Value
  | .push v => .ok v
  | .call name => match l.resolve? name with
    | some op => .ok (.operator op)
    | none => .error (.undefined name)

def definitionOf (l : Library) (tokens : List Token) : Except EvalError Operator := do
  let steps ← Token.operators l tokens
  let source ← tokens.mapM (Token.value l)
  .ok (.composed steps (some source))

def bindingText (name : String) (op : Operator) : String := name ++ " := " ++ op.print

def Parameter.text (p : Parameter) : String :=
  match p.hint with
  | some hint => p.name ++ ":" ++ hint
  | none => p.name

def helpText (name : String) (op : Operator) : String :=
  match op with
  | .primitive p =>
      name ++ " [" ++ spaced (op.parameters.map Parameter.text) ++ "] " ++ p.comment
  | _ => bindingText name op

namespace Session

def runDefine (s : Session) (name : String) (tokens : List Token) :
    Except EvalError (Session × String) := do
  let op ← definitionOf s.library tokens
  let (s, _) ← s.define name op
  .ok (s, bindingText name op)

def runDirective (s : Session) : Directive → Except EvalError (Session × String)
  | .list => .ok (s, spaced (s.library.keywordList.map (·.1)))
  | .help name => match s.library.resolve? name with
    | some op => .ok (s, helpText name op)
    | none => .error (.undefined name)
  | .undefine name => do
      let (s, identifier) ← s.undefine name
      .ok (s, "undefined " ++ identifier)

end Session

/-! ## Steps -/

namespace World

variable {σ : Type}

/-- The sink answers for an event; the run goes on unless it is refused. -/
def putThen (services : Services σ) (w : World σ) (event : Event) (next : Run) :
    Activity Run (World σ) :=
  let (sink, result) := services.sink.put w.sink event
  match result with
  | .ok () => .working next { w with sink }
  | .error error => .returned (.error (.sink error)) { w with sink }

/-- The sink answers for an event that is the last thing a command does. -/
def putLast (services : Services σ) (w : World σ) (event : Event) : Activity Run (World σ) :=
  let (sink, result) := services.sink.put w.sink event
  .returned (result.mapError .sink) { w with sink }

/-- Announces what has been done to a session, or fails. -/
def announce (w : World σ) : Except EvalError (Session × String) → Activity Run (World σ)
  | .ok (session, text) => .working (.announcing text) { w with session }
  | .error error => .returned (.error (.eval error)) w

/-- Waits at the gate; the first step of that is to arrive there. -/
def waitAtGate (w : World σ) (run : Run) : Activity Run (World σ) :=
  match w.gate with
  | .closed => .working run { w with gate := w.gate.arrive }
  | _ => .waiting

/-- Passes the gate, which is closed behind whoever passes. -/
def passGate (w : World σ) : World σ := { w with gate := .closed }

def surroundings (services : Services σ) (w : World σ) (library : Library) (aborted : Bool) :
    Surroundings :=
  ⟨library, w.gate.connection services.guarded services.ask, aborted⟩

/-- Begins a query; its names are looked up, but nothing is pulled yet. -/
def beginQuery (services : Services σ) (w : World σ) (tokens : List Token) (aborted : Bool) :
    Activity Run (World σ) :=
  let library := w.session.library
  match evaluate (w.surroundings services library aborted) tokens [] with
  | .ok live => .working (.pulling library live 0 w.session.config.solutionLimit) w
  | .error error => .returned (.error (.eval error)) w

/-- Hands over what has been pulled, unless the query has been aborted. -/
def deliver (w : World σ) (aborted : Bool) (library : Library) (index : Nat) (left : Option Nat)
    (item : Item) (live : Solutions) : Activity Run (World σ) :=
  if aborted then .returned (.error (.eval .aborted)) w
  else match item with
    | .error error => .returned (.error (.eval error)) w
    | .ok stack => .working (.delivering library live index left stack) w

def pullQuery (services : Services σ) (w : World σ) (aborted : Bool) (library : Library)
    (live : Solutions) (index : Nat) (left : Option Nat) : Activity Run (World σ) :=
  if left = some 0 then .returned (.ok ()) w
  else match live.step (w.surroundings services library aborted) with
    | .item item next => w.passGate.deliver aborted library index left item next
    | .working next => .working (.pulling library next index left) w.passGate
    | .waiting => w.waitAtGate (.pulling library live index left)
    | .ended => .returned (.ok ()) w

/-- Goes on to pull once the sink has taken a solution; whether to stop is not looked at here. -/
def putSolution (services : Services σ) (w : World σ) (id : CommandId) (library : Library)
    (live : Solutions) (index : Nat) (left : Option Nat) (stack : Stack) :
    Activity Run (World σ) :=
  w.putThen services (.solution (some id) index stack)
    (.pulling library live (index + 1) (left.map (· - 1)))

def stepScript (services : Services σ) (w : World σ) (id : CommandId) (script : Script) :
    Run → Activity Run (World σ)
  | .saying (text :: rest) => w.putThen services (.message (some id) text) (.saying rest)
  | .saying [] => .working (if script.holds then .holding else .closing script.after) w
  | .holding => match w.gate with
    | .granted => .working (.closing script.after) w.passGate
    | _ => w.waitAtGate .holding
  | .closing (text :: rest) => w.putThen services (.message (some id) text) (.closing rest)
  | .closing [] => .returned script.ending w
  | _ => .working (.saying script.before) w

end World

namespace Command

variable {σ : Type}

def step (services : Services σ) (id : CommandId) (command : Command) (run : Run) (w : World σ) :
    Activity Run (World σ) :=
  match command with
  | .script s => w.stepScript services id s run
  | .query tokens aborted => match run with
    | .pulling library live index left => w.pullQuery services aborted library live index left
    | .delivering library live index left stack =>
        w.putSolution services id library live index left stack
    | _ => w.beginQuery services tokens aborted
  | .define name tokens => match run with
    | .announcing text => w.putLast services (.message (some id) text)
    | _ => w.announce (w.session.runDefine name tokens)
  | .directive d => match run with
    | .announcing text => w.putLast services (.message (some id) text)
    | _ => w.announce (w.session.runDirective d)

/-- A query that is aborted has its signal set, and does not wait any longer. -/
def abort (command : Command) (w : World σ) : Command × World σ :=
  match command with
  | .query tokens _ => (.query tokens true, { w with gate := w.gate.grant })
  | .script s =>
      (command, if s.ignoresAbort then w else { w with gate := w.gate.grant })
  | .define _ _ | .directive _ => (command, w)

def behaviour (services : Services σ) : Behaviour Command Run (World σ) where
  name := name
  start := fun _ => .ready
  step := step services
  abort := abort
  report := fun report w => { w with sink := (services.sink.put w.sink (.error report)).1 }

end Command

abbrev SessionQueue (σ : Type) := CommandQueue Command Run (World σ)

end StackQuery
