import StackQuery.Prompt
import StackQuery.Sink.Broadcast
import StackQuery.CommandQueue.Worker

/-!
The command line.

Statements are read from standard input, one to a line.  Solutions and messages
are printed on standard output, failures and their causes on standard error.
-/

namespace StackQuery

namespace CommandLine

/-! ## Options -/

structure Options where
  /-- The file that the configuration is read from. -/
  config : Option String := none
  verbose : Bool := false
  deriving DecidableEq, Repr

def Options.defaultFile : String := "ripple.json"

def Options.file (o : Options) : String := o.config.getD defaultFile

/-- Each option may be given once, and a file must have a name. -/
def Options.setConfig? (o : Options) (file : String) : Option Options :=
  if o.config.isSome || file.isEmpty then none else some { o with config := some file }

def Options.setVerbose? (o : Options) : Option Options :=
  if o.verbose then none else some { o with verbose := true }

/-- Reads the letters of short options; the file may follow its letter directly. -/
def Options.readLetters? (o : Options) : List Char → Option (Options × Bool)
  | [] => some (o, false)
  | ['c'] => some (o, true)
  | 'c' :: '=' :: file => (o.setConfig? (String.ofList file)).map (·, false)
  | 'c' :: file => (o.setConfig? (String.ofList file)).map (·, false)
  | 'v' :: rest => o.setVerbose? >>= fun o => o.readLetters? rest
  | _ => none

/-- Reads one argument; the second part says whether a file has to follow. -/
def Options.readArgument? (o : Options) (argument : String) : Option (Options × Bool) :=
  if argument = "--verbose" then o.setVerbose?.map (·, false)
  else if argument = "--config" then some (o, true)
  else if argument.startsWith "--config=" then
    (o.setConfig? (String.ofList (argument.toList.drop 9))).map (·, false)
  else match argument.toList with
    | '-' :: letter :: rest => o.readLetters? (letter :: rest)
    | _ => none

/-- Reads the arguments; after two dashes there may be nothing more. -/
def Options.readFrom? (o : Options) : List String → Option Options
  | [] => some o
  | ["--"] => some o
  | argument :: rest =>
      match o.readArgument? argument, rest with
      | some (o, false), rest => o.readFrom? rest
      | some (o, true), file :: rest =>
          if file.startsWith "-" && file ≠ "-" then none
          else o.setConfig? file >>= fun o => o.readFrom? rest
      | _, _ => none

def Options.read? (arguments : List String) : Option Options := Options.readFrom? {} arguments

/-! ## Running -/

structure Outcome where
  code : Nat
  output : List String
  errors : List String
  deriving DecidableEq, Repr

/-- A missing file stands for a configuration in which nothing is set. -/
def configuration (file : String) : Config.Opened → Except ConfigError Config
  | .missing => .ok {}
  | opened => Config.ofFile file opened

/-- The lines of a text; a carriage return before the line feed belongs to it. -/
def lines (text : String) : List String :=
  let parts := text.splitOn "\n"
  let ended := parts.dropLast.map fun part =>
    if part.endsWith "\r" then String.ofList part.toList.dropLast else part
  match parts.getLast? with
  | some "" | none => ended
  | some rest => ended ++ [rest]

def outputText? : Event → Option String
  | .solution _ index stack => some ("  [" ++ Nat.repr (index + 1) ++ "] " ++ stack.print)
  | .message _ text => some ("  " ++ text)
  | .error _ => none

def errorTexts : Event → List String
  | .error report =>
      ("Error: " ++ report.message) :: report.causes.map ("  caused by: " ++ ·)
  | _ => []

/-- Takes in lines up to the one that ends the session. -/
def enterAll (services : Services EventLog) (q : SessionQueue EventLog) :
    List String → SessionQueue EventLog
  | [] => q
  | line :: rest =>
      match SessionQueue.handle services q (.line line) with
      | (q, .quit) => q
      | (q, _) => enterAll services q rest

def services : Services EventLog := ⟨EventLog.sink, Store.empty.connection, none⟩

/-- The sizes that a buffer can have: it holds an event, and memory can hold it. -/
def isBufferSize (size : Nat) : Bool := decide (0 < size ∧ size < 0x200000000000000)

def runSession (config : Config) (fuel : Nat) (input : List String) : Outcome :=
  let start : SessionQueue EventLog := .empty ⟨.standard config, .empty none, .closed⟩
  let behaviour := Command.behaviour services
  let q := (enterAll services start input).settle behaviour fuel
  let (q, ending) := q.shutdown behaviour fuel config.shutdownTimeout
  let events := q.world.sink.events.toList
  let errors := events.flatMap errorTexts
  match ending with
  | .ok () => ⟨0, events.filterMap outputText?, errors⟩
  | .error failure =>
      ⟨1, events.filterMap outputText?, errors ++ ["Error: " ++ failure.message]⟩

/--
Runs a session with what was found where the configuration should be.  Nothing
is read if there is no configuration or no buffer of the size it asks for.
-/
def run (file : String) (opened : Config.Opened) (fuel : Nat) (input : String) : Outcome :=
  match configuration file opened with
  | .error error => ⟨1, [], ["Error: " ++ (Failure.config error).message]⟩
  | .ok config =>
      if isBufferSize config.outputBufferSize then runSession config fuel (lines input)
      else ⟨101, [], []⟩

def usage : List String :=
  ["error: unexpected argument", "", "Usage: [--config <CONFIG>] [--verbose]"]

end CommandLine

end StackQuery
