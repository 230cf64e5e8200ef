/-!
What can go wrong, by cause, and how each cause is worded.
-/

namespace StackQuery

/-- What a value was read as. -/
inductive Target where
  | number
  | boolean
  | list
  | operator
  | resource
  deriving DecidableEq, Repr

def Target.text : Target → String
  | .number => "number"
  | .boolean => "boolean"
  | .list => "list"
  | .operator => "operator"
  | .resource => "resource"

inductive ErrorKind where
  | undefinedOperator
  | arity
  | coercion
  | unsupportedOperation
  | duplicateIdentifier
  | externalStore
  | aborted
  | line
  | sink
  | config
  | channel
  | internal
  deriving DecidableEq, Repr

def ErrorKind.text : ErrorKind → String
  | .undefinedOperator => "UndefinedOperator"
  | .arity => "Arity"
  | .coercion => "Coercion"
  | .unsupportedOperation => "UnsupportedOperation"
  | .duplicateIdentifier => "DuplicateIdentifier"
  | .externalStore => "ExternalStore"
  | .aborted => "Aborted"
  | .line => "Syntax"
  | .sink => "Sink"
  | .config => "Config"
  | .channel => "Io"
  | .internal => "Internal"

/-! ## Registration -/

/-- Why an operator could not be registered. -/
inductive DuplicateError where
  /-- Another operator has the identifier. -/
  | taken (identifier : String)
  | repeated (identifier : String)
  /-- The operator has no identifier at all. -/
  | unnamed (operator : String)
  deriving DecidableEq, Repr

namespace DuplicateError

def message : DuplicateError → String
  | .taken identifier => "Duplicate identifier: " ++ identifier
  | .repeated identifier => "Identifier listed more than once: " ++ identifier
  | .unnamed operator => "Operator " ++ operator ++ " has no identifier to register under"

def identifier? : DuplicateError → Option String
  | .taken identifier | .repeated identifier => some identifier
  | .unnamed _ => none

end DuplicateError

/-! ## Store calls -/

/-- A failure of the graph store, with what it says lies behind it. -/
structure StoreError where
  message : String
  sources : List String
  deriving DecidableEq, Repr

/-! ## Evaluation -/

/-- Operations that an operator, or a name, does not have. -/
inductive Unsupported where
  | noInverse (operator : String)
  | inverseNotLoaded (identifier operator : String)
  | constantInverse (value : String)
  | builtIn (identifier : String)
  | other (text : String)
  deriving DecidableEq, Repr

def Unsupported.text : Unsupported → String
  | .noInverse operator => operator ++ " has no inverse"
  | .inverseNotLoaded identifier operator =>
      "inverse " ++ identifier ++ " of " ++ operator ++ " is not loaded"
  | .constantInverse value => "constant " ++ value ++ " has no inverse"
  | .builtIn identifier => identifier ++ " is built in and cannot be undefined"
  | .other text => text

inductive EvalError where
  | undefined (identifier : String)
  | arity (operator : String) (expected found : Nat)
  | coercion (value : String) (target : Target)
  | unsupported (operation : Unsupported)
  | duplicate (error : DuplicateError)
  | store (error : StoreError)
  | aborted
  deriving DecidableEq, Repr

namespace EvalError

def message : EvalError → String
  | .undefined identifier => "Undefined operator: " ++ identifier
  | .arity operator expected found =>
      "Arity error: " ++ operator ++ " expects " ++ Nat.repr expected ++ " stack items, found " ++
        Nat.repr found
  | .coercion value target => "Coercion error: cannot interpret " ++ value ++ " as " ++ target.text
  | .unsupported operation => "Unsupported operation: " ++ operation.text
  | .duplicate error => error.message
  | .store error => "External store error: " ++ error.message
  | .aborted => "Evaluation aborted"

def kind : EvalError → ErrorKind
  | .undefined _ => .undefinedOperator
  | .arity _ _ _ => .arity
  | .coercion _ _ => .coercion
  | .unsupported _ => .unsupportedOperation
  | .duplicate _ => .duplicateIdentifier
  | .store _ => .externalStore
  | .aborted => .aborted

/-- What lies behind the failure, nearest first. -/
def sources : EvalError → List String
  | .store error => error.message :: error.sources
  | _ => []

end EvalError

/-! ## Lines, sinks, configurations -/

inductive LineError where
  | unterminatedString
  | unbalancedParentheses
  | unknownDirective (keyword : String)
  | malformedDirective (text : String)
  deriving DecidableEq, Repr

def LineError.message : LineError → String
  | .unterminatedString => "Unterminated string literal"
  | .unbalancedParentheses => "Unbalanced parentheses"
  | .unknownDirective keyword => "Unknown directive: @" ++ keyword
  | .malformedDirective text => "Malformed directive: " ++ text

/-- Why an event was not passed on. -/
inductive SinkError where
  | receiveFailed (reason : String)
  | lagged (count : Nat)
  deriving DecidableEq, Repr

def SinkError.message : SinkError → String
  | .receiveFailed reason => "Receive failed: " ++ reason
  | .lagged count => "Receiver lagged behind by " ++ Nat.repr count ++ " events"

inductive ConfigError where
  | notOpened (path reason : String)
  | malformed
  deriving DecidableEq, Repr

namespace ConfigError

def message : ConfigError → String
  | .notOpened path reason => "Failed to open config file " ++ path ++ ": " ++ reason
  | .malformed => "Failed to parse config"

def sources : ConfigError → List String
  | .notOpened _ reason => [reason]
  | .malformed => []

end ConfigError

/-! ## Failures of a command -/

/--
A time span in milliseconds, in the largest of seconds, milliseconds and
nanoseconds that leaves a whole part, without zeros at the end of the fraction.
-/
def durationText (milliseconds : Nat) : String :=
  if milliseconds = 0 then "0ns"
  else if milliseconds < 1000 then Nat.repr milliseconds ++ "ms"
  else
    let places := (Nat.repr (1000 + milliseconds % 1000)).toList.drop 1
    let fraction := (places.reverse.dropWhile (· == '0')).reverse
    let point := if fraction.isEmpty then [] else '.' :: fraction
    Nat.repr (milliseconds / 1000) ++ String.ofList point ++ "s"

/-- Failures inside the scheduler, and those that a command makes up. -/
inductive InternalError where
  | shutdownTimeout (milliseconds : Nat)
  | stated (text : String)
  deriving DecidableEq, Repr

def InternalError.text : InternalError → String
  | .shutdownTimeout milliseconds =>
      "scheduler shutdown timed out after " ++ durationText milliseconds
  | .stated text => text

inductive Failure where
  | eval (error : EvalError)
  | sink (error : SinkError)
  | line (error : LineError)
  | config (error : ConfigError)
  | channel (text : String)
  | internal (error : InternalError)
  deriving DecidableEq, Repr

namespace Failure

def message : Failure → String
  | .eval error => "Eval error: " ++ error.message
  | .sink error => "Sink error: " ++ error.message
  | .line error => "Syntax error: " ++ error.message
  | .config error => "Config error: " ++ error.message
  | .channel text => "IO error: " ++ text
  | .internal error => "Internal error: " ++ error.text

def kind : Failure → ErrorKind
  | .eval error => error.kind
  | .sink _ => .sink
  | .line _ => .line
  | .config _ => .config
  | .channel _ => .channel
  | .internal _ => .internal

def causes : Failure → List String
  | .eval error => error.message :: error.sources
  | .sink error => [error.message]
  | .line error => [error.message]
  | .config error => error.message :: error.sources
  | .channel text => [text]
  | .internal _ => []

def isAborted : Failure → Bool
  | .eval .aborted => true
  | _ => false

end Failure

end StackQuery
