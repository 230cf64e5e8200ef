import StackQuery.Document
import StackQuery.Error

/-!
Configurations of a session.

A configuration is an object whose members name settings, or an array of the
settings in order.  What is not given has its usual value, and members with
other names mean nothing.
-/

namespace StackQuery

structure Config where
  /-- How many solutions a query delivers at most; all of them if nothing is set. -/
  solutionLimit : Option Nat := none
  outputBufferSize : Nat := 1000
  /-- How long a shutdown waits for the worker, in milliseconds. -/
  shutdownTimeout : Nat := 5000
  logFilter : String := "info"
  deriving DecidableEq, Repr

inductive Setting where
  | solutionLimit
  | outputBufferSize
  | shutdownTimeout
  | logFilter
  deriving DecidableEq, Repr

namespace Setting

/-- The settings in the order that an array gives them in. -/
def all : List Setting := [.solutionLimit, .outputBufferSize, .shutdownTimeout, .logFilter]

def name : Setting → String
  | .solutionLimit => "solution_limit"
  | .outputBufferSize => "output_buffer_size"
  | .shutdownTimeout => "shutdown_timeout"
  | .logFilter => "log_filter"

def ofName? (name : String) : Option Setting := all.find? fun setting => setting.name == name

end Setting

namespace Config

/-- A size fits into sixty-four bits. -/
def size? : Document → Option Nat
  | .natural n => if n < UInt64.size then some n else none
  | _ => none

def set? (config : Config) (setting : Setting) (d : Document) : Option Config :=
  match setting with
  | .solutionLimit => match d with
    | .null => some { config with solutionLimit := none }
    | _ => (size? d).map fun n => { config with solutionLimit := some n }
  | .outputBufferSize => (size? d).map fun n => { config with outputBufferSize := n }
  | .shutdownTimeout => (size? d).map fun n => { config with shutdownTimeout := n }
  | .logFilter => match d with
    | .string (some text) => some { config with logFilter := text }
    | _ => none

def setAll? (values : List (Setting × Document)) : Option Config :=
  values.foldlM (fun config (setting, d) => config.set? setting d) {}

/-- The settings that the members of an object give; their names must be readable. -/
def settings? : List (Option String × Document) → Option (List (Setting × Document))
  | [] => some []
  | (none, _) :: _ => none
  | (some name, d) :: rest => (settings? rest).map fun settings =>
      match Setting.ofName? name with
      | some setting => (setting, d) :: settings
      | none => settings

/-- The configuration that a document gives; no setting may be given twice. -/
def ofDocument? : Document → Option Config
  | .object members => do
      let values ← settings? members
      if (values.map (·.1)).Nodup then setAll? values else none
  | .array items =>
      if items.length ≤ Setting.all.length then setAll? (Setting.all.zip items) else none
  | _ => none

def read (text : String) : Except ConfigError Config :=
  match Document.read? text >>= ofDocument? with
  | some config => .ok config
  | none => .error .malformed

/-! ## Files -/

inductive Opened where
  | missing
  | failed (reason : String)
  | contents (text : String)
  /-- Opened, but there is no text to be read from it, as from a directory. -/
  | unreadable

def ofFile (path : String) : Opened → Except ConfigError Config
  | .missing => .error (.notOpened path "No such file or directory (os error 2)")
  | .failed reason => .error (.notOpened path reason)
  | .unreadable => .error .malformed
  | .contents text => read text

end Config

end StackQuery
