import StackQuery.Line.Statement

/-!
Commands: queries, definitions, directives, and scripts.
-/

namespace StackQuery

/-- A command of which everything is laid down beforehand. -/
structure Script where
  name : String
  /-- The messages before the gate. -/
  before : List String
  /-- Whether the script waits at the gate. -/
  holds : Bool
  /-- The messages after the gate. -/
  after : List String
  ending : Except Failure Unit
  /-- An abort does not open the gate. -/
  ignoresAbort : Bool

inductive Command where
  /-- The abort signal of a query belongs to it. -/
  | query (tokens : List Token) (aborted : Bool)
  | define (name : String) (tokens : List Token)
  | directive (directive : Directive)
  | script (script : Script)

def Directive.name : Directive → String
  | .list => "list"
  | .help name => "help " ++ name
  | .undefine name => "undefine " ++ name

namespace Command

def name : Command → String
  | .query _ _ => "query"
  | .define name _ => "define " ++ name
  | .directive d => d.name
  | .script s => s.name

end Command

end StackQuery
