import StackQuery.Line.Token

/-!
The statements of a session, one to a line: a query, a definition, or another
directive after an at sign.
-/

namespace StackQuery

/-- Directives that are run as commands. -/
inductive Directive where
  | list
  | help (name : String)
  | undefine (name : String)
  deriving DecidableEq, Repr

inductive Statement where
  | query (tokens : List Token)
  | define (name : String) (tokens : List Token)
  | directive (directive : Directive)
  | quit
  | empty

namespace Statement

/-- The first word of a directive, and the rest without the white space around it. -/
def splitKeyword (cs : List Char) : List Char × List Char :=
  match Text.splitAtFirst? Text.isBlank cs with
  | some (keyword, rest) => (keyword, Text.trim rest)
  | none => (cs, [])

def singleName (keyword : String) (rest : List Char) : Except LineError String :=
  if rest.isEmpty || rest.any Text.isBlank then
    .error (.malformedDirective ("@" ++ keyword ++ " " ++ String.ofList rest))
  else .ok (String.ofList rest)

/-- A definition is a name, a colon and a query. -/
def readDefinition (rest : List Char) : Except LineError Statement :=
  match Text.splitAtFirst? (· == ':') rest with
  | none => .error (.malformedDirective ("@define " ++ String.ofList rest))
  | some (before, body) => do
      let name ← singleName "define" (Text.trim before)
      let tokens ← Token.ofLexemes (Lexeme.scan body)
      .ok (.define name tokens)

def readDirective (cs : List Char) : Except LineError Statement :=
  let (keyword, rest) := splitKeyword cs
  let keyword := String.ofList keyword
  if keyword = "quit" then .ok .quit
  else if keyword = "list" then .ok (.directive .list)
  else if keyword = "help" then
    (singleName keyword rest).map fun name => .directive (.help name)
  else if keyword = "undefine" then
    (singleName keyword rest).map fun name => .directive (.undefine name)
  else if keyword = "define" then readDefinition rest
  else .error (.unknownDirective keyword)

/-- The statement on a line; white space around it means nothing. -/
def read (line : String) : Except LineError Statement :=
  match Text.trim line.toList with
  | [] => .ok .empty
  | '@' :: rest => readDirective rest
  | cs => (Token.ofLexemes (Lexeme.scan cs)).map .query

end Statement

end StackQuery
