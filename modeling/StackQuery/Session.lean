import StackQuery.Config
import StackQuery.Evaluation
import StackQuery.Library.Standard

/-!
What the commands of one session share.

A query keeps the library that it started with.  Definitions have identifiers
of their own, so that a definition covers a standard word of the same name and
uncovers it again when it goes.
-/

namespace StackQuery

/-- The identifier under which a name is defined. -/
def Vocabulary.userIdentifier (name : String) : String := Vocabulary.user ++ name

def Vocabulary.isUser (identifier : String) : Bool :=
  Vocabulary.user.toList.isPrefixOf identifier.toList

structure Session where
  library : Library
  config : Config

namespace Session

def standard (config : Config) : Session := ⟨.standard, config⟩

/-- Binds a name, whatever it was bound to, and gives the identifier of the definition. -/
def define (s : Session) (name : String) (op : Operator) : Except EvalError (Session × String) :=
  let identifier := Vocabulary.userIdentifier name
  match s.library.registerUnder [identifier] op .allowOverride with
  | .ok library => .ok ({ s with library }, identifier)
  | .error error => .error (.duplicate error)

/-- Takes a definition away, and gives its identifier.  Standard words stay. -/
def undefine (s : Session) (name : String) : Except EvalError (Session × String) :=
  match s.library.leadsTo? name with
  | none => .error (.undefined name)
  | some identifier =>
      if Vocabulary.isUser identifier then
        match s.library.unregister identifier with
        | some (_, library) => .ok ({ s with library }, identifier)
        | none => .ok (s, identifier)
      else .error (.unsupported (.builtIn identifier))

end Session

end StackQuery
