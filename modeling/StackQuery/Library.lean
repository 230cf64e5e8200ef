import StackQuery.Error
import StackQuery.Value.Printer
import Std.Data.ExtTreeMap

/-!
The operators that are loaded, by identifier and by keyword.

Every identifier is bound to one operator.  The keyword of an identifier is its
local name, and it leads to an identifier, so that a short word and a full
identifier can name the same operator.
-/

namespace StackQuery

/-- An operator, and the number of the registration that loaded it. -/
structure Loaded where
  operator : Operator
  registration : Nat

/-- Whether a registration may take identifiers that are in use. -/
inductive Policy where
  | reject
  | allowOverride
  deriving DecidableEq, Repr

/-- The identifiers and keywords in use, and the number of registrations so far. -/
structure Library where
  operators : Std.ExtTreeMap String Loaded
  keywords : Std.ExtTreeMap String String
  registrations : Nat

namespace Library

def empty : Library := ⟨∅, ∅, 0⟩

def size (l : Library) : Nat := l.operators.size

def isEmpty (l : Library) : Bool := l.operators.isEmpty

/-! ## Looking up -/

/-- What a name is bound to: an identifier first, and a keyword otherwise. -/
def find? (l : Library) (name : String) : Option Loaded :=
  match l.operators[name]? with
  | some loaded => some loaded
  | none => l.keywords[name]? >>= fun identifier => l.operators[identifier]?

def resolve? (l : Library) (name : String) : Option Operator := (l.find? name).map (·.operator)

def contains (l : Library) (name : String) : Bool := (l.resolve? name).isSome

/-- The identifier that a name leads to. -/
def leadsTo? (l : Library) (name : String) : Option String :=
  if l.operators.contains name then some name
  else l.keywords[name]?.filter fun identifier => l.operators.contains identifier

/-- Whether two names lead to one registration; nothing if one of them leads nowhere. -/
def sameRegistration? (l : Library) (a b : String) : Option Bool := do
  let x ← l.find? a
  let y ← l.find? b
  some (x.registration == y.registration)

/-- The keywords in order, with the operators they stand for. -/
def keywordList (l : Library) : List (String × Operator) :=
  l.keywords.toList.filterMap fun (keyword, identifier) =>
    l.operators[identifier]?.map fun loaded => (keyword, loaded.operator)

/-! ## Registering -/

/-- The first identifier that is loaded already or occurs earlier in the list. -/
def firstConflict? (l : Library) (seen : List String) : List String → Option DuplicateError
  | [] => none
  | identifier :: rest =>
      if l.operators.contains identifier then some (.taken identifier)
      else if seen.contains identifier then some (.repeated identifier)
      else firstConflict? l (identifier :: seen) rest

/--
Binds one identifier of a registration.  Its keyword keeps the identifier it
leads to, unless the canonical identifier itself is overriding.
-/
def bind (loaded : Loaded) (canonical : String) (policy : Policy) (l : Library)
    (identifier : String) : Library :=
  let keyword := Vocabulary.localName identifier
  let keywords :=
    if policy = .allowOverride ∧ identifier = canonical then l.keywords.insert keyword canonical
    else l.keywords.insertIfNew keyword canonical
  { l with operators := l.operators.insert identifier loaded, keywords }

/--
Loads an operator under a list of identifiers, the first of which is canonical.
Either all of them are bound, or the library stays as it was.
-/
def registerUnder (l : Library) (identifiers : List String) (op : Operator) (policy : Policy) :
    Except DuplicateError Library :=
  match identifiers with
  | [] => .error (.unnamed op.print)
  | canonical :: _ =>
      match if policy = .reject then l.firstConflict? [] identifiers else none with
      | some conflict => .error conflict
      | none =>
          let loaded : Loaded := ⟨op, l.registrations⟩
          .ok (identifiers.foldl (bind loaded canonical policy)
            { l with registrations := l.registrations + 1 })

/-- Loads an operator under its own identifiers, none of which may be in use. -/
def register (l : Library) (op : Operator) : Except DuplicateError Library :=
  l.registerUnder op.identifiers op .reject

/--
Adds all that another library has loaded.  Its registrations stay distinct from
one's own.
-/
def merge (l other : Library) (policy : Policy) : Except DuplicateError Library :=
  match if policy = .reject then other.operators.keys.find? l.operators.contains else none with
  | some identifier => .error (.taken identifier)
  | none =>
      .ok {
        operators := other.operators.toList.foldl
          (fun operators (identifier, loaded) => operators.insert identifier
            ⟨loaded.operator, l.registrations + loaded.registration⟩) l.operators
        keywords := other.keywords.toList.foldl
          (fun keywords (keyword, identifier) =>
            if policy = .allowOverride then keywords.insert keyword identifier
            else keywords.insertIfNew keyword identifier) l.keywords
        registrations := l.registrations + other.registrations }

/-! ## Unregistering -/

/-- The greatest identifier with a local name. -/
def lastNamed? (l : Library) (keyword : String) : Option String :=
  (l.operators.keys.filter fun identifier => Vocabulary.localName identifier == keyword).getLast?

/--
Takes away the identifier that a name leads to.  If its keyword led there, it
now leads to the greatest identifier left with that local name, if any.
-/
def unregister (l : Library) (name : String) : Option (Operator × Library) := do
  let identifier ← l.leadsTo? name
  let removed ← l.operators[identifier]?
  let rest := { l with operators := l.operators.erase identifier }
  let keyword := Vocabulary.localName identifier
  if l.keywords[keyword]? = some identifier then
    match rest.lastNamed? keyword with
    | some next => some (removed.operator, { rest with keywords := l.keywords.insert keyword next })
    | none => some (removed.operator, { rest with keywords := l.keywords.erase keyword })
  else some (removed.operator, rest)

/-! ## Written form -/

def debugText (l : Library) : String :=
  "Library \x7b identifiers: " ++ Nat.repr l.operators.size ++ ", keywords: " ++
    Nat.repr l.keywords.size ++ " \x7d"

end Library

end StackQuery
