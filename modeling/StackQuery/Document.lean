import StackQuery.Document.Lexeme

/-!
Documents: constants, numbers and strings, nested in arrays and objects.

A document is read strictly.  Nothing but white space may stand around it,
commas stand between members only, and numbers have no superfluous zeros.
Members keep their order, and an object may name a member twice.
-/

namespace StackQuery

inductive Document where
  | null
  | boolean (b : Bool)
  /-- A number written with digits alone. -/
  | natural (n : Nat)
  /-- Any other number. -/
  | number
  /-- The text is missing if the units of the string do not make up characters. -/
  | string (text : Option String)
  | array (items : List Document)
  | object (members : List (Option String × Document))

namespace Document

/-! ## Numbers -/

/-- What follows a run of digits, which may not be empty. -/
def afterDigits? : List Char → Option (List Char)
  | c :: rest => if Decimal.isDigit c then some (rest.dropWhile Decimal.isDigit) else none
  | [] => none

/-- What follows a whole number, which begins with a zero only if it is zero. -/
def afterWhole? : List Char → Option (List Char)
  | '0' :: rest => some rest
  | cs => afterDigits? cs

def afterFraction? : List Char → Option (List Char)
  | '.' :: rest => afterDigits? rest
  | cs => some cs

def afterPower? : List Char → Option (List Char)
  | [] => some []
  | c :: rest =>
      if c = 'e' ∨ c = 'E' then afterDigits? (Decimal.splitSign rest).2 else some (c :: rest)

/-- A whole number, with a minus sign, a fraction and a power of ten if there are any. -/
def isNumber (cs : List Char) : Bool :=
  let unsigned := match cs with
    | '-' :: rest => rest
    | _ => cs
  (afterWhole? unsigned >>= afterFraction? >>= afterPower?) == some []

def ofWord? (cs : List Char) : Option Document :=
  match cs with
  | ['n', 'u', 'l', 'l'] => some .null
  | ['t', 'r', 'u', 'e'] => some (.boolean true)
  | ['f', 'a', 'l', 's', 'e'] => some (.boolean false)
  | _ =>
      if !isNumber cs then none
      else if cs.all Decimal.isDigit then some (.natural (Decimal.digitsValue cs))
      else some .number

/-! ## Putting documents together -/

/-- An array or an object that is open, its members last first. -/
inductive Level where
  | array (items : List Document)
  | object (members : List (Option String × Document))
  /-- An object of which a member has been named. -/
  | member (members : List (Option String × Document)) (name : Option String)

/-- What may come next. -/
inductive Expected where
  | item
  /-- An item, or the end of the array. -/
  | firstItem
  | name
  /-- A name, or the end of the object. -/
  | firstName
  | colon
  /-- A comma, or the end of the array or object. -/
  | more
  | nothing
  deriving DecidableEq, Repr

/-- What has been read: the open levels, innermost first, and the document once it is whole. -/
structure Assembly where
  levels : List Level
  expected : Expected
  whole : Option Document

namespace Assembly

def start : Assembly := ⟨[], .item, none⟩

/-- Adds a whole document to the innermost level that is open. -/
def add (levels : List Level) (d : Document) : Assembly :=
  match levels with
  | [] => ⟨[], .nothing, some d⟩
  | .array items :: outer => ⟨.array (d :: items) :: outer, .more, none⟩
  | .object members :: outer => ⟨.object members :: outer, .more, none⟩
  | .member members name :: outer => ⟨.object ((name, d) :: members) :: outer, .more, none⟩

/-- Whether the array or object that is open may end here. -/
def mayClose (a : Assembly) : Bool :=
  a.expected = .firstItem || a.expected = .firstName || a.expected = .more

/-- Takes an item in where one may stand. -/
def addItem? (a : Assembly) (d : Document) : Option Assembly :=
  if a.expected = .item ∨ a.expected = .firstItem then some (add a.levels d) else none

/-- Opens a level where an item may stand. -/
def open? (a : Assembly) (level : Level) (expected : Expected) : Option Assembly :=
  if a.expected = .item ∨ a.expected = .firstItem then some ⟨level :: a.levels, expected, none⟩
  else none

def take? (a : Assembly) : Lexeme → Option Assembly
  | .openArray => a.open? (.array []) .firstItem
  | .openObject => a.open? (.object []) .firstName
  | .closeArray => match a.levels with
    | .array items :: outer => if a.mayClose then some (add outer (.array items.reverse)) else none
    | _ => none
  | .closeObject => match a.levels with
    | .object members :: outer =>
        if a.mayClose then some (add outer (.object members.reverse)) else none
    | _ => none
  | .colon => if a.expected = .colon then some { a with expected := .item } else none
  | .comma => match a.expected, a.levels with
    | .more, .array _ :: _ => some { a with expected := .item }
    | .more, .object _ :: _ => some { a with expected := .name }
    | _, _ => none
  | .string pieces => match a.expected, a.levels with
    | .name, .object members :: outer | .firstName, .object members :: outer =>
        some ⟨.member members (text? pieces) :: outer, .colon, none⟩
    | _, _ => a.addItem? (.string (text? pieces))
  | .word characters => ofWord? characters >>= a.addItem?
  | .broken => none

end Assembly

def ofLexemes? (lexemes : List Lexeme) : Option Document := do
  let assembly ← lexemes.foldlM Assembly.take? Assembly.start
  assembly.whole

def read? (text : String) : Option Document := ofLexemes? (Lexeme.scan text.toList)

end Document

end StackQuery
