import StackQuery.Number
import StackQuery.Text.Blank
import StackQuery.Text.Lowercase
import StackQuery.Text.Quoted
import StackQuery.Vocabulary

/-!
Literals of a graph: a lexical form with a datatype or a language.

Literals of the known datatypes denote native values, which is how a literal
and a number or a text come to be compared.
-/

namespace StackQuery

/-- A lexical form, with the identifier of its datatype or its language tag. -/
structure Literal where
  lexical : String
  datatype : Option String
  language : Option String
  deriving DecidableEq, Repr

inductive Native where
  | number (value : Number)
  | text (value : String)
  | boolean (value : Bool)
  deriving DecidableEq, Repr

namespace Literal

def plain (lexical : String) : Literal := ⟨lexical, none, none⟩

def typed (lexical datatype : String) : Literal := ⟨lexical, some datatype, none⟩

/-- Language tags are kept in lower case. -/
def tagged (lexical language : String) : Literal := ⟨lexical, none, some (Text.lowercase language)⟩

/-! ## Denotation -/

/-- Truth values are written as words or as digits. -/
def readBoolean? (lexical : List Char) : Option Bool :=
  let s := String.ofList lexical
  if s = "true" ∨ s = "1" then some true
  else if s = "false" ∨ s = "0" then some false
  else none

/-- An integer may have any number of plus signs before its own sign. -/
def readInteger? (lexical : List Char) : Option Int64 :=
  Number.readInteger? (lexical.dropWhile (· == '+'))

/-- The special values have names of their own; all else is read as a decimal. -/
def readDecimal? (lexical : List Char) : Option Decimal :=
  let s := String.ofList lexical
  if s = "INF" then some (Decimal.infinity false)
  else if s = "-INF" then some (Decimal.infinity true)
  else if s = "NaN" then some (Decimal.nan false)
  else Decimal.read? lexical

/-- The part of a datatype after the namespace of the known datatypes. -/
def knownType? (datatype : String) : Option String :=
  if Vocabulary.xsd.toList.isPrefixOf datatype.toList then
    some (String.ofList (datatype.toList.drop Vocabulary.xsd.toList.length))
  else none

/--
The value that a literal denotes, if its datatype is known and its lexical form
fits it.  White space around the form is passed over except in text.
-/
def native? (l : Literal) : Option Native :=
  match l.language, l.datatype with
  | some _, _ => none
  | none, none => some (.text l.lexical)
  | none, some datatype => do
      let name ← knownType? datatype
      let lexical := Text.trim l.lexical.toList
      if name = "string" then some (.text l.lexical)
      else if name = "boolean" then (readBoolean? lexical).map .boolean
      else if Vocabulary.integerTypes.contains name then
        (readInteger? lexical).map (.number ∘ .integer)
      else if Vocabulary.decimalTypes.contains name then
        (readDecimal? lexical).map (.number ∘ .decimal)
      else none

/-! ## Written form -/

/-- The language is written where there is one, and otherwise the datatype. -/
def text (l : Literal) : String :=
  Text.quote l.lexical ++
    match l.language, l.datatype with
    | some language, _ => "@" ++ language
    | none, some datatype => "^^<" ++ datatype ++ ">"
    | none, none => ""

end Literal

end StackQuery
