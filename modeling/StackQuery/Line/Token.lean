import StackQuery.Error
import StackQuery.Evaluation
import StackQuery.Line.Lexeme

/-!
The tokens of a query.

Words are numbers, resources between angle brackets, or names.  At the top
level a name is called; inside parentheses it is a resource, so that a list can
be run as a program later.
-/

namespace StackQuery

inductive Word where
  | value (value : Value)
  | name (name : String)

namespace Word

def startsDecimal (c : Char) : Bool := Decimal.isDigit c || c == '-' || c == '+' || c == '.'

def bracketed? (cs : List Char) : Option (List Char) :=
  match cs with
  | '<' :: rest => if rest.getLast? = some '>' then some rest.dropLast else none
  | _ => none

def readDecimal? (cs : List Char) : Option Decimal :=
  if cs.head?.any startsDecimal then Decimal.read? cs else none

def ofChars (cs : List Char) : Word :=
  match Number.readInteger? cs with
  | some i => .value (.number (.integer i))
  | none =>
      match readDecimal? cs with
      | some d => .value (.number (.decimal d))
      | none =>
          match bracketed? cs with
          | some identifier => .value (.resource (String.ofList identifier))
          | none => .name (String.ofList cs)

/-- Inside parentheses a name is a resource. -/
def toMember : Word → Value
  | .value v => v
  | .name word => .resource word

/-- At the top level a name is called. -/
def toToken : Word → Token
  | .value v => .push v
  | .name word => .call word

end Word

namespace Token

/-- What has been read: the lists that are open, innermost first, and the tokens, all last first. -/
structure Assembly where
  lists : List (List Value)
  tokens : List Token

/-- Adds a word to the innermost list that is open, or to the tokens. -/
def Assembly.add (a : Assembly) (w : Word) : Assembly :=
  match a.lists with
  | [] => { a with tokens := w.toToken :: a.tokens }
  | members :: outer => { a with lists := (w.toMember :: members) :: outer }

def Assembly.take (a : Assembly) : Lexeme → Except LineError Assembly
  | .string contents => .ok (a.add (.value (.text (String.ofList (Text.unescape contents)))))
  | .opening => .ok { a with lists := [] :: a.lists }
  | .closing => match a.lists with
    | [] => .error .unbalancedParentheses
    | members :: outer =>
        .ok (Assembly.add { a with lists := outer } (.value (.list members.reverse)))
  | .word characters => .ok (a.add (.ofChars characters))
  | .unterminated => .error .unterminatedString

/-- A full stop at the end of a query, given last token first, means nothing. -/
def dropFullStop : List Token → List Token
  | .call "." :: tokens => tokens
  | tokens => tokens

def Assembly.finish (a : Assembly) : Except LineError (List Token) :=
  if a.lists.isEmpty then .ok (dropFullStop a.tokens).reverse
  else .error .unbalancedParentheses

def ofLexemes (lexemes : List Lexeme) : Except LineError (List Token) := do
  let assembly ← lexemes.foldlM Assembly.take ⟨[], []⟩
  assembly.finish

def read (text : String) : Except LineError (List Token) := ofLexemes (Lexeme.scan text.toList)

end Token

end StackQuery
