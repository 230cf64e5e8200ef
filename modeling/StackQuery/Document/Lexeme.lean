import StackQuery.Decimal.Text

/-!
The lexemes of a document.

One pass over the characters, left to right: brackets, colons and commas stand
alone, a string runs from quote to quote, white space separates, and a word is
as long as it can be.  Escapes in strings are taken apart here; whether the
units they name make up characters is asked only of strings that are used.
-/

namespace StackQuery.Document

/-- A part of a string: a character, or a unit of sixteen bits given by its number. -/
inductive Piece where
  | char (c : Char)
  | unit (number : Nat)
  deriving DecidableEq, Repr

inductive Lexeme where
  | openArray
  | closeArray
  | openObject
  | closeObject
  | colon
  | comma
  | string (pieces : List Piece)
  /-- A number, a constant, or something that is neither. -/
  | word (characters : List Char)
  /-- A string that breaks off; nothing is read after it. -/
  | broken
  deriving DecidableEq, Repr

/-! ## Pieces -/

def hexValue? (c : Char) : Option Nat :=
  if Decimal.isDigit c then Decimal.digitValue? c
  else if 'a' ≤ c ∧ c ≤ 'f' then some (c.toNat - 'a'.toNat + 10)
  else if 'A' ≤ c ∧ c ≤ 'F' then some (c.toNat - 'A'.toNat + 10)
  else none

/-- The character that a letter stands for after a backslash. -/
def escaped? (c : Char) : Option Char :=
  match c with
  | '"' | '\\' | '/' => some c
  | 'b' => some '\x08'
  | 'f' => some '\x0c'
  | 'n' => some '\n'
  | 'r' => some '\x0d'
  | 't' => some '\t'
  | _ => none

def isLeading (unit : Nat) : Bool := decide (0xD800 ≤ unit ∧ unit < 0xDC00)

def isTrailing (unit : Nat) : Bool := decide (0xDC00 ≤ unit ∧ unit < 0xE000)

/-- The characters of a string; a unit that is half of a character must have its other half. -/
def characters? : List Piece → Option (List Char)
  | [] => some []
  | .char c :: rest => (characters? rest).map (c :: ·)
  | .unit first :: .unit second :: rest =>
      if isLeading first then
        if isTrailing second then
          (characters? rest).map
            (Char.ofNat (0x10000 + (first - 0xD800) * 0x400 + (second - 0xDC00)) :: ·)
        else none
      else if isTrailing first then none
      else (characters? (.unit second :: rest)).map (Char.ofNat first :: ·)
  | .unit first :: rest =>
      if isLeading first || isTrailing first then none
      else (characters? rest).map (Char.ofNat first :: ·)

/-- The text of a string, if its units make up characters. -/
def text? (pieces : List Piece) : Option String := (characters? pieces).map String.ofList

/-! ## Scanning -/

namespace Lexeme

/-- Where in a document the scan is; what is being read is kept last first. -/
inductive Mode where
  | between
  | word (read : List Char)
  | string (read : List Piece)
  /-- After a backslash in a string. -/
  | escape (read : List Piece)
  /-- After a backslash and a `u`, with some digits of a unit read and more to come. -/
  | unit (read : List Piece) (value missing : Nat)
  deriving DecidableEq, Repr

def Mode.finishWord : Mode → List Lexeme
  | .word read => [.word read.reverse]
  | _ => []

/-- A word goes on, or begins, with a character. -/
def Mode.extendWord (mode : Mode) (c : Char) : Mode :=
  match mode with
  | .word read => .word (c :: read)
  | _ => .word [c]

def Mode.finish : Mode → List Lexeme
  | .between => []
  | .word read => [.word read.reverse]
  | .string _ | .escape _ | .unit _ _ _ => [.broken]

def single? (c : Char) : Option Lexeme :=
  match c with
  | '[' => some .openArray
  | ']' => some .closeArray
  | '\x7b' => some .openObject
  | '\x7d' => some .closeObject
  | ':' => some .colon
  | ',' => some .comma
  | _ => none

def isSpace (c : Char) : Bool := c == ' ' || c == '\n' || c == '\t' || c == '\x0d'

/-- The lexemes of what is left of a document, in the mode that the scan is in. -/
def scanFrom (mode : Mode) : List Char → List Lexeme
  | [] => mode.finish
  | c :: rest =>
      match mode with
      | .string read =>
          if c = '"' then .string read.reverse :: scanFrom .between rest
          else if c = '\\' then scanFrom (.escape read) rest
          else if c < ' ' then [.broken]
          else scanFrom (.string (.char c :: read)) rest
      | .escape read =>
          if c = 'u' then scanFrom (.unit read 0 4) rest
          else match escaped? c with
            | some meant => scanFrom (.string (.char meant :: read)) rest
            | none => [.broken]
      | .unit read value missing =>
          match hexValue? c with
          | none => [.broken]
          | some digit =>
              if missing ≤ 1 then scanFrom (.string (.unit (16 * value + digit) :: read)) rest
              else scanFrom (.unit read (16 * value + digit) (missing - 1)) rest
      | mode =>
          if c = '"' then mode.finishWord ++ scanFrom (.string []) rest
          else if isSpace c then mode.finishWord ++ scanFrom .between rest
          else match single? c with
            | some lexeme => mode.finishWord ++ lexeme :: scanFrom .between rest
            | none => scanFrom (mode.extendWord c) rest

def scan (cs : List Char) : List Lexeme := scanFrom .between cs

end Lexeme

end StackQuery.Document
