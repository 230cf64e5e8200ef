import StackQuery.Text.Blank

/-!
The lexemes of a line.

One pass over the characters, left to right: a quote opens a string that runs
to the next quote without a backslash before it, parentheses stand alone, white
space separates, and a word is as long as it can be.
-/

namespace StackQuery

inductive Lexeme where
  /-- What stands between two quotes, backslashes included. -/
  | string (contents : List Char)
  | opening
  | closing
  | word (characters : List Char)
  /-- A quote that no other one answers; nothing is read after it. -/
  | unterminated
  deriving DecidableEq, Repr

namespace Lexeme

/-- Where in a line the scan is; what is being read is kept last character first. -/
inductive Mode where
  | between
  | word (read : List Char)
  | string (read : List Char)
  /-- After a backslash in a string. -/
  | escape (read : List Char)
  deriving DecidableEq, Repr

def Mode.finishWord : Mode → List Lexeme
  | .word read => [.word read.reverse]
  | _ => []

/-- A word goes on, or begins, with a character. -/
def Mode.extendWord (mode : Mode) (c : Char) : Mode :=
  match mode with
  | .word read => .word (c :: read)
  | _ => .word [c]

def Mode.finish : Mode → List Lexeme
  | .between => []
  | .word read => [.word read.reverse]
  | .string _ | .escape _ => [.unterminated]

/-- The lexemes of what is left of a text, in the mode that the scan is in. -/
def scanFrom (mode : Mode) : List Char → List Lexeme
  | [] => mode.finish
  | c :: rest =>
      match mode with
      | .string read =>
          if c = '"' then .string read.reverse :: scanFrom .between rest
          else if c = '\\' then scanFrom (.escape read) rest
          else scanFrom (.string (c :: read)) rest
      | .escape read =>
          if c = '\n' then [.unterminated]
          else scanFrom (.string (c :: '\\' :: read)) rest
      | mode =>
          if c = '"' then mode.finishWord ++ scanFrom (.string []) rest
          else if c = '(' then mode.finishWord ++ .opening :: scanFrom .between rest
          else if c = ')' then mode.finishWord ++ .closing :: scanFrom .between rest
          else if Text.isBlank c then mode.finishWord ++ scanFrom .between rest
          else scanFrom (mode.extendWord c) rest

def scan (cs : List Char) : List Lexeme := scanFrom .between cs

end Lexeme

end StackQuery
