import StackQuery.Value

/-!
The written form of values, operators and stacks.
-/

namespace StackQuery

/-- Texts one after another with one space between them. -/
def spaced (texts : List String) : String := " ".intercalate texts

mutual

def Value.print : Value → String
  | .number n => n.text
  | .text s => Text.quote s
  | .boolean b => if b then "true" else "false"
  | .resource identifier => "<" ++ identifier ++ ">"
  | .literal l => l.text
  | .list items => "(" ++ spaced (Value.printAll items) ++ ")"
  | .operator op => op.print

def Value.printAll : List Value → List String
  | [] => []
  | v :: rest => v.print :: Value.printAll rest

/-- A composition is written as the list it was read from, where there is one. -/
def Operator.print : Operator → String
  | .primitive p => p.name
  | .composed _ (some source) => "(" ++ spaced (Value.printAll source) ++ ")"
  | .composed steps none => "(" ++ spaced (Operator.printAll steps) ++ ")"
  | .inverted forward _ => "~" ++ forward.print
  | .constant v => v.print

def Operator.printAll : List Operator → List String
  | [] => []
  | op :: rest => op.print :: Operator.printAll rest

end

/-- A stack is written bottom first. -/
def Stack.print (stack : Stack) : String := spaced (Value.printAll stack.reverse)

def Operator.debugText (op : Operator) : String := "Operator(" ++ op.print ++ ")"

def Stack.debugText (stack : Stack) : String :=
  "StackContext \x7b stack: " ++ (Value.list stack).print ++ ", .. \x7d"

end StackQuery
