import StackQuery.Graph.Connection
import StackQuery.Operator.Program
import StackQuery.Progress

/-!
Reading values as numbers, truth values, resources, lists and operators.

A list may be spelled out in the graph, and a node with several firsts or rests
stands for several lists, so lists and operators are read as streams.
-/

namespace StackQuery

namespace Value

/-! ## Numbers, truth values and resources -/

def readNumber (v : Value) : Except EvalError Number :=
  match v with
  | .number n => .ok n
  | .literal l => match l.native? with
    | some (.number n) => .ok n
    | _ => .error (.coercion v.print .number)
  | _ => .error (.coercion v.print .number)

def readBoolean (v : Value) : Except EvalError Bool :=
  match v with
  | .boolean b => .ok b
  | .literal l => match l.native? with
    | some (.boolean b) => .ok b
    | _ => .error (.coercion v.print .boolean)
  | _ => .error (.coercion v.print .boolean)

def readResource (v : Value) : Except EvalError String :=
  match v with
  | .resource identifier => .ok identifier
  | _ => .error (.coercion v.print .resource)

/-! ## Conversions -/

/-- The integer that a text or a number stands for, if it does for one. -/
def toInteger? (v : Value) : Except EvalError (Option Int64) :=
  match v with
  | .text s => .ok (Number.readInteger? (Text.trim s.toList))
  | _ => v.readNumber.map Number.truncate?

/-- The decimal that a text or a number stands for. -/
def toDecimal? (v : Value) : Except EvalError (Option Decimal) :=
  match v with
  | .text s => .ok (Decimal.read? (Text.trim s.toList))
  | _ => v.readNumber.map fun n => some n.toDecimal

/-- The text of a value: what is quoted or bracketed stands alone. -/
def plainText : Value → String
  | .text s => s
  | .literal l => l.lexical
  | .resource identifier => identifier
  | v => v.print

end Value

/-! ## Lists -/

structure Branch where
  /-- The members read so far, last one first. -/
  members : List Value
  rest : Value
  /-- The nodes walked on this branch. -/
  visited : List String

/-- The list that a branch denotes once its tail is known. -/
def Branch.finish (b : Branch) (tail : List Value) : List Value := b.members.reverseAux tail

/-- The branches that a node with these firsts and rests opens, in their order. -/
def Branch.open (b : Branch) (firsts rests : List Value) : List Branch :=
  firsts.flatMap fun first => rests.map fun rest => ⟨first :: b.members, rest, b.visited⟩

inductive ListReading where
  | once (result : Except EvalError (List Value))
  /-- Branches that are still to be walked, the next one first. -/
  | walk (pending : List Branch)
  /-- The firsts of a node are known, its rests are not. -/
  | opened (branch : Branch) (node : String) (firsts : List Value) (pending : List Branch)
  | done

namespace ListReading

def ofValue : Value → ListReading
  | .list items => .once (.ok items)
  | .resource identifier =>
      if Value.isNil identifier then .once (.ok [])
      else .walk [⟨[], .resource identifier, []⟩]
  | v => .once (.error (.coercion v.print .list))

def isSpent : ListReading → Bool
  | .done => true
  | .walk pending => pending.isEmpty
  | _ => false

/-- The error of a node that does not lead on to a list. -/
def notAList (node : String) : EvalError := .coercion (Value.resource node).print .list

/-- One step of the walk, with at most one question to the store. -/
def step (ask : Connection) : ListReading → Progress EvalError ListReading (List Value)
  | .done => .ended
  | .once result => .item result .done
  | .walk [] => .ended
  | .walk (b :: pending) =>
      match b.rest with
      | .list tail => .item (.ok (b.finish tail)) (.walk pending)
      | .resource node =>
          if Value.isNil node then .item (.ok (b.finish [])) (.walk pending)
          else if b.visited.contains node then .item (.error (notAList node)) (.walk pending)
          else
            match ask node Vocabulary.rdfFirst with
            | .waiting => .waiting
            | .failed error => .item (.error (.store error)) (.walk pending)
            | .found firsts =>
                .working (.opened { b with visited := node :: b.visited } node firsts pending)
      | v => .item (.error (.coercion v.print .list)) (.walk pending)
  | .opened b node firsts pending =>
      match ask node Vocabulary.rdfRest with
      | .waiting => .waiting
      | .failed error => .item (.error (.store error)) (.walk pending)
      | .found rests =>
          if firsts.isEmpty || rests.isEmpty then .item (.error (notAList node)) (.walk pending)
          else .working (.walk (b.open firsts rests ++ pending))

end ListReading

/-! ## Operators -/

inductive OperatorReading where
  | once (result : Except EvalError Operator)
  /-- Every list read is a program. -/
  | programs (lists : ListReading)
  | done

namespace OperatorReading

/-- A resource that the library knows is what it names there, and a list in the graph otherwise. -/
def ofValue (l : Library) : Value → OperatorReading
  | .operator op => .once (.ok op)
  | .list members => .once (.ok (Operator.program l members))
  | .resource identifier =>
      match l.resolve? identifier with
      | some op => .once (.ok op)
      | none => .programs (ListReading.ofValue (.resource identifier))
  | v => .once (.error (.coercion v.print .operator))

def isSpent : OperatorReading → Bool
  | .done => true
  | .programs lists => lists.isSpent
  | .once _ => false

/-- What cannot be read as a list cannot be read as an operator either. -/
def retarget : EvalError → EvalError
  | .coercion value _ => .coercion value .operator
  | error => error

def ofList (l : Library) : Except EvalError (List Value) → Except EvalError Operator
  | .ok members => .ok (Operator.program l members)
  | .error error => .error (retarget error)

def step (l : Library) (ask : Connection) :
    OperatorReading → Progress EvalError OperatorReading Operator
  | .done => .ended
  | .once result => .item result .done
  | .programs lists =>
      match lists.step ask with
      | .item result next => .item (ofList l result) (.programs next)
      | .working next => .working (.programs next)
      | .waiting => .waiting
      | .ended => .ended

end OperatorReading

end StackQuery
