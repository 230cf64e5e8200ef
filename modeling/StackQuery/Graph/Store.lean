import StackQuery.Value

/-!
A graph held in memory: triples that give a subject objects under a predicate.

Lists are stored as chains of nodes, each with its first member and the rest
of the list.
-/

namespace StackQuery

structure Triple where
  subject : String
  predicate : String
  object : Value

/-- Triples in the order they were added, and how many nodes were made up for lists. -/
structure Store where
  triples : List Triple
  nodes : Nat

namespace Store

def empty : Store := ⟨[], 0⟩

def size (s : Store) : Nat := s.triples.length

def isEmpty (s : Store) : Bool := s.triples.isEmpty

def add (s : Store) (subject predicate : String) (object : Value) : Store :=
  { s with triples := s.triples ++ [⟨subject, predicate, object⟩] }

/-- The objects of a subject under a predicate, in the order they were added. -/
def objects (s : Store) (subject predicate : String) : List Value :=
  s.triples.filterMap fun t =>
    if t.subject = subject ∧ t.predicate = predicate then some t.object
    else none

/-- Adds the members before a list that is stored already, the last member first. -/
def prependAll (s : Store) (tail : String) : List Value → Store × String
  | [] => (s, tail)
  | v :: before =>
      let node := Vocabulary.storeNode s.nodes
      let added := (s.add node Vocabulary.rdfFirst v).add node Vocabulary.rdfRest (.resource tail)
      prependAll { added with nodes := s.nodes + 1 } node before

/-- Stores a list as a chain of new nodes; its head, and the store after it. -/
def addList (s : Store) (items : List Value) : Store × String :=
  s.prependAll Vocabulary.rdfNil items.reverse

end Store

end StackQuery
