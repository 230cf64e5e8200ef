import StackQuery.Error
import StackQuery.Graph.Store

/-!
The way to the graph.

A store is asked for the objects of a subject under a predicate.  It may
answer, fail, or not have answered yet.
-/

namespace StackQuery

/-- What a store says to a question. -/
inductive Reply where
  | waiting
  | failed (error : StoreError)
  | found (objects : List Value)

/-- What a store says to every question, at one moment. -/
abbrev Connection := String → String → Reply

/-- A store in memory answers at once and never fails. -/
def Store.connection (s : Store) : Connection := fun subject predicate =>
  .found (s.objects subject predicate)

end StackQuery
