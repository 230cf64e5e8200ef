import StackQuery.Value.Order

/-!
Lists that share their tails.

Pushing onto a list makes one new cell and shares all the others.  Every cell
has a mark of its own, so that it can be told whether two lists are one and the
same, and not only alike.
-/

namespace StackQuery

/-- A member of a list, with the mark of its cell. -/
structure Cell where
  mark : Nat
  value : Value

/-- A list of cells, first member first. -/
structure SharedList where
  cells : List Cell

namespace SharedList

def nil : SharedList := ⟨[]⟩

def values (l : SharedList) : List Value := l.cells.map (·.value)

def length (l : SharedList) : Nat := l.cells.length

def isEmpty (l : SharedList) : Bool := l.cells.isEmpty

def first? (l : SharedList) : Option Value := l.cells.head?.map (·.value)

def rest? (l : SharedList) : Option SharedList :=
  match l.cells with
  | [] => none
  | _ :: rest => some ⟨rest⟩

/-- Two lists are the same if they begin with the same cell; all empty lists are. -/
def same (a b : SharedList) : Bool :=
  match a.cells, b.cells with
  | [], [] => true
  | x :: _, y :: _ => x.mark == y.mark
  | _, _ => false

end SharedList

/-- Lists under names, and how many cells have been made. -/
structure Shelf where
  lists : List (String × SharedList)
  marks : Nat

namespace Shelf

def empty : Shelf := ⟨[], 0⟩

def get? (s : Shelf) (name : String) : Option SharedList := s.lists.lookup name

def put (s : Shelf) (name : String) (l : SharedList) : Shelf :=
  { s with lists := (name, l) :: s.lists }

def cons (s : Shelf) (v : Value) (l : SharedList) : Shelf × SharedList :=
  ({ s with marks := s.marks + 1 }, ⟨⟨s.marks, v⟩ :: l.cells⟩)

/-- New cells before a list, one for each value; the last value comes first. -/
def consAll (s : Shelf) (l : SharedList) : List Value → Shelf × SharedList
  | [] => (s, l)
  | v :: values =>
      let (s, l) := s.cons v l
      consAll s l values

def ofValues (s : Shelf) (values : List Value) : Shelf × SharedList :=
  s.consAll .nil values.reverse

/-- The members in the opposite order, in new cells. -/
def reverse (s : Shelf) (l : SharedList) : Shelf × SharedList := s.consAll .nil l.values

end Shelf

end StackQuery
