import StackQuery.Library

/-!
Lists read as programs.
-/

namespace StackQuery

namespace Operator

/--
The step that a member of a program stands for: an operator is applied, a
resource that the library knows is applied as what it names, and everything
else is pushed.
-/
def ofMember (l : Library) : Value → Operator
  | .operator op => op
  | .resource identifier => (l.resolve? identifier).getD (.constant (.resource identifier))
  | v => .constant v

def program (l : Library) (members : List Value) : Operator :=
  .composed (members.map (ofMember l)) (some members)

end Operator

end StackQuery
