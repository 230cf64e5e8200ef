import StackQuery.Library

/-!
The standard words: shuffling the stack and applying programs, truth values,
comparison and conversion, arithmetic, streams, inversion and the graph.
-/

namespace StackQuery

namespace Standard

/-! ## Declaring words -/

def any (name : String) : Parameter := ⟨name, none, true⟩

/-- An argument that is passed over without being looked at. -/
def ignored (name : String) : Parameter := ⟨name, none, false⟩

/-- An argument of which help names the kind. -/
def hinted (name hint : String) : Parameter := ⟨name, some hint, true⟩

def word (namespaces : List String) (name : String) (parameters : List Parameter)
    (comment : String) (action : Action) : Primitive :=
  ⟨Vocabulary.identifiers namespaces name, parameters, comment, none, action⟩

/-- A word that another one of the same namespaces undoes. -/
def undoneBy (namespaces : List String) (name : String) (p : Primitive) : Primitive :=
  { p with inverse := some (Vocabulary.canonical namespaces name) }

/-! ## The words -/

def stackWords : List Primitive :=
  let word := word Vocabulary.stack
  [ word "dup" [any "x"] "x => x x" .dup,
    word "pop" [ignored "x"] "x =>" .drop,
    word "swap" [any "x", any "y"] "x y => y x" .swap,
    word "rotate" [any "x", any "y", any "z"] "x y z => z y x" .rotate,
    word "rotated" [any "x", any "y", any "z", any "w"] "x y z w => z y x w" .rotated,
    word "swons" [hinted "l" "list", any "x"]
      "l x => (x . l), pushing x onto the front of list l" .swons,
    word "uncons" [hinted "l" "list"] "l => first rest; an empty list has no solutions" .uncons,
    word "i" [hinted "p" "operator"] "p => ... applies p to the rest of the stack" .run,
    word "times" [hinted "p" "operator", hinted "n" "integer"] "p n => ... applies p n times"
      .times ]

def logicWords : List Primitive :=
  let word := word Vocabulary.logic
  [ word "and" [hinted "x" "boolean", hinted "y" "boolean"] "x y => x AND y" .and,
    word "or" [hinted "x" "boolean", hinted "y" "boolean"] "x y => x OR y" .or,
    word "not" [hinted "x" "boolean"] "x => NOT x" .not,
    word "true" [ignored "y", ignored "x"] "y x => x, keeping the top item" .upper,
    word "false" [ignored "y", ignored "x"] "y x => y, keeping the item beneath the top" .lower ]

def dataWords : List Primitive :=
  let word := word Vocabulary.data
  [ word "equal" [any "x", any "y"] "x y => b" .equal,
    word "compare" [any "x", any "y"] "x y => -1, 0 or 1" .compare,
    word "gt" [any "x", any "y"] "x y => x > y" .greater,
    word "lt" [any "x", any "y"] "x y => x < y" .less,
    word "to-integer" [any "x"] "x => x as an integer; unparseable text has no solutions"
      .toInteger,
    word "to-double" [any "x"] "x => x as a double; unparseable text has no solutions" .toDecimal,
    word "to-string" [any "x"] "x => the text form of x" .toText ]

def mathWords : List Primitive :=
  let word := word Vocabulary.math
  let undoneBy := undoneBy Vocabulary.math
  let x := hinted "x" "number"
  let y := hinted "y" "number"
  [ word "add" [x, y] "x y => x + y" .add,
    word "sub" [x, y] "x y => x - y" .sub,
    word "mul" [x, y] "x y => x * y" .mul,
    word "div" [x, y] "x y => x / y" .div,
    undoneBy "neg" (word "neg" [x] "x => -x" .neg),
    word "sqrt" [x] "x => both square roots of x; negative x has none" .sqrt,
    undoneBy "asin" (word "sin" [x] "x => sin(x)" (.function .sin)),
    undoneBy "sin" (word "asin" [x] "x => asin(x), for -1 <= x <= 1" (.function .asin)),
    undoneBy "acos" (word "cos" [x] "x => cos(x)" (.function .cos)),
    undoneBy "cos" (word "acos" [x] "x => acos(x), for -1 <= x <= 1" (.function .acos)),
    word "cosh" [x] "x => cosh(x)" (.function .cosh),
    word "tanh" [x] "x => tanh(x)" (.function .tanh) ]

def streamWords : List Primitive :=
  let word := word Vocabulary.stream
  [ word "each" [hinted "l" "list"] "l => x, once for every member x of l" .each,
    word "unique" [any "x"] "x => x, dropping every solution whose stack was already produced"
      .unique ]

def etcWords : List Primitive :=
  [ word Vocabulary.etc "invert" [hinted "p" "operator"]
      "p => the inverse of p; fails if p has no declared inverse" .invert ]

def graphWords : List Primitive :=
  [ word Vocabulary.graph "links" [hinted "s" "resource", hinted "p" "resource"]
      "s p => o, once for every stored statement (s p o)" .links ]

def words : List Primitive :=
  stackWords ++ logicWords ++ dataWords ++ mathWords ++ streamWords ++ etcWords ++ graphWords

/-- The unending count from zero, which no library loads by itself. -/
def naturals (identifier : String) : Primitive :=
  ⟨[identifier], [], "=> 0, 1, 2 and so on without end", none, .naturals⟩

end Standard

namespace Library

/-- Loads primitives one after another, until one cannot be. -/
def registerAll (l : Library) (words : List Primitive) : Except DuplicateError Library :=
  words.foldlM (fun l p => l.register (.primitive p)) l

def standard? : Except DuplicateError Library := empty.registerAll Standard.words

/-- The standard words have distinct identifiers, so that all of them are loaded. -/
def standard : Library := standard?.toOption.getD empty

end Library

end StackQuery
