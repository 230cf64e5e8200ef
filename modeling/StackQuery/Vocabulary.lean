/-!
Identifiers and the namespaces they belong to.

A family of namespaces is listed newest first; the newest one gives the
canonical identifier of a name, the older ones its aliases.
-/

namespace StackQuery.Vocabulary

/-! ## Graph lists and datatypes -/

def rdfFirst : String := "http://www.w3.org/1999/02/22-rdf-syntax-ns#first"

def rdfRest : String := "http://www.w3.org/1999/02/22-rdf-syntax-ns#rest"

def rdfNil : String := "http://www.w3.org/1999/02/22-rdf-syntax-ns#nil"

def xsd : String := "http://www.w3.org/2001/XMLSchema#"

/-- The datatypes whose values are integers. -/
def integerTypes : List String := [
  "integer", "int", "long", "short", "byte", "nonNegativeInteger", "nonPositiveInteger",
  "negativeInteger", "positiveInteger", "unsignedLong", "unsignedInt", "unsignedShort",
  "unsignedByte"
]

/-- The datatypes whose values are decimals. -/
def decimalTypes : List String := ["decimal", "double", "float"]

/-! ## Namespaces of the standard words -/

def stack : List String := [
  "http://fortytwo.net/2013/03/ripple/stack#",
  "http://fortytwo.net/2008/08/ripple/stack#",
  "http://fortytwo.net/2007/08/ripple/stack#"
]

def logic : List String := [
  "http://fortytwo.net/2013/03/ripple/logic#",
  "http://fortytwo.net/2008/08/ripple/logic#"
]

def data : List String := [
  "http://fortytwo.net/2013/03/ripple/data#",
  "http://fortytwo.net/2008/08/ripple/graph#",
  "http://fortytwo.net/2007/08/ripple/graph#"
]

def math : List String := [
  "http://fortytwo.net/2013/03/ripple/math#",
  "http://fortytwo.net/2008/08/ripple/math#",
  "http://fortytwo.net/2007/08/ripple/math#"
]

def stream : List String := [
  "http://fortytwo.net/2013/03/ripple/stream#",
  "http://fortytwo.net/2008/08/ripple/stream#"
]

def etc : List String := [
  "http://fortytwo.net/2013/03/ripple/etc#",
  "http://fortytwo.net/2008/08/ripple/etc#"
]

def graph : List String := ["http://fortytwo.net/2013/03/ripple/graph#"]

/-- The namespace of the words that a session defines. -/
def user : String := "urn:ripple:user#"

/-- The identifier of the nth node that a store makes up for a list. -/
def storeNode (n : Nat) : String := "urn:ripple:node:" ++ Nat.repr n

/-! ## Names -/

/-- The characters that end a namespace. -/
def isSeparator (c : Char) : Bool := c == '#' || c == '/'

/-- What follows the last separator, or the whole identifier if there is none. -/
def localName (identifier : String) : String :=
  String.ofList (identifier.toList.reverse.takeWhile (fun c => !isSeparator c)).reverse

/-- The identifiers of a name in a family of namespaces, in their order. -/
def identifiers (namespaces : List String) (name : String) : List String :=
  namespaces.map (· ++ name)

def canonical (namespaces : List String) (name : String) : String :=
  (identifiers namespaces name).headD name

end StackQuery.Vocabulary
