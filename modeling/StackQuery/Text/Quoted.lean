/-!
Quoted text: a backslash stands before every quote and every backslash, and a
backslash with another character after it is read as that character, except
for the line feed and the tab.
-/

namespace StackQuery.Text

def escape : List Char → List Char
  | [] => []
  | '\\' :: rest => '\\' :: '\\' :: escape rest
  | '"' :: rest => '\\' :: '"' :: escape rest
  | c :: rest => c :: escape rest

def unescape : List Char → List Char
  | [] => []
  | ['\\'] => ['\\']
  | '\\' :: c :: rest =>
      (if c = 'n' then '\n' else if c = 't' then '\t' else c) :: unescape rest
  | c :: rest => c :: unescape rest

def quote (s : String) : String :=
  "\"" ++ String.ofList (escape s.toList) ++ "\""

end StackQuery.Text
