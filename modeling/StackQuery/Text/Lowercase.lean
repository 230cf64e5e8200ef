import StackQuery.Text.CaseTable

/-!
Text in lower case.

Every capital becomes its small letter; the dotted capital I becomes two
characters, and a sigma at the end of a word takes its final form.
-/

namespace StackQuery.Text

/-- Whether a sorted table of ranges has a character, by halving the part that is left. -/
def inRanges (table : Array (Nat × Nat)) (n : Nat) : Nat → Nat → Nat → Bool
  | 0, _, _ => false
  | fuel + 1, low, high =>
      if high ≤ low then false
      else
        let middle := (low + high) / 2
        match table[middle]? with
        | none => false
        | some (first, last) =>
            if n < first then inRanges table n fuel low middle
            else if last < n then inRanges table n fuel (middle + 1) high
            else true

def isCased (c : Char) : Bool :=
  inRanges casedRanges c.toNat 32 0 casedRanges.size

def isIgnorable (c : Char) : Bool :=
  inRanges ignorableRanges c.toNat 32 0 ignorableRanges.size

/-- The small letter of a capital; every other character is its own. -/
def lowercaseChar (c : Char) : Char :=
  match lowercaseRuns.find? fun (first, last, stride, _) =>
      first ≤ c.toNat ∧ c.toNat ≤ last ∧ (c.toNat - first) % stride = 0 with
  | some (_, _, _, distance) => Char.ofNat ((c.toNat : Int) + distance).toNat
  | none => c

/-- The next character that is not passed over has a case. -/
def nextIsCased (cs : List Char) : Bool :=
  match cs.dropWhile isIgnorable with
  | c :: _ => isCased c
  | [] => false

/-- Lower case of a text, of which `before` has been read, last character first. -/
def lowercaseAfter (before : List Char) : List Char → List Char
  | [] => []
  | c :: rest =>
      let small :=
        if c = 'Σ' then
          if nextIsCased before && !nextIsCased rest then ['ς'] else ['σ']
        else if c = 'İ' then ['i', '\u0307']
        else [lowercaseChar c]
      small ++ lowercaseAfter (c :: before) rest

def lowercase (s : String) : String := String.ofList (lowercaseAfter [] s.toList)

end StackQuery.Text
