import Archetype.Text.Blank
import Archetype.Text.CaseTable

namespace Archetype.Text

/-- Membership in a set of code points that is given by its boundaries: the first code point in
it, the first one after it that is not, and so on. -/
def inBoundaries (boundaries : List Nat) (character : Char) : Bool :=
  (boundaries.takeWhile (· ≤ character.toNat)).length % 2 == 1

def CaseRun.map? (run : CaseRun) (code : Nat) : Option Nat :=
  if run.first ≤ code && code ≤ run.last && (code - run.first) % run.step == 0 then
    some (Int.toNat (code + run.offset))
  else none

def mapCase (long : List (Nat × List Nat)) (runs : List CaseRun) (character : Char) : List Char :=
  match long.lookup character.toNat with
  | some codes => codes.map Char.ofNat
  | none =>
    match runs.findSome? (·.map? character.toNat) with
    | some code => [Char.ofNat code]
    | none => [character]

def upperOf (character : Char) : List Char :=
  if character.toNat < 128 then [character.toUpper] else mapCase longUpper upperRuns character

def lowerOf (character : Char) : List Char :=
  if character.toNat < 128 then [character.toLower] else mapCase longLower lowerRuns character

def meetsCased (characters : List Char) : Bool :=
  match characters.dropWhile (inBoundaries caseIgnorable) with
  | [] => false
  | character :: _ => inBoundaries cased character

/-- The lower case of the characters that follow the characters `before` (in reverse). -/
def lowerAfter (before : List Char) : List Char → List Char
  | [] => []
  | character :: rest =>
    (if character = 'Σ' then [if meetsCased before && !meetsCased rest then 'ς' else 'σ']
      else lowerOf character) ++ lowerAfter (character :: before) rest

def lower (text : String) : String :=
  String.ofList (lowerAfter [] text.toList)

def capitalize (text : String) : String :=
  match (strip (collapse text)).toList with
  | [] => ""
  | first :: rest => String.ofList (upperOf first ++ lowerAfter [] rest)

end Archetype.Text
