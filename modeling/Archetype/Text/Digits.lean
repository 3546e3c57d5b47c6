namespace Archetype.Text

/-- The zeros of the decimal digits of Unicode; the nine other digits follow each of them. -/
def zeros : List Nat := [
    48, 1632, 1776, 1984, 2406, 2534, 2662, 2790, 2918, 3046, 3174, 3302, 3430, 3558, 3664, 3792,
    3872, 4160, 4240, 6112, 6160, 6470, 6608, 6784, 6800, 6992, 7088, 7232, 7248, 42528, 43216,
    43264, 43472, 43504, 43600, 44016, 65296, 66720, 68912, 69734, 69872, 69942, 70096, 70384,
    70736, 70864, 71248, 71360, 71472, 71904, 72016, 72784, 73040, 73120, 92768, 92864, 93008,
    120782, 120792, 120802, 120812, 120822, 123200, 123632, 125264, 130032]

def digitOf? (character : Char) : Option Nat :=
  zeros.findSome? fun base =>
    if base ≤ character.toNat && character.toNat < base + 10 then some (character.toNat - base)
    else none

def hexOf? (character : Char) : Option Nat :=
  let code := character.toNat
  if 48 ≤ code && code ≤ 57 then some (code - 48)
  else if 97 ≤ code && code ≤ 102 then some (code - 87)
  else if 65 ≤ code && code ≤ 70 then some (code - 55)
  else none

def isDigit (character : Char) : Bool :=
  48 ≤ character.toNat && character.toNat ≤ 57

def numberIn? (base : Nat) (digit : Char → Option Nat) (characters : List Char) : Option Nat :=
  characters.foldl (fun total? character =>
    match total?, digit character with
    | some total, some value => if value < base then some (total * base + value) else none
    | _, _ => none) (some 0)

def hexDigit (value : Nat) : Char :=
  if value < 10 then Char.ofNat (48 + value) else Char.ofNat (87 + value)

def hexText : Nat → Nat → List Char
  | 0, _ => []
  | width + 1, value => hexText width (value / 16) ++ [hexDigit (value % 16)]

def paddedText : Nat → Nat → List Char
  | 0, _ => []
  | width + 1, value => paddedText width (value / 10) ++ [Char.ofNat (48 + value % 10)]

def padded (width value : Nat) : String :=
  String.ofList (paddedText width value)

end Archetype.Text
