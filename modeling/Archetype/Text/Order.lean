namespace Archetype.Text

def precedes : List Char → List Char → Bool
  | [], _ => true
  | _ :: _, [] => false
  | left :: lefts, right :: rights =>
    if left = right then precedes lefts rights else left.toNat < right.toNat

def rowPrecedes : List String → List String → Bool
  | [], _ => true
  | _ :: _, [] => false
  | left :: lefts, right :: rights =>
    if left = right then rowPrecedes lefts rights else precedes left.toList right.toList

end Archetype.Text
