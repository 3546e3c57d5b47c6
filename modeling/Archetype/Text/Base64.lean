namespace Archetype.Text

def sextet? (character : Char) : Option Nat :=
  let code := character.toNat
  if 65 ≤ code ∧ code ≤ 90 then some (code - 65)
  else if 97 ≤ code ∧ code ≤ 122 then some (code - 71)
  else if 48 ≤ code ∧ code ≤ 57 then some (code + 4)
  else if character = '+' then some 62
  else if character = '/' then some 63
  else none

/-- The bytes of the remaining characters. The group at work has `filled` characters, the last of
which left the bits `carry`; `pads` counts the padding since then. -/
def base64From (filled carry pads : Nat) : List Char → Option (List UInt8)
  | [] => if filled = 0 then some [] else none
  | character :: rest =>
    if character = '=' then
      if 2 ≤ filled ∧ 4 ≤ filled + pads + 1 then some []
      else base64From filled carry (if 2 ≤ filled then pads + 1 else pads) rest
    else
      match sextet? character with
      | none => base64From filled carry pads rest
      | some bits =>
        let byte (value : Nat) (bytes : List UInt8) := UInt8.ofNat value :: bytes
        match filled with
        | 0 => base64From 1 bits 0 rest
        | 1 => (base64From 2 (bits % 16) 0 rest).map (byte (carry * 4 + bits / 16))
        | 2 => (base64From 3 (bits % 4) 0 rest).map (byte (carry * 16 + bits / 4))
        | _ => (base64From 0 0 0 rest).map (byte (carry * 64 + bits))

def decodeBase64? (characters : List Char) : Option (List UInt8) :=
  if characters.all (·.toNat < 128) then base64From 0 0 0 characters else none

end Archetype.Text
