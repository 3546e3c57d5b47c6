import Archetype.Text.Cases
import Archetype.Text.Digits
import Archetype.Text.PrintableTable

namespace Archetype.Text

def isPrintable (character : Char) : Bool :=
  if character.toNat < 127 then 32 ≤ character.toNat else !inBoundaries unprintable character

def quoteFor (characters : List Char) : Char :=
  if characters.contains '\'' && !characters.contains '"' then '"' else '\''

def quotedChar (quote character : Char) : List Char :=
  if character = quote || character = '\\' then ['\\', character]
  else if character = '\t' then ['\\', 't']
  else if character = '\n' then ['\\', 'n']
  else if character = '\r' then ['\\', 'r']
  else if isPrintable character then [character]
  else if character.toNat < 0x100 then '\\' :: 'x' :: hexText 2 character.toNat
  else if character.toNat < 0x10000 then '\\' :: 'u' :: hexText 4 character.toNat
  else '\\' :: 'U' :: hexText 8 character.toNat

def quoted (text : String) : String :=
  let quote := quoteFor text.toList
  String.ofList (quote :: text.toList.flatMap (quotedChar quote) ++ [quote])

def quotedByte (quote : Char) (byte : UInt8) : List Char :=
  if byte.toNat < 127 then
    let character := Char.ofNat byte.toNat
    if character.toNat < 32 && character ≠ '\t' && character ≠ '\n' && character ≠ '\r' then
      '\\' :: 'x' :: hexText 2 byte.toNat
    else quotedChar quote character
  else '\\' :: 'x' :: hexText 2 byte.toNat

def quotedBytes (bytes : List UInt8) : String :=
  let quote := quoteFor (bytes.map fun byte => Char.ofNat byte.toNat)
  String.ofList ('b' :: quote :: bytes.flatMap (quotedByte quote) ++ [quote])

end Archetype.Text
