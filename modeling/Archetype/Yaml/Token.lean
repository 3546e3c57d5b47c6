import Archetype.Yaml.Cursor

namespace Archetype.Yaml

structure WrittenTag where
  handle? : Option String
  suffix : String
deriving DecidableEq, Repr

inductive Directive
  | version (major : Nat)
  | handle (name space : String)
  | other
deriving DecidableEq, Repr

inductive Token
  | directive (directive : Directive)
  | documentStart
  | documentEnd
  | blockSequence
  | blockMapping
  | blockEnd
  | openList
  | closeList
  | openMap
  | closeMap
  | dash
  | comma
  | key
  | value
  | alias (name : String)
  | anchor (name : String)
  | tag (tag : WrittenTag)
  | scalar (text : String) (plain : Bool)
deriving DecidableEq, Repr

namespace Scan

def name : Scan String := do
  advance 1
  let name ← takeWhile isNameChar
  if name.isEmpty then fail
  let character ← char
  if !(endsToken character || "?:,]\x7d%@`".toList.contains character) then fail
  return String.ofList name

def isTagChar (character : Char) : Bool :=
  character.isAlphanum || "-;/?:@&=+$,_.!~*'()[]".toList.contains character

def tagBytes : Nat → Scan (List UInt8)
  | 0 => return []
  | fuel + 1 => do
    if (← char) ≠ '%' then return []
    advance 1
    let byte ← takeHex 2
    return UInt8.ofNat byte :: (← tagBytes fuel)

def tagPieces : Nat → Scan (List Char)
  | 0 => return []
  | fuel + 1 => do
    let plain ← takeWhile isTagChar
    if (← char) ≠ '%' then return plain
    let bytes ← tagBytes (← remaining)
    match String.fromUTF8? ⟨bytes.toArray⟩ with
    | none => fail
    | some text => return plain ++ text.toList ++ (← tagPieces fuel)

def tagText : Scan String := do
  let text ← tagPieces (← remaining)
  if text.isEmpty then fail
  return String.ofList text

def handle : Scan String := do
  if (← char) ≠ '!' then fail
  advance 1
  if (← char) = ' ' then return "!"
  let name ← takeWhile isNameChar
  if (← char) ≠ '!' then fail
  advance 1
  return String.ofList ('!' :: name ++ ['!'])

def tag : Scan WrittenTag := do
  let second ← charAt 1
  let tag ← if second = '<' then do
      advance 2
      let suffix ← tagText
      if (← char) ≠ '>' then fail
      advance 1
      pure ⟨none, suffix⟩
    else if endsToken second then do
      advance 1
      pure ⟨none, "!"⟩
    else do
      let word := ((← get).rest.drop 1).takeWhile (!endsWord ·)
      let shorthand ← if word.contains '!' then handle else do
        advance 1
        pure "!"
      pure ⟨some shorthand, ← tagText⟩
  if !endsWord (← char) then fail
  return tag

def versionNumber : Scan Nat := do
  let digits ← takeWhile Text.isDigit
  match Text.numberIn? 10 Text.digitOf? digits with
  | some number => if digits.isEmpty then fail else return number
  | none => fail

def directive : Scan Directive := do
  advance 1
  let name ← takeWhile isNameChar
  if name.isEmpty || !endsWord (← char) then fail
  let directive ← match String.ofList name with
    | "YAML" => do
      let _ ← takeWhile (· = ' ')
      let major ← versionNumber
      if (← char) ≠ '.' then fail
      advance 1
      let _ ← versionNumber
      if !endsWord (← char) then fail
      pure (.version major)
    | "TAG" => do
      let _ ← takeWhile (· = ' ')
      let name ← handle
      if (← char) ≠ ' ' then fail
      let _ ← takeWhile (· = ' ')
      let space ← tagText
      if !endsWord (← char) then fail
      pure (.handle name space)
    | _ => do
      let _ ← takeWhile (!endsLine ·)
      pure .other
  endLine
  return directive

end Scan

end Archetype.Yaml
