import Archetype.Text.Digits
import Archetype.Yaml.Error

namespace Archetype.Yaml

def finish : Char := '\x00'

def isBreak (character : Char) : Bool :=
  character = '\n' || character = '\x85' || character = '\u2028' || character = '\u2029'

def endsLine (character : Char) : Bool :=
  isBreak character || character = finish

def endsWord (character : Char) : Bool :=
  character = ' ' || endsLine character

def endsToken (character : Char) : Bool :=
  character = '\t' || endsWord character

def isNameChar (character : Char) : Bool :=
  character.isAlphanum || character = '-' || character = '_'

structure Cursor where
  rest : List Char
  index : Nat
  line : Nat
  column : Nat
deriving Repr

namespace Cursor

def start (characters : List Char) : Cursor :=
  ⟨characters, 0, 0, 0⟩

def charAt (cursor : Cursor) (offset : Nat) : Char :=
  cursor.rest.getD offset finish

/-- The place behind the next character; a byte order mark takes no column. -/
def next (cursor : Cursor) : Cursor :=
  match cursor.rest with
  | [] => cursor
  | character :: rest =>
    if isBreak character then ⟨rest, cursor.index + 1, cursor.line + 1, 0⟩
    else
      ⟨rest, cursor.index + 1, cursor.line,
        if character = '\uFEFF' then cursor.column else cursor.column + 1⟩

def skip : Nat → Cursor → Cursor
  | 0, cursor => cursor
  | count + 1, cursor => skip count cursor.next

def isSeparator (cursor : Cursor) (mark : Char) : Bool :=
  [0, 1, 2].all (cursor.charAt · = mark) && endsToken (cursor.charAt 3)

def atSeparator (cursor : Cursor) : Bool :=
  cursor.isSeparator '-' || cursor.isSeparator '.'

end Cursor

abbrev Scan := StateT Cursor (Except Error)

namespace Scan

def fail {α : Type} : Scan α :=
  throw .malformed

def charAt (offset : Nat) : Scan Char :=
  return (← get).charAt offset

def char : Scan Char :=
  charAt 0

def advance (count : Nat) : Scan Unit :=
  modify (Cursor.skip count)

def takeWhile (accept : Char → Bool) : Scan (List Char) := do
  let taken := (← get).rest.takeWhile accept
  advance taken.length
  return taken

def remaining : Scan Nat :=
  return (← get).rest.length

def takeBreak : Scan (Option Char) := do
  let character ← char
  if isBreak character then
    advance 1
    return some (if character = '\x85' then '\n' else character)
  else return none

def endLine : Scan Unit := do
  let _ ← takeWhile (· = ' ')
  if (← char) = '#' then
    let _ ← takeWhile (!endsLine ·)
  if !endsLine (← char) then fail
  let _ ← takeBreak

def takeHex (count : Nat) : Scan Nat := do
  let digits := (← get).rest.take count
  match Text.numberIn? 16 Text.hexOf? digits with
  | some number =>
    if digits.length = count then
      advance count
      return number
    else fail
  | none => fail

end Scan

end Archetype.Yaml
