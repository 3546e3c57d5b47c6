import Archetype.Yaml.Token

namespace Archetype.Yaml

def foldBreaks (first : Char) (others : List Char) : List Char :=
  if first ≠ '\n' then first :: others else if others.isEmpty then [' '] else others

namespace Scan

/-! ## Plain scalars -/

def plainWord (inFlow : Bool) : List Char → Nat
  | [] => 0
  | character :: rest =>
    let after := rest.headD finish
    let colon := character = ':' &&
      (endsToken after || (inFlow && ",[]\x7b\x7d".toList.contains after))
    if endsToken character || colon || (inFlow && ",?[]\x7b\x7d".toList.contains character) then 0
    else plainWord inFlow rest + 1

def plainBreaks : Nat → Scan (Option (List Char))
  | 0 => return some []
  | fuel + 1 => do
    let _ ← takeWhile (· = ' ')
    match ← takeBreak with
    | none => return some []
    | some lineBreak =>
      if (← get).atSeparator then return none
      return (← plainBreaks fuel).map (lineBreak :: ·)

def plainGap : Scan (List Char × Bool) := do
  let spaces ← takeWhile (· = ' ')
  match ← takeBreak with
  | none => return (spaces, false)
  | some lineBreak =>
    if (← get).atSeparator then return ([], true)
    match ← plainBreaks (← remaining) with
    | none => return ([], true)
    | some others => return (foldBreaks lineBreak others, true)

/-- The words of a plain scalar after a gap, and whether a line ended after the last one. The words
of a scalar in a block stand at `indent` or further to the right. -/
def plainWords (indent : Nat) (inFlow : Bool) : Nat → List Char → Bool → Scan (List Char × Bool)
  | 0, _, broken => return ([], broken)
  | fuel + 1, gap, broken => do
    let rest := (← get).rest
    let length := plainWord inFlow rest
    if (← char) = '#' || length = 0 then return ([], broken)
    advance length
    let (space, broken) ← plainGap
    let ended := space.isEmpty || (← char) = '#' || (!inFlow && (← get).column < indent)
    let (others, broken) ←
      if ended then pure ([], broken) else plainWords indent inFlow fuel space broken
    return (gap ++ rest.take length ++ others, broken)

def plain (indent : Nat) (inFlow : Bool) : Scan (String × Bool) := do
  let (text, broken) ← plainWords indent inFlow (← remaining) [] false
  return (String.ofList text, broken)

/-! ## Quoted scalars -/

def quotedBreaks : Nat → Scan (List Char)
  | 0 => return []
  | fuel + 1 => do
    if (← get).atSeparator then fail
    let _ ← takeWhile fun character => character = ' ' || character = '\t'
    match ← takeBreak with
    | none => return []
    | some lineBreak => return lineBreak :: (← quotedBreaks fuel)

def quotedGap : Scan (List Char) := do
  let blanks ← takeWhile fun character => character = ' ' || character = '\t'
  if (← char) = finish then fail
  match ← takeBreak with
  | none => return blanks
  | some lineBreak => return foldBreaks lineBreak (← quotedBreaks (← remaining))

def escaped? : Char → Option Char
  | '0' => some '\x00'
  | 'a' => some '\x07'
  | 'b' => some '\x08'
  | 't' => some '\t'
  | '\t' => some '\t'
  | 'n' => some '\n'
  | 'v' => some '\x0B'
  | 'f' => some '\x0C'
  | 'r' => some '\r'
  | 'e' => some '\x1B'
  | ' ' => some ' '
  | '"' => some '"'
  | '\\' => some '\\'
  | '/' => some '/'
  | 'N' => some '\x85'
  | '_' => some '\xA0'
  | 'L' => some '\u2028'
  | 'P' => some '\u2029'
  | _ => none

def codeLength? : Char → Option Nat
  | 'x' => some 2
  | 'u' => some 4
  | 'U' => some 8
  | _ => none

def escape : Scan (List Char) := do
  let letter ← char
  match escaped? letter, codeLength? letter with
  | some character, _ => do
    advance 1
    return [character]
  | none, some count => do
    advance 1
    let code ← takeHex count
    if code.isValidChar then return [Char.ofNat code]
    if 0x110000 ≤ code then throw (.reading .noCharacter)
    fail
  | none, none => do
    match ← takeBreak with
    | none => fail
    | some _ => quotedBreaks (← remaining)

def quotedWord (double : Bool) : Nat → Scan (List Char)
  | 0 => return []
  | fuel + 1 => do
    let ordinary ← takeWhile fun character =>
      !(endsToken character || ['\'', '"', '\\'].contains character)
    let mark ← char
    if !double && mark = '\'' && (← charAt 1) = '\'' then
      advance 2
      return ordinary ++ '\'' :: (← quotedWord double fuel)
    else if (double && mark = '\'') || (!double && (mark = '"' || mark = '\\')) then
      advance 1
      return ordinary ++ mark :: (← quotedWord double fuel)
    else if double && mark = '\\' then
      advance 1
      let meant ← escape
      return ordinary ++ meant ++ (← quotedWord double fuel)
    else return ordinary

def quotedWords (double : Bool) : Nat → Scan (List Char)
  | 0 => fail
  | fuel + 1 => do
    let word ← quotedWord double (← remaining)
    if (← char) = (if double then '"' else '\'') then
      advance 1
      return word
    else do
      let gap ← quotedGap
      return word ++ gap ++ (← quotedWords double fuel)

def quoted (double : Bool) : Scan String := do
  advance 1
  return String.ofList (← quotedWords double ((← remaining) + 1))

/-! ## Blocks of lines -/

def skipIndent (indent : Nat) : Scan Unit := do
  let cursor ← get
  advance (min (cursor.rest.takeWhile (· = ' ')).length (indent - cursor.column))

def blockBreaks (indent : Nat) : Nat → Scan (List Char)
  | 0 => return []
  | fuel + 1 => do
    skipIndent indent
    match ← takeBreak with
    | none => return []
    | some lineBreak => return lineBreak :: (← blockBreaks indent fuel)

def leadingBreaks : Nat → Nat → Scan (List Char × Nat)
  | 0, widest => return ([], widest)
  | fuel + 1, widest => do
    let spaces ← takeWhile (· = ' ')
    let column := (← get).column
    let widest := if spaces.isEmpty then widest else max widest column
    match ← takeBreak with
    | none => return ([], widest)
    | some lineBreak => do
      let (others, widest) ← leadingBreaks fuel widest
      return (lineBreak :: others, widest)

inductive Chomping
  | strip
  | clip
  | keep
deriving DecidableEq, Repr

/-- The number that a digit other than zero announces as the indentation of a block. -/
def indentDigit : Scan (Option Nat) := do
  let character ← char
  if Text.isDigit character then
    advance 1
    let number := character.toNat - 48
    if number = 0 then fail else return some number
  else return none

def chompingSign : Scan (Option Chomping) := do
  match ← char with
  | '+' => do
    advance 1
    return some .keep
  | '-' => do
    advance 1
    return some .strip
  | _ => return none

def blockHeader : Scan (Chomping × Option Nat) := do
  let sign ← chompingSign
  let digit ← indentDigit
  let late ← if sign.isSome then pure none else if digit.isSome then chompingSign else pure none
  if !endsWord (← char) then fail
  endLine
  return ((sign.or late).getD .clip, digit)

def atBlockLine (indent : Nat) : Scan Bool := do
  let cursor ← get
  return cursor.column = indent && cursor.charAt 0 ≠ finish

/-- The lines of a block after some empty lines: the text, the end of its last line, and the ends
of the empty lines after it. -/
def blockLines (folded : Bool) (indent : Nat) :
    Nat → List Char → Scan (List Char × List Char × List Char)
  | 0, breaks => return ([], [], breaks)
  | fuel + 1, breaks => do
    if !(← atBlockLine indent) then return ([], [], breaks)
    let line ← takeWhile (!endsLine ·)
    let lineBreak := (← takeBreak).toList
    let after ← blockBreaks indent (← remaining)
    if ← atBlockLine indent then
      let indented := [line.headD finish, ← char].any fun character =>
        character = ' ' || character = '\t'
      let joint := if folded && lineBreak = ['\n'] && !indented then
          (if after.isEmpty then [' '] else [])
        else lineBreak
      let (others, last, empty) ← blockLines folded indent fuel after
      return (breaks ++ line ++ joint ++ others, last, empty)
    else return (breaks ++ line, lineBreak, after)

def block (folded : Bool) (least : Nat) : Scan String := do
  advance 1
  let (chomping, digit?) ← blockHeader
  let (breaks, indent) ← match digit? with
    | some digit => do
      let indent := least + digit - 1
      pure (← blockBreaks indent (← remaining), indent)
    | none => do
      let (breaks, widest) ← leadingBreaks (← remaining) 0
      pure (breaks, max least widest)
  let (text, lineBreak, after) ← blockLines folded indent (← remaining) breaks
  return String.ofList (text ++ match chomping with
    | .strip => []
    | .clip => lineBreak
    | .keep => lineBreak ++ after)

end Scan

end Archetype.Yaml
