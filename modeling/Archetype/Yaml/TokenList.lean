import Archetype.Yaml.ScalarText

/-!
# From text to tokens

The tokens of a text. Blocks are opened and closed by indentation. The first part of an entry of a
map, its key, is recognised only by the colon behind it: whatever may turn out to be a key is kept
in mind with its place among the tokens, and the mark of a key is put there once the colon comes.
A key stands on one line and is at most 1024 characters long.
-/

namespace Archetype.Yaml

structure PossibleKey where
  position : Nat
  required : Bool
  index : Nat
  line : Nat
  column : Nat
deriving Repr

structure Tokens where
  done : Array Token := #[]
  depth : Nat := 0
  blocks : List Nat := []
  keyAllowed : Bool := true
  keys : List (Nat × PossibleKey) := []

abbrev Tokenize := StateT Tokens Scan

namespace Tokenize

def emit (token : Token) : Tokenize Unit :=
  modify fun tokens => { tokens with done := tokens.done.push token }

def emitAt (position : Nat) (token : Token) : Tokenize Unit :=
  modify fun tokens =>
    { tokens with done := tokens.done.take position ++ #[token] ++ tokens.done.drop position }

def allowKey (allowed : Bool) : Tokenize Unit :=
  modify fun tokens => { tokens with keyAllowed := allowed }

def inBlock : Tokenize Bool :=
  return (← get).depth = 0

def cursor : Tokenize Cursor :=
  (get : Scan Cursor)

/-- Blanks, comments and line ends are passed, at most `fuel` lines. Outside brackets a key can
start on a new line. -/
def skipBlanks : Nat → Tokenize Unit
  | 0 => return
  | fuel + 1 => do
    let _ ← Scan.takeWhile (· = ' ')
    if (← Scan.char) = '#' then
      let _ ← Scan.takeWhile (!endsLine ·)
    if (← Scan.takeBreak).isSome then
      if ← inBlock then allowKey true
      skipBlanks fuel

/-- Possible keys that a colon behind the cursor can no longer make keys are forgotten. -/
def dropLateKeys : Tokenize Unit := do
  let cursor ← cursor
  let late (key : PossibleKey) : Bool :=
    key.line ≠ cursor.line || key.index + 1024 < cursor.index
  if (← get).keys.any fun entry => late entry.2 && entry.2.required then Scan.fail
  modify fun tokens => { tokens with keys := tokens.keys.filter fun entry => !late entry.2 }

def dropKey : Tokenize Unit := do
  let depth := (← get).depth
  if (← get).keys.any fun entry => entry.1 = depth && entry.2.required then Scan.fail
  modify fun tokens => { tokens with keys := tokens.keys.filter fun entry => entry.1 ≠ depth }

def markKey : Tokenize Unit := do
  let tokens ← get
  if tokens.keyAllowed then
    dropKey
    let cursor ← cursor
    let required := tokens.depth = 0 && tokens.blocks.head? = some cursor.column
    let key : PossibleKey :=
      ⟨tokens.done.size, required, cursor.index, cursor.line, cursor.column⟩
    modify fun tokens => { tokens with keys := (tokens.depth, key) :: tokens.keys }

def closeBlocks (column? : Option Nat) : Tokenize Unit := do
  let isClosed (block : Nat) : Bool := match column? with
    | some column => column < block
    | none => true
  if ← inBlock then
    let closed := (← get).blocks.takeWhile isClosed
    modify fun tokens =>
      { tokens with
        done := tokens.done ++ (closed.map fun _ => Token.blockEnd).toArray
        blocks := tokens.blocks.dropWhile isClosed }

def openBlock (column : Nat) : Tokenize Bool := do
  let opens := (← get).blocks.head?.all (· < column)
  if opens then
    modify fun tokens => { tokens with blocks := column :: tokens.blocks }
  return opens

/-- Something outside brackets for which a key must be possible; a block of the given kind opens
there if it is further to the right than the innermost one. -/
def startEntry (block : Token) : Tokenize Unit := do
  if ← inBlock then
    if !(← get).keyAllowed then Scan.fail
    if ← openBlock (← cursor).column then emit block

def closeDocument : Tokenize Unit := do
  closeBlocks none
  dropKey
  allowKey false

def openBracket (token : Token) : Tokenize Unit := do
  markKey
  modify fun tokens => { tokens with depth := tokens.depth + 1, keyAllowed := true }
  Scan.advance 1
  emit token

def closeBracket (token : Token) : Tokenize Unit := do
  if ← inBlock then Scan.fail
  dropKey
  modify fun tokens => { tokens with depth := tokens.depth - 1, keyAllowed := false }
  Scan.advance 1
  emit token

def comma : Tokenize Unit := do
  allowKey true
  dropKey
  Scan.advance 1
  emit .comma

def dash : Tokenize Unit := do
  startEntry .blockSequence
  allowKey true
  dropKey
  Scan.advance 1
  emit .dash

def question : Tokenize Unit := do
  startEntry .blockMapping
  allowKey (← inBlock)
  dropKey
  Scan.advance 1
  emit .key

def colon : Tokenize Unit := do
  let depth := (← get).depth
  match (← get).keys.lookup depth with
  | some key =>
    modify fun tokens => { tokens with keys := tokens.keys.filter fun entry => entry.1 ≠ depth }
    emitAt key.position .key
    if ← inBlock then
      if ← openBlock key.column then emitAt key.position .blockMapping
    allowKey false
  | none =>
    startEntry .blockMapping
    allowKey (← inBlock)
    dropKey
  Scan.advance 1
  emit .value

def simple (read : Scan Token) : Tokenize Unit := do
  markKey
  allowKey false
  emit (← read)

def block (folded : Bool) : Tokenize Unit := do
  allowKey true
  dropKey
  let least := match (← get).blocks with
    | [] => 1
    | column :: _ => column + 1
  emit (.scalar (← Scan.block folded least) false)

def plain : Tokenize Unit := do
  markKey
  let indent := match (← get).blocks with
    | [] => 0
    | column :: _ => column + 1
  let (text, broken) ← Scan.plain indent (!(← inBlock))
  allowKey broken
  emit (.scalar text true)

def startsPlain (inFlow : Bool) (character after : Char) : Bool :=
  !(endsToken character || "-?:,[]\x7b\x7d#&*!|>'\"%@`".toList.contains character) ||
    (!endsToken after && (character = '-' || (!inFlow && (character = '?' || character = ':'))))

def step : Tokenize Bool := do
  skipBlanks ((← Scan.remaining) + 1)
  dropLateKeys
  let cursor ← cursor
  closeBlocks (some cursor.column)
  let flow := !(← inBlock)
  let character := cursor.charAt 0
  let after := cursor.charAt 1
  let stands := flow || endsToken after
  if character = finish then
    closeDocument
    return false
  if character = '%' && cursor.column = 0 then
    closeDocument
    emit (.directive (← Scan.directive))
  else if cursor.column = 0 && cursor.isSeparator '-' then
    closeDocument
    Scan.advance 3
    emit .documentStart
  else if cursor.column = 0 && cursor.isSeparator '.' then
    closeDocument
    Scan.advance 3
    emit .documentEnd
  else if character = '[' then openBracket .openList
  else if character = '\x7b' then openBracket .openMap
  else if character = ']' then closeBracket .closeList
  else if character = '\x7d' then closeBracket .closeMap
  else if character = ',' then comma
  else if character = '-' && endsToken after then dash
  else if character = '?' && stands then question
  else if character = ':' && stands then colon
  else if character = '*' then simple (Token.alias <$> Scan.name)
  else if character = '&' then simple (Token.anchor <$> Scan.name)
  else if character = '!' then simple (Token.tag <$> Scan.tag)
  else if character = '|' && !flow then block false
  else if character = '>' && !flow then block true
  else if character = '\'' then simple ((Token.scalar · false) <$> Scan.quoted false)
  else if character = '"' then simple ((Token.scalar · false) <$> Scan.quoted true)
  else if startsPlain flow character after then plain
  else Scan.fail
  return true

def steps : Nat → Tokenize Unit
  | 0 => return
  | fuel + 1 => do
    if ← step then steps fuel

end Tokenize

def isAllowed (character : Char) : Bool :=
  let code := character.toNat
  code = 9 || code = 10 || code = 13 || (0x20 ≤ code && code ≤ 0x7E) || code = 0x85 ||
    (0xA0 ≤ code && code ≤ 0xFFFD) || 0x10000 ≤ code

def tokens (text : List Char) : Except Error (List Token) :=
  if !text.all isAllowed then .error .malformed
  else
    let start := Cursor.start text
    let start := if start.charAt 0 = '\uFEFF' then start.next else start
    match ((Tokenize.steps (text.length + 1)).run {}).run start with
    | .ok ((_, tokens), _) => .ok tokens.done.toList
    | .error error => .error error

end Archetype.Yaml
