import Archetype.Text.Blank
import Archetype.Text.Cases
import Archetype.Text.Digits

/-!
# Patterns

Regular expressions over characters: literals, classes, groups, alternatives, repetitions, anchors
and groups that look ahead. `Pattern.occursIn` asks whether a pattern occurs anywhere in a text;
since only that is asked, a match is the set of places where it can end, and greedy and reluctant
repetitions are one.
-/

namespace Archetype.Text

inductive Boundary
  | start
  | finish
  | veryEnd
  | word
  | notWord
deriving DecidableEq, Repr

inductive CharClass
  | digit
  | blank
  | word
deriving DecidableEq, Repr

inductive ClassItem
  | range (first last : Char)
  | named (kind : CharClass) (negated : Bool)
deriving DecidableEq, Repr

inductive Pattern where
  | empty
  | any
  | one (items : List ClassItem) (negated : Bool)
  | boundary (kind : Boundary)
  | sequence (first second : Pattern)
  | choice (first second : Pattern)
  | repeated (pattern : Pattern) (least : Nat) (most? : Option Nat)
  | ahead (pattern : Pattern) (negated : Bool)
deriving Repr

namespace CharClass

def holds : CharClass → Char → Bool
  | digit, character => (digitOf? character).isSome
  | blank, character => isBlank character
  | word, character =>
    character.isAlphanum || character = '_' || (digitOf? character).isSome ||
      (127 < character.toNat && inBoundaries cased character)

end CharClass

def ClassItem.holds : ClassItem → Char → Bool
  | range first last, character => first ≤ character && character ≤ last
  | named kind negated, character => kind.holds character != negated

def isWordAt (text : Array Char) (place : Nat) : Bool :=
  match text[place]? with
  | some character => CharClass.word.holds character
  | none => false

def isWordEdge (text : Array Char) (place : Nat) : Bool :=
  (0 < place && isWordAt text (place - 1)) != isWordAt text place

def Boundary.holds (text : Array Char) (place : Nat) : Boundary → Bool
  | start => place = 0
  | finish => place = text.size || (place + 1 = text.size && text[place]? = some '\n')
  | veryEnd => place = text.size
  | word => isWordEdge text place
  | notWord => !isWordEdge text place

def afterSteps (step : Nat → List Nat) : Nat → List Nat → List Nat
  | 0, places => places
  | count + 1, places => afterSteps step count (places.flatMap step).eraseDups

def withinSteps (step : Nat → List Nat) : Nat → List Nat → List Nat
  | 0, places => places
  | count + 1, places => withinSteps step count (places ++ places.flatMap step).eraseDups

namespace Pattern

def char (character : Char) : Pattern :=
  .one [.range character character] false

def literal (text : String) : Pattern :=
  text.toList.foldr (fun character rest => sequence (char character) rest) empty

def ends (text : Array Char) : Pattern → Nat → List Nat
  | empty, place => [place]
  | any, place =>
    match text[place]? with
    | some character => if character = '\n' then [] else [place + 1]
    | none => []
  | one items negated, place =>
    match text[place]? with
    | some character => if items.any (·.holds character) != negated then [place + 1] else []
    | none => []
  | boundary kind, place => if kind.holds text place then [place] else []
  | sequence first second, place => ((ends text first place).flatMap (ends text second)).eraseDups
  | choice first second, place => (ends text first place ++ ends text second place).eraseDups
  | repeated pattern least most?, place =>
    let step := ends text pattern
    let further := match most? with
      | some most => most - least
      | none => text.size + 1
    withinSteps step further (afterSteps step least [place])
  | ahead pattern negated, place =>
    if (ends text pattern place).isEmpty = negated then [place] else []

def occursIn (pattern : Pattern) (text : String) : Bool :=
  let characters := text.toList.toArray
  (List.range (characters.size + 1)).any fun place => !(ends characters pattern place).isEmpty

def control? : Char → Option Char
  | 'n' => some '\n'
  | 't' => some '\t'
  | 'r' => some '\r'
  | 'f' => some '\x0C'
  | 'v' => some '\x0B'
  | 'a' => some '\x07'
  | '0' => some '\x00'
  | _ => none

def named? : Char → Option ClassItem
  | 'd' => some (.named .digit false)
  | 'D' => some (.named .digit true)
  | 's' => some (.named .blank false)
  | 'S' => some (.named .blank true)
  | 'w' => some (.named .word false)
  | 'W' => some (.named .word true)
  | _ => none

def codeLength? : Char → Option Nat
  | 'x' => some 2
  | 'u' => some 4
  | 'U' => some 8
  | _ => none

def readEscape : List Char → Option (Char × List Char)
  | [] => none
  | letter :: rest =>
    match control? letter, codeLength? letter with
    | some character, _ => some (character, rest)
    | none, some count =>
      (numberIn? 16 hexOf? (rest.take count)).map fun code => (Char.ofNat code, rest.drop count)
    | none, none => if letter.isAlphanum then none else some (letter, rest)

def readMember : List Char → Option (ClassItem × List Char)
  | [] => none
  | '\\' :: letter :: rest =>
    match named? letter with
    | some item => some (item, rest)
    | none =>
      if letter = 'b' then some (.range '\x08' '\x08', rest)
      else (readEscape (letter :: rest)).map fun read => (.range read.1 read.1, read.2)
  | character :: rest => some (.range character character, rest)

/-- The members of a bracketed set up to the closing bracket, which counts as a member at the
start. -/
def readClass : Nat → Bool → List Char → Option (List ClassItem × List Char)
  | 0, _, _ => none
  | fuel + 1, atStart, characters =>
    match characters with
    | ']' :: rest =>
      if atStart then
        (readClass fuel false rest).map fun read => (.range ']' ']' :: read.1, read.2)
      else some ([], rest)
    | _ => do
      let (item, rest) ← readMember characters
      match item, rest with
      | .range first _, '-' :: next :: further =>
        if next = ']' then
          let (items, rest) ← readClass fuel false rest
          return (item :: items, rest)
        else
          let (last, rest) ← readMember (next :: further)
          match last with
          | .range last _ => do
            let (items, rest) ← readClass fuel false rest
            return (.range first last :: items, rest)
          | .named _ _ => none
      | _, _ => do
        let (items, rest) ← readClass fuel false rest
        return (item :: items, rest)

def readBounds (characters : List Char) : Option (Nat × Option Nat × List Char) :=
  let number (digits : List Char) : Nat := (numberIn? 10 digitOf? digits).getD 0
  let least := characters.takeWhile isDigit
  match characters.dropWhile isDigit with
  | '\x7d' :: rest => if least.isEmpty then none else some (number least, some (number least), rest)
  | ',' :: further =>
    let most := further.takeWhile isDigit
    match further.dropWhile isDigit with
    | '\x7d' :: rest => some (number least, if most.isEmpty then none else some (number most), rest)
    | _ => none
  | _ => none

def readRepeats : Nat → Pattern → List Char → Pattern × List Char
  | 0, pattern, characters => (pattern, characters)
  | fuel + 1, pattern, characters =>
    let further (least : Nat) (most? : Option Nat) (rest : List Char) : Pattern × List Char :=
      let rest := match rest with
        | '?' :: rest => rest
        | '+' :: rest => rest
        | _ => rest
      readRepeats fuel (.repeated pattern least most?) rest
    match characters with
    | '*' :: rest => further 0 none rest
    | '+' :: rest => further 1 none rest
    | '?' :: rest => further 0 (some 1) rest
    | '\x7b' :: rest =>
      match readBounds rest with
      | some (least, most?, rest) => further least most? rest
      | none => (pattern, characters)
    | _ => (pattern, characters)

/-- What follows the mark of a group that is not captured, that has a name, or that looks ahead. -/
def groupStart : List Char → List Char
  | '?' :: ':' :: rest | '?' :: '=' :: rest | '?' :: '!' :: rest => rest
  | '?' :: 'P' :: '<' :: rest => (rest.dropWhile (· ≠ '>')).drop 1
  | rest => rest

def groupOf (mark : List Char) (inner : Pattern) : Pattern :=
  match mark with
  | '?' :: '=' :: _ => ahead inner false
  | '?' :: '!' :: _ => ahead inner true
  | _ => inner

mutual

def readChoice : Nat → List Char → Option (Pattern × List Char)
  | 0, _ => none
  | fuel + 1, characters => do
    let (first, rest) ← readSequence fuel characters
    match rest with
    | '|' :: rest => do
      let (second, rest) ← readChoice fuel rest
      return (.choice first second, rest)
    | _ => return (first, rest)

def readSequence : Nat → List Char → Option (Pattern × List Char)
  | 0, _ => none
  | fuel + 1, characters =>
    match characters with
    | [] => some (.empty, [])
    | '|' :: _ => some (.empty, characters)
    | ')' :: _ => some (.empty, characters)
    | _ => do
      let (piece, rest) ← readPiece fuel characters
      let (piece, rest) := readRepeats (rest.length + 1) piece rest
      let (others, rest) ← readSequence fuel rest
      return (.sequence piece others, rest)

def readPiece : Nat → List Char → Option (Pattern × List Char)
  | 0, _ => none
  | fuel + 1, characters =>
    match characters with
    | [] => none
    | '.' :: rest => some (.any, rest)
    | '^' :: rest => some (.boundary .start, rest)
    | '$' :: rest => some (.boundary .finish, rest)
    | '(' :: rest => do
      let (inner, rest) ← readChoice fuel (groupStart rest)
      match rest with
      | ')' :: further => return (groupOf (characters.drop 1) inner, further)
      | _ => none
    | '[' :: '^' :: rest =>
      (readClass (rest.length + 1) true rest).map fun read => (.one read.1 true, read.2)
    | '[' :: rest =>
      (readClass (rest.length + 1) true rest).map fun read => (.one read.1 false, read.2)
    | '\\' :: letter :: rest =>
      match letter with
      | 'A' => some (.boundary .start, rest)
      | 'Z' => some (.boundary .veryEnd, rest)
      | 'b' => some (.boundary .word, rest)
      | 'B' => some (.boundary .notWord, rest)
      | _ =>
        match named? letter with
        | some item => some (.one [item] false, rest)
        | none => (readEscape (letter :: rest)).map fun read => (char read.1, read.2)
    | character :: rest =>
      if ['*', '+', '?', ')'].contains character then none else some (char character, rest)

end

def read? (text : String) : Option Pattern :=
  match readChoice (3 * text.length + 3) text.toList with
  | some (pattern, []) => some pattern
  | _ => none

end Pattern

end Archetype.Text
