import Archetype.Text.Digits
import Archetype.Text.Quoted
import Archetype.Text.Split

namespace Archetype.Command

structure Flag where
  names : List String
  takesValue : Bool := false
deriving DecidableEq, Repr

def Flag.label (flag : Flag) : String :=
  "/".intercalate flag.names

structure Positional where
  name : String
  takesAll : Bool := false
deriving DecidableEq, Repr

structure Grammar where
  flags : List Flag
  positionals : List Positional
deriving Repr

inductive Misuse
  | ambiguous (argument : String) (names : List String)
  | noValue (flag : Flag)
  | unusedValue (flag : Flag) (value : String)
  | missing (names : List String)
  | unknownCommand (given : String) (known : List String)
  | unknown (arguments : List String)
deriving DecidableEq, Repr

def Misuse.message : Misuse → String
  | ambiguous argument names =>
    "ambiguous option: " ++ argument ++ " could match " ++ ", ".intercalate names
  | noValue flag => "argument " ++ flag.label ++ ": expected one argument"
  | unusedValue flag value =>
    "argument " ++ flag.label ++ ": ignored explicit argument " ++ Text.quoted value
  | missing names => "the following arguments are required: " ++ ", ".intercalate names
  | unknownCommand given known =>
    "argument command: invalid choice: " ++ Text.quoted given ++ " (choose from " ++
      ", ".intercalate (known.map Text.quoted) ++ ")"
  | unknown arguments => "unrecognized arguments: " ++ " ".intercalate arguments

inductive Stop
  | help
  | misuse (misuse : Misuse)
deriving DecidableEq, Repr

inductive Use
  | flag (flag : Flag) (value? : Option String)
  | positional (name : String) (values : List String)
deriving DecidableEq, Repr

def helpFlag : Flag := ⟨["-h", "--help"], false⟩

/-! ## Single arguments -/

inductive Tail
  | nothing
  | assigned (value : List Char)
  /-- What follows a flag of one letter: its value, or more flags. -/
  | joined (rest : List Char)
deriving DecidableEq, Repr

inductive Item
  | plain (text : String)
  | separator
  | flag (text : String) (flag : Flag) (tail : Tail)
  | unknown (text : String)
deriving DecidableEq, Repr

def Item.text : Item → String
  | plain text | flag text _ _ | unknown text => text
  | separator => "--"

/-- A text is a number below zero: digits, of which some can follow a point. A line feed may come
last. -/
def isNegative (characters : List Char) : Bool :=
  let allDigits (characters : List Char) : Bool :=
    !characters.isEmpty && characters.all fun character => (Text.digitOf? character).isSome
  match characters with
  | '-' :: number =>
    let number := if number.getLast? = some '\n' then number.dropLast else number
    match Text.cutFirst '.' number with
    | (whole, none) => allDigits whole
    | (whole, some fraction) => (whole.isEmpty || allDigits whole) && allDigits fraction
  | _ => false

namespace Grammar

def spellings (grammar : Grammar) : List (String × Flag) :=
  grammar.flags.flatMap fun flag => flag.names.map fun name => (name, flag)

def flag? (grammar : Grammar) (name : List Char) : Option Flag :=
  (grammar.spellings.find? fun spelling => spelling.1.toList = name).map (·.2)

def expansions (grammar : Grammar) (start : List Char) : List (String × Flag) :=
  grammar.spellings.filter fun spelling => start.isPrefixOf spelling.1.toList

def readOther (argument : String) : Item :=
  if isNegative argument.toList || argument.toList.contains ' ' then .plain argument
  else .unknown argument

def readLong (grammar : Grammar) (argument : String) : Except Stop Item :=
  let (name, value?) := Text.cutFirst '=' argument.toList
  let tail := (value?.map Tail.assigned).getD .nothing
  match grammar.flag? name, grammar.expansions name with
  | some flag, _ => .ok (.flag argument flag tail)
  | none, [] => .ok (readOther argument)
  | none, [(_, flag)] => .ok (.flag argument flag tail)
  | none, several => .error (.misuse (.ambiguous argument (several.map (·.1))))

def readShort (grammar : Grammar) (argument : String) (letter : Char) (rest : List Char) : Item :=
  match grammar.flag? ['-', letter], rest with
  | some flag, [] => .flag argument flag .nothing
  | some flag, '=' :: value => .flag argument flag (.assigned value)
  | some flag, rest => .flag argument flag (.joined rest)
  | none, _ => readOther argument

def read (grammar : Grammar) : List String → Except Stop (List Item)
  | [] => .ok []
  | argument :: arguments =>
    if argument = "--" then .ok (.separator :: arguments.map .plain)
    else do
      let item ← match argument.toList with
        | '-' :: '-' :: _ => grammar.readLong argument
        | '-' :: letter :: rest => pure (grammar.readShort argument letter rest)
        | _ => pure (.plain argument)
      return item :: (← grammar.read arguments)

/-! ## Flags -/

inductive Ending
  | bare (flag : Flag)
  | value (flag : Flag) (text : String)
  | unknown (rest : String)
deriving DecidableEq, Repr

def assigned (flag : Flag) (value : List Char) : Except Stop Ending :=
  if flag.takesValue then .ok (.value flag (String.ofList value))
  else .error (.misuse (.unusedValue flag (String.ofList value)))

/-- The flags of one letter in an argument, of which `flag` is the first one: those before the
last, and the last. -/
def letters (grammar : Grammar) (flag : Flag) : List Char → Except Stop (List Flag × Ending)
  | [] => .ok ([], .bare flag)
  | '-' :: rest => (assigned flag ('-' :: rest)).map fun ending => ([], ending)
  | letter :: rest =>
    if flag.takesValue then .ok ([], .value flag (String.ofList (letter :: rest)))
    else
      match grammar.flag? ['-', letter], rest with
      | none, _ => .ok ([flag], .unknown (String.ofList ('-' :: letter :: rest)))
      | some next, '=' :: value => (assigned next value).map fun ending => ([flag], ending)
      | some next, _ =>
        (letters grammar next rest).map fun (before, ending) => (flag :: before, ending)

def unfold (grammar : Grammar) (flag : Flag) : Tail → Except Stop (List Flag × Ending)
  | .nothing => .ok ([], .bare flag)
  | .assigned value => (assigned flag value).map fun ending => ([], ending)
  | .joined rest => grammar.letters flag rest

def useFlags (flags : List Flag) (value? : Option String) (flag? : Option Flag) :
    Except Stop (List Use) :=
  let all := flags ++ flag?.toList
  if all.contains helpFlag then .error .help
  else
    .ok (flags.map (.flag · none) ++ flag?.toList.map (.flag · value?))

end Grammar

/-! ## All arguments -/

structure Reading where
  uses : List Use := []
  rest : List String := []
deriving DecidableEq, Repr

def Reading.append (first second : Reading) : Reading :=
  ⟨first.uses ++ second.uses, first.rest ++ second.rest⟩

/-- The positional argument of a text. The separator itself is no value, unless another separator
stands before it. -/
def Positional.use (positional : Positional) (afterSeparator : Bool) (text : String) : Use :=
  .positional positional.name (if text = "--" && !afterSeparator then [] else [text])

inductive Position
  | start
  | afterPositional
  /-- A separator comes directly before, which belongs to the next positional argument. -/
  | afterSeparator
deriving DecidableEq, Repr

namespace Grammar

/-- The uses of arguments. A separator belongs to the positional argument before it or else to the
one after it. -/
def use (grammar : Grammar) (positionals : List Positional) (position : Position) :
    List Item → Except Stop Reading
  | [] => .ok {}
  | .unknown text :: items => do
    return Reading.append ⟨[], [text]⟩ (← use grammar positionals .start items)
  | .plain text :: items =>
    match positionals with
    | [] => do return Reading.append ⟨[], [text]⟩ (← use grammar [] .start items)
    | positional :: others =>
      if positional.takesAll then
        .ok ⟨[.positional positional.name (text :: items.map Item.text)], []⟩
      else do
        let first := positional.use (position = .afterSeparator) text
        return Reading.append ⟨[first], []⟩ (← use grammar others .afterPositional items)
  | .separator :: items =>
    if position = .afterPositional then use grammar positionals .start items
    else
      match positionals, items with
      | positional :: _, _ :: _ =>
        if positional.takesAll then
          .ok ⟨[.positional positional.name ("--" :: items.map Item.text)], []⟩
        else use grammar positionals .afterSeparator items
      | _, _ => do return Reading.append ⟨[], ["--"]⟩ (← use grammar positionals .start items)
  | .flag _ flag tail :: items => do
    let (before, ending) ← grammar.unfold flag tail
    match ending with
    | .value flag text =>
      let uses ← useFlags before (some text) (some flag)
      return Reading.append ⟨uses, []⟩ (← use grammar positionals .start items)
    | .unknown rest =>
      let uses ← useFlags before none none
      return Reading.append ⟨uses, [rest]⟩ (← use grammar positionals .start items)
    | .bare flag =>
      if flag.takesValue then
        match items with
        | .plain text :: items =>
          let uses ← useFlags before (some text) (some flag)
          return Reading.append ⟨uses, []⟩ (← use grammar positionals .start items)
        | _ => throw (.misuse (.noValue flag))
      else
        let uses ← useFlags before none (some flag)
        return Reading.append ⟨uses, []⟩ (← use grammar positionals .start items)

def missing (grammar : Grammar) (uses : List Use) : List String :=
  (grammar.positionals.map (·.name)).filter fun name =>
    !uses.any (isNamed name)
where
  isNamed (name : String) : Use → Bool
    | .positional other _ => other = name
    | .flag _ _ => false

def parse (grammar : Grammar) (arguments : List String) : Except Stop Reading := do
  let reading ← grammar.use grammar.positionals .start (← grammar.read arguments)
  let missing := grammar.missing reading.uses
  if missing.isEmpty then return reading else throw (.misuse (.missing missing))

end Grammar

end Archetype.Command
