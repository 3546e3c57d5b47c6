import Archetype.Text.Base64
import Archetype.Text.Split
import Archetype.Value
import Archetype.Yaml.Cursor

namespace Archetype.Yaml

inductive Kind
  | null
  | truth
  | integer
  | decimal
  | octets
  | moment
  | text
  | list
  | map
  | set
  | pairs
  /-- As a key: what is merged into the map. -/
  | merge
  /-- As a key: the scalar that stands for the map. -/
  | standIn
  | unknown
deriving DecidableEq, Repr

def commonSpace : String := "tag:yaml.org,2002:"

def commonKinds : List (String × Kind) :=
  [("null", .null), ("bool", .truth), ("int", .integer), ("float", .decimal),
    ("binary", .octets), ("timestamp", .moment), ("str", .text), ("seq", .list), ("map", .map),
    ("set", .set), ("omap", .pairs), ("pairs", .pairs), ("merge", .merge), ("value", .standIn)]

def Kind.ofTag (tag : String) : Kind :=
  ((commonKinds.find? fun entry => commonSpace ++ entry.1 = tag).map (·.2)).getD .unknown

def unsigned (characters : List Char) : List Char :=
  match characters with
  | '-' :: rest => rest
  | '+' :: rest => rest
  | _ => characters

def isDigitOrGap (character : Char) : Bool :=
  Text.isDigit character || character = '_'

def isGappedNumber : List Char → Bool
  | [] => false
  | first :: rest => Text.isDigit first && rest.all isDigitOrGap

def isSixtieth (characters : List Char) : Bool :=
  match characters with
  | [digit] => Text.isDigit digit
  | [ten, digit] => Text.isDigit ten && ten.toNat < 54 && Text.isDigit digit
  | _ => false

def isSexagesimal (characters : List Char) : Bool :=
  match Text.pieces ':' characters with
  | first :: second :: others => isGappedNumber first && (second :: others).all isSixtieth
  | _ => false

def isIntegerForm (characters : List Char) : Bool :=
  match unsigned characters with
  | ['0'] => true
  | '0' :: 'b' :: rest => !rest.isEmpty && rest.all ['0', '1', '_'].contains
  | '0' :: 'x' :: rest =>
    !rest.isEmpty && rest.all fun digit => (Text.hexOf? digit).isSome || digit = '_'
  | '0' :: rest => rest.all fun digit => (isDigitOrGap digit && digit ≠ '8' && digit ≠ '9')
  | digits => isGappedNumber digits || isSexagesimal digits

def isExponentForm : List Char → Bool
  | [] => true
  | mark :: sign :: digits =>
    (mark = 'e' || mark = 'E') && (sign = '-' || sign = '+') && !digits.isEmpty &&
      digits.all Text.isDigit
  | _ => false

def isDecimalForm (characters : List Char) : Bool :=
  let magnitude := unsigned characters
  if [".inf", ".Inf", ".INF"].contains (String.ofList magnitude) then true
  else if [".nan", ".NaN", ".NAN"].contains (String.ofList characters) then true
  else
    match Text.cutFirst '.' magnitude with
    | (_, none) => false
    | ([], some (first :: rest)) =>
      magnitude = characters && Text.isDigit first && isExponentForm (rest.dropWhile isDigitOrGap)
    | (whole, some fraction) =>
      let rest := fraction.dropWhile isDigitOrGap
      (isGappedNumber whole && isExponentForm rest) || (isSexagesimal whole && rest.isEmpty)

/-- A scalar's text without one line feed at its end, which the forms disregard. -/
def trimmedForm (characters : List Char) : List Char :=
  if characters.getLast? = some '\n' then characters.dropLast else characters

structure Timestamp where
  year : List Char
  month : List Char
  day : List Char
  time? : Option (List Char × List Char × List Char × List Char)
  universal : Bool
  offset? : Option (Char × List Char × List Char)

def takeDigits? (least most : Nat) (characters : List Char) : Option (List Char × List Char) :=
  let digits := (characters.take most).takeWhile Text.isDigit
  if digits.length < least then none else some (digits, characters.drop digits.length)

def after? (mark : Char) : List Char → Option (List Char)
  | [] => none
  | first :: rest => if first = mark then some rest else none

def Timestamp.zone? (stamp : Timestamp) (characters : List Char) : Option Timestamp :=
  match characters.dropWhile fun blank => blank = ' ' || blank = '\t' with
  | [] => if characters.isEmpty then some stamp else none
  | ['Z'] => some { stamp with universal := true }
  | sign :: rest => do
    if sign ≠ '+' ∧ sign ≠ '-' then none
    let (hours, rest) ← takeDigits? 1 2 rest
    if rest.isEmpty then return { stamp with offset? := some (sign, hours, []) }
    let (minutes, rest) ← takeDigits? 2 2 (← after? ':' rest)
    if rest.isEmpty then return { stamp with offset? := some (sign, hours, minutes) } else none

def Timestamp.ofChars? (characters : List Char) : Option Timestamp := do
  let (year, rest) ← takeDigits? 4 4 characters
  let (month, rest) ← takeDigits? 1 2 (← after? '-' rest)
  let (day, rest) ← takeDigits? 1 2 (← after? '-' rest)
  let stamp : Timestamp := ⟨year, month, day, none, false, none⟩
  if rest.isEmpty then return stamp
  let rest ← match rest with
    | mark :: others =>
      if mark = 'T' ∨ mark = 't' then some others
      else if mark = ' ' ∨ mark = '\t' then
        some (others.dropWhile fun blank => blank = ' ' || blank = '\t')
      else none
    | [] => none
  let (hour, rest) ← takeDigits? 1 2 rest
  let (minute, rest) ← takeDigits? 2 2 (← after? ':' rest)
  let (second, rest) ← takeDigits? 2 2 (← after? ':' rest)
  let (fraction, rest) := match rest with
    | '.' :: others => (others.takeWhile Text.isDigit, others.dropWhile Text.isDigit)
    | _ => ([], rest)
  Timestamp.zone? { stamp with time? := some (hour, minute, second, fraction) } rest

def isTimestampForm (characters : List Char) : Bool :=
  match Timestamp.ofChars? characters with
  | none => false
  | some stamp => stamp.time?.isSome || (stamp.month.length = 2 && stamp.day.length = 2)

def truthWords : List (String × Bool) :=
  [("yes", true), ("no", false), ("true", true), ("false", false), ("on", true), ("off", false)]

def isSpelling (word : String) (characters : List Char) : Bool :=
  let letters := word.toList
  characters = letters || characters = letters.map Char.toUpper ||
    characters = (letters.take 1).map Char.toUpper ++ letters.drop 1

def Kind.ofPlain (text : String) : Kind :=
  let characters := text.toList
  let form := trimmedForm characters
  if characters.isEmpty || form = ['~'] || isSpelling "null" form then .null
  else if truthWords.any fun entry => isSpelling entry.1 form then .truth
  else if isDecimalForm form then .decimal
  else if isIntegerForm form then .integer
  else if form = ['<', '<'] then .merge
  else if form = ['='] then .standIn
  else if isTimestampForm form then .moment
  else if form = ['!'] || form = ['&'] || form = ['*'] then .unknown
  else .text

def digitLimit : Nat := 4300

def baseLetter? : Nat → Option Char
  | 2 => some 'b'
  | 8 => some 'o'
  | 16 => some 'x'
  | _ => none

def digitValue? (character : Char) : Option Nat :=
  match Text.digitOf? character with
  | some digit => some digit
  | none => Text.hexOf? character

/-- The integer that a numeral in a base denotes. Blanks around it, a sign and a zero with the
letter of the base are passed. -/
def readInteger (base : Nat) (characters : List Char) : Except ReadingError Int :=
  let trimmed := Text.trim Text.isBlank characters
  let magnitude := unsigned trimmed
  let digits := match magnitude with
    | '0' :: letter :: rest =>
      if baseLetter? base = some letter.toLower && !rest.isEmpty then rest else magnitude
    | _ => magnitude
  match Text.numberIn? base digitValue? digits with
  | some number =>
    if digits.isEmpty then .error (.notInteger base (String.ofList characters))
    else if base = 10 ∧ digitLimit < digits.length then .error (.tooManyDigits digits.length)
    else .ok (if trimmed.head? = some '-' then -(number : Int) else number)
  | none => .error (.notInteger base (String.ofList characters))

def sexagesimal (parts : List Int) : Int :=
  parts.foldl (fun total part => total * 60 + part) 0

def integerOf (text : String) : Except ReadingError Int := do
  let characters := text.toList.filter (· ≠ '_')
  let magnitude := unsigned characters
  let number ← match characters, magnitude with
    | [], _ => throw .noNumeral
    | _, ['0'] => pure 0
    | _, '0' :: 'b' :: rest => readInteger 2 rest
    | _, '0' :: 'x' :: rest => readInteger 16 rest
    | _, '0' :: _ => readInteger 8 magnitude
    | _, [] => throw .noNumeral
    | _, _ =>
      if magnitude.contains ':' then
        return signed characters (sexagesimal (← (Text.pieces ':' magnitude).mapM (readInteger 10)))
      else readInteger 10 magnitude
  return signed characters number
where
  signed (characters : List Char) (number : Int) : Int :=
    if characters.head? = some '-' then -number else number

def readNumber (characters : List Char) : Except ReadingError Double :=
  match Double.read? (String.ofList characters) with
  | some number => .ok number
  | none => .error (.notNumber (String.ofList characters))

def sumSixtieths (base : Nat) (total : Double) : List Double → Double
  | [] => total
  | part :: parts =>
    sumSixtieths (base * 60) (total.add (part.mul (Double.ofDecimal base 0))) parts

def decimalOf (text : String) : Except ReadingError Double := do
  let characters := (Text.lower text).toList.filter (· ≠ '_')
  if characters.isEmpty then throw .noNumeral
  let magnitude := unsigned characters
  let number ←
    if magnitude = ".inf".toList then pure (Double.infinity false)
    else if magnitude = ".nan".toList then return .nan
    else if magnitude.contains ':' then do
      let parts ← (Text.pieces ':' magnitude).mapM readNumber
      pure (sumSixtieths 1 ⟨0⟩ parts.reverse)
    else readNumber magnitude
  return if characters.head? = some '-' then number.negate else number

def numberOf (digits : List Char) : Nat :=
  (Text.numberIn? 10 Text.digitOf? digits).getD 0

def momentOf (text : String) : Except ReadingError Value := do
  let some stamp := Timestamp.ofChars? (trimmedForm text.toList) | throw .notMoment
  let date : Date := ⟨numberOf stamp.year, numberOf stamp.month, numberOf stamp.day⟩
  match stamp.time? with
  | none =>
    match date.check with
    | .ok date => return .date date
    | .error error => throw (.calendar error)
  | some (hour, minute, second, fraction) =>
    let microsecond := numberOf ((fraction ++ List.replicate 6 '0').take 6)
    let offset? : Option Int := match stamp.offset? with
      | some (sign, hours, minutes) =>
        let span : Int := numberOf hours * 60 + numberOf minutes
        some (if sign = '-' then -span else span)
      | none => if stamp.universal then some 0 else none
    let moment : Moment :=
      ⟨date, numberOf hour, numberOf minute, numberOf second, microsecond, offset?⟩
    match moment.check with
    | .ok moment => return .moment moment
    | .error error => throw (.calendar error)

def Kind.read (kind : Kind) (text : String) : Except Error Value :=
  let reading (read : Except ReadingError Value) : Except Error Value :=
    match read with
    | .ok value => .ok value
    | .error error => .error (.reading error)
  match kind with
  | .null => .ok .null
  | .truth =>
    match truthWords.lookup (Text.lower text) with
    | some holds => .ok (.bool holds)
    | none => .error (.reading (.notTruth (Text.lower text)))
  | .integer => reading ((integerOf text).map .int)
  | .decimal => reading ((decimalOf text).map .double)
  | .octets =>
    match Text.decodeBase64? text.toList with
    | some bytes => .ok (.bytes bytes)
    | none => .error .malformed
  | .moment => reading (momentOf text)
  | .text => .ok (.text text)
  | _ => .error .malformed

end Archetype.Yaml
