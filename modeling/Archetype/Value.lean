import Archetype.Calendar
import Archetype.Number.Shortest

namespace Archetype

inductive Value where
  | null
  | bool (truth : Bool)
  | int (number : Int)
  | double (number : Double)
  | text (characters : String)
  | bytes (octets : List UInt8)
  | list (items : List Value)
  | tuple (items : List Value)
  | set (members : List Value)
  | map (entries : List (Value × Value))
  | date (day : Date)
  | moment (time : Moment)
  | object (kind : String)
deriving Inhabited, Repr

namespace Value

/-! ## Equality -/

mutual

def same : Value → Value → Bool
  | null, null => true
  | bool left, bool right => left == right
  | int left, int right => left == right
  | double left, double right => left == right
  | text left, text right => left == right
  | bytes left, bytes right => left == right
  | list left, list right => sameItems left right
  | tuple left, tuple right => sameItems left right
  | set left, set right => sameItems left right
  | map left, map right => sameEntries left right
  | date left, date right => left == right
  | moment left, moment right => left == right
  | object left, object right => left == right
  | _, _ => false

def sameItems : List Value → List Value → Bool
  | [], [] => true
  | left :: lefts, right :: rights => same left right && sameItems lefts rights
  | _, _ => false

def sameEntries : List (Value × Value) → List (Value × Value) → Bool
  | [], [] => true
  | (leftKey, left) :: lefts, (rightKey, right) :: rights =>
    same leftKey rightKey && same left right && sameEntries lefts rights
  | _, _ => false

end

mutual

theorem same_iff : (left right : Value) → (same left right = true ↔ left = right)
  | .null, right => by cases right <;> simp [same]
  | .bool _, right => by cases right <;> simp [same]
  | .int _, right => by cases right <;> simp [same]
  | .double _, right => by cases right <;> simp [same]
  | .text _, right => by cases right <;> simp [same]
  | .bytes _, right => by cases right <;> simp [same]
  | .date _, right => by cases right <;> simp [same]
  | .moment _, right => by cases right <;> simp [same]
  | .object _, right => by cases right <;> simp [same]
  | .list items, right => by
    cases right <;> simp [same]
    exact sameItems_iff items _
  | .tuple items, right => by
    cases right <;> simp [same]
    exact sameItems_iff items _
  | .set members, right => by
    cases right <;> simp [same]
    exact sameItems_iff members _
  | .map entries, right => by
    cases right <;> simp [same]
    exact sameEntries_iff entries _

theorem sameItems_iff : (left right : List Value) → (sameItems left right = true ↔ left = right)
  | [], right => by cases right <;> simp [sameItems]
  | item :: items, right => by
    cases right with
    | nil => simp [sameItems]
    | cons first rest => simp [sameItems, same_iff item first, sameItems_iff items rest]

theorem sameEntries_iff :
    (left right : List (Value × Value)) → (sameEntries left right = true ↔ left = right)
  | [], right => by cases right <;> simp [sameEntries]
  | (key, value) :: entries, right => by
    cases right with
    | nil => simp [sameEntries]
    | cons first rest =>
      obtain ⟨firstKey, firstValue⟩ := first
      simp [sameEntries, same_iff key firstKey, same_iff value firstValue,
        sameEntries_iff entries rest]

end

instance : DecidableEq Value := fun left right =>
  decidable_of_iff _ (same_iff left right)

/-! ## Keys -/

mutual

/-- The form that stands for a value as a key: equal numbers have one form. -/
def key : Value → Value
  | bool truth => int (if truth then 1 else 0)
  | double number =>
    match number.toInt? with
    | some whole => int whole
    | none => double number
  | tuple items => tuple (keys items)
  | null => null
  | int number => int number
  | text characters => text characters
  | bytes octets => bytes octets
  | list items => list (keys items)
  | set members => set (keys members)
  | map entries => map entries
  | date day => date day
  | moment time => moment time
  | object kind => object kind

def keys : List Value → List Value
  | [] => []
  | value :: values => key value :: keys values

end

/-! ## Kinds -/

def kind : Value → String
  | null => "NoneType"
  | bool _ => "bool"
  | int _ => "int"
  | double _ => "float"
  | text _ => "str"
  | bytes _ => "bytes"
  | list _ => "list"
  | tuple _ => "tuple"
  | set _ => "set"
  | map _ => "dict"
  | date _ => "date"
  | moment _ => "datetime"
  | object kind => kind

def fullKind : Value → String
  | date _ => "datetime.date"
  | moment _ => "datetime.datetime"
  | value => value.kind

/-- Every value counts as given but nothing, falsehood, zero and what is empty. -/
def isGiven : Value → Bool
  | null => false
  | bool truth => truth
  | int number => number != 0
  | double number => !number.isZero
  | text characters => !characters.isEmpty
  | bytes octets => !octets.isEmpty
  | list items => !items.isEmpty
  | tuple items => !items.isEmpty
  | set members => !members.isEmpty
  | map entries => !entries.isEmpty
  | date _ => true
  | moment _ => true
  | object _ => true

/-! ## Written forms -/

def commaed (texts : List String) : String :=
  ", ".intercalate texts

/-- The form of a fixed sequence; a comma tells a single item from an item in parentheses. -/
def tupleForm : List String → String
  | [item] => "(" ++ item ++ ",)"
  | items => "(" ++ commaed items ++ ")"

def setForm (members : List String) : String :=
  if members.isEmpty then "set()" else "\x7b" ++ commaed members ++ "\x7d"

mutual

def quoted : Value → String
  | null => "None"
  | bool truth => if truth then "True" else "False"
  | int number => toString number
  | double number => number.toText
  | text characters => Text.quoted characters
  | bytes octets => Text.quotedBytes octets
  | list items => "[" ++ commaed (quotedItems items) ++ "]"
  | tuple items => tupleForm (quotedItems items)
  | set members => setForm (quotedItems members)
  | map entries => "\x7b" ++ commaed (quotedEntries entries) ++ "\x7d"
  | date day => day.toCall
  | moment time => time.toCall
  | object kind => "<" ++ kind ++ ">"

def quotedItems : List Value → List String
  | [] => []
  | item :: items => quoted item :: quotedItems items

def quotedEntries : List (Value × Value) → List String
  | [] => []
  | (key, value) :: entries => (quoted key ++ ": " ++ quoted value) :: quotedEntries entries

end

def toText : Value → String
  | text characters => characters
  | date day => day.toText
  | moment time => time.toText
  | value => value.quoted

def asText? : Value → Option String
  | text characters => some characters
  | _ => none

end Value

end Archetype
