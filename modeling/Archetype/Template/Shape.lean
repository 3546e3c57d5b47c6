import Archetype.Failure
import Archetype.Value.Data

namespace Archetype

inductive Mismatch
  | violations (found : List Violation)
  | noItems (kind : String)
deriving DecidableEq, Repr

namespace Mismatch

def join : Mismatch → Mismatch → Mismatch
  | noItems kind, _ => noItems kind
  | violations _, noItems kind => noItems kind
  | violations first, violations second => violations (first ++ second)

def under (step : Step) : Mismatch → Mismatch
  | violations found => violations (found.map (·.under step))
  | noItems kind => noItems kind

def toFailure : Mismatch → Failure
  | violations found => .invalid found
  | noItems kind => .noItems kind

end Mismatch

abbrev Shaped (α : Type) := Except Mismatch α

namespace Shape

def flaw {α : Type} (flaw : Flaw) : Shaped α :=
  .error (.violations [⟨[], flaw⟩])

def at_ {α : Type} (step : Step) : Shaped α → Shaped α
  | .ok value => .ok value
  | .error mismatch => .error (mismatch.under step)

def both {α β : Type} : Shaped α → Shaped β → Shaped (α × β)
  | .ok first, .ok second => .ok (first, second)
  | .error first, .ok _ => .error first
  | .ok _, .error second => .error second
  | .error first, .error second => .error (first.join second)

def all {α : Type} : List (Shaped α) → Shaped (List α)
  | [] => .ok []
  | part :: parts => (both part (all parts)).map fun values => values.1 :: values.2

def items {α : Type} (read : Value → Shaped α) (values : List Value) : Shaped (List α) :=
  all (values.zipIdx.map fun entry => at_ (.number entry.2) (read entry.1))

/-- The step to the entry under a key: integers of 64 bits and truth values are numbers, and other
values than texts show their quoted form. -/
def stepTo : Value → Step
  | .text name => .name name
  | .bool truth => .number (if truth then 1 else 0)
  | .int number =>
    if -0x8000000000000000 ≤ number ∧ number < 0x8000000000000000 then .number number
    else .name (toString number)
  | value => .name value.quoted

def text : Value → Shaped String
  | .text characters => .ok characters
  | .bytes octets =>
    match String.fromUTF8? ⟨octets.toArray⟩ with
    | some characters => .ok characters
    | none => flaw .notUtf8
  | _ => flaw .notText

def text? : Value → Shaped (Option String)
  | .null => .ok none
  | value => (text value).map some

def sequence? : Value → Option (List Value)
  | .list items | .tuple items | .set items => some items
  | _ => none

def list {α : Type} (read : Value → Shaped α) (value : Value) : Shaped (List α) :=
  match sequence? value with
  | some values => items read values
  | none => flaw .notList

def pair (value : Value) : Shaped (String × String) :=
  match sequence? value with
  | none => flaw .notPair
  | some values =>
    let part (position : Nat) : Shaped String :=
      at_ (.number position)
        (match values[position]? with
          | some value => text value
          | none => flaw .missing)
    let extent : Shaped Unit := if values.length ≤ 2 then .ok () else flaw .tooLong
    (both (both (part 0) (part 1)) extent).map (·.1)

def pair? : Value → Shaped (Option (String × String))
  | .null => .ok none
  | value => (pair value).map some

def textMap : Value → Shaped (Table String String)
  | .map entries =>
    (all (entries.map fun entry =>
      at_ (stepTo entry.1) (both (at_ (.name "[key]") (text entry.1)) (text entry.2)))).map
        Table.ofList
  | _ => flaw .notMap

def find? (name : String) (entries : List (Value × Value)) : Option Value :=
  (entries.find? fun entry => entry.1 = .text name).map (·.2)

def field {α : Type} (name : String) (default : Shaped α) (read : Value → Shaped α)
    (entries : List (Value × Value)) : Shaped α :=
  match find? name entries with
  | some value => at_ (.name name) (read value)
  | none => default

def names (accept : String → Bool) (entries : List (Value × Value)) : Shaped Unit :=
  (all (entries.map fun entry =>
    match entry.1 with
    | .text name => if accept name then .ok () else at_ (.name name) (flaw .unknownEntry)
    | key => at_ (stepTo key) (flaw .nameNotText))).map fun _ => ()

end Shape

end Archetype
