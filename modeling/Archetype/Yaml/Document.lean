import Archetype.Text.Lines
import Archetype.Value.Data
import Archetype.Yaml.Node

namespace Archetype.Yaml

structure DeepError where
  depth : Nat
  error : Error

abbrev Part (α : Type) := Except DeepError α

namespace Part

def here {α : Type} (error : Error) : Part α :=
  .error ⟨0, error⟩

def deeper {α : Type} : Part α → Part α
  | .ok value => .ok value
  | .error failure => .error { failure with depth := failure.depth + 1 }

/-- Both of two values; the less deep one of two errors, or the first. -/
def both {α β : Type} : Part α → Part β → Part (α × β)
  | .ok first, .ok second => .ok (first, second)
  | .error first, .ok _ => .error first
  | .ok _, .error second => .error second
  | .error first, .error second => .error (if first.depth ≤ second.depth then first else second)

def all {α : Type} : List (Part α) → Part (List α)
  | [] => .ok []
  | part :: parts => (both part (all parts)).map fun values => values.1 :: values.2

end Part

abbrev Entries := List (Part Value × Part Value)

def Node.isCollection : Node → Bool
  | .scalar kind _ | .list kind _ | .map kind _ =>
    [.list, .map, .set, .pairs].contains kind

def Node.kind : Node → Kind
  | .scalar kind _ | .list kind _ | .map kind _ => kind

mutual

def Node.scalarText? : Node → Option String
  | .scalar _ text => some text
  | .list _ _ => none
  | .map _ entries => standInText? entries

def standInText? : List (Node × Node) → Option String
  | [] => none
  | (key, value) :: entries =>
    if key.kind = .standIn then value.scalarText? else standInText? entries

end

def readScalar (kind : Kind) (text? : Option String) : Part Value :=
  match text? with
  | none => Part.here .malformed
  | some text =>
    match kind.read text with
    | .ok value => .ok value
    | .error error => Part.here error

def mapValue (entries : Entries) : Part (List (Value × Value)) :=
  Part.all (entries.map fun entry => Part.both entry.1 entry.2)

mutual

def Node.value : Node → Part Value
  | .scalar kind text =>
    if (Node.scalar kind text).isCollection then (Part.here .malformed).deeper
    else readScalar kind (some text)
  | .list kind items =>
    match kind with
    | .list => (Part.all (values items)).deeper.map .list
    | .pairs => (Part.all (pairs items)).deeper.map .list
    | .map | .set => (Part.here .malformed).deeper
    | _ => Part.here .malformed
  | .map kind entries =>
    match kind with
    | .map =>
      match merged entries, own entries with
      | some early, some late => (mapValue (early ++ late)).deeper.map Value.mapOf
      | _, _ => (Part.here .malformed).deeper
    | .set =>
      match merged entries, own entries with
      | some early, some late => (mapValue (early ++ late)).deeper.map fun entries =>
        .set ((Data.ofEntries entries).keys.map Key.spelled)
      | _, _ => (Part.here .malformed).deeper
    | .list | .pairs => (Part.here .malformed).deeper
    | _ => readScalar kind (standInText? entries)

def values : List Node → List (Part Value)
  | [] => []
  | item :: items => item.value :: values items

def pairs : List Node → List (Part Value)
  | [] => []
  | item :: items => item.pair :: pairs items

def Node.pair : Node → Part Value
  | .map _ entries => pairOf entries
  | _ => Part.here .malformed

def pairOf : List (Node × Node) → Part Value
  | [(key, value)] => (Part.both key.value value.value).map fun pair => .tuple [pair.1, pair.2]
  | _ => Part.here .malformed

def Node.keyValue : Node → Part Value
  | .scalar kind text =>
    if (Node.scalar kind text).isCollection then Part.here .malformed
    else if kind = .standIn then .ok (.text text)
    else readScalar kind (some text)
  | .list _ _ => Part.here .malformed
  | .map kind entries =>
    if (Node.map kind entries).isCollection then Part.here .malformed
    else readScalar kind (standInText? entries)

def own : List (Node × Node) → Option Entries
  | [] => some []
  | (key, value) :: entries =>
    if key.kind = .merge then own entries
    else (own entries).map ((key.keyValue, value.value) :: ·)

/-- The entries merged into a map; nothing if something else than maps should be merged. -/
def merged : List (Node × Node) → Option Entries
  | [] => some []
  | (key, value) :: entries =>
    if key.kind = .merge then
      match value.sources, merged entries with
      | some first, some others => some (first ++ others)
      | _, _ => none
    else merged entries

/-- All entries of a map, or of the maps of a list from the last to the first. -/
def Node.sources : Node → Option Entries
  | .scalar _ _ => none
  | .map _ entries =>
    match merged entries, own entries with
    | some early, some late => some (early ++ late)
    | _, _ => none
  | .list _ items => listSources items

def listSources : List Node → Option Entries
  | [] => some []
  | item :: items =>
    match item.mapSources, listSources items with
    | some first, some others => some (others ++ first)
    | _, _ => none

def Node.mapSources : Node → Option Entries
  | .map _ entries =>
    match merged entries, own entries with
    | some early, some late => some (early ++ late)
    | _, _ => none
  | _ => none

end

def read (text : String) : Except Error Value := do
  match ← Parse.document (← tokens (Text.unifyLineEnds text.toList)) with
  | none => return .null
  | some root =>
    match root.value with
    | .ok value => return value
    | .error failure => throw failure.error

end Archetype.Yaml
