import Archetype.Failure
import Archetype.Text.Blank

namespace Archetype.Template

def defaultNamespace : String := "stencil.templates"

structure TemplateName where
  repository : String
  directory? : Option String
  template : String
  reference? : Option String
deriving DecidableEq, Repr

/-- The part up to the first separator that has something after it, and the rest; the first
character always belongs to the part. -/
def takePart (separators : List Char) : List Char → List Char × List Char
  | [] => ([], [])
  | first :: rest => go first rest
where
  go (first : Char) : List Char → List Char × List Char
    | [] => ([first], [])
    | next :: rest =>
      if separators.contains next && !rest.isEmpty then ([first], next :: rest)
      else
        let (part, remaining) := go next rest
        (first :: part, remaining)

def takeAfter (separator : Char) (separators characters : List Char) :
    Option (List Char) × List Char :=
  match characters with
  | [] => (none, [])
  | first :: rest =>
    if first = separator then
      let (part, remaining) := takePart separators rest
      (some part, remaining)
    else (none, first :: rest)

structure Parts where
  repository : List Char
  first? : Option (List Char)
  second? : Option (List Char)
  reference? : Option (List Char)
deriving DecidableEq, Repr

def Parts.ofChars (characters : List Char) : Parts :=
  let (repository, rest) := takePart ['%', '#'] characters
  let (first?, rest) := takeAfter '%' ['%', '#'] rest
  let (second?, rest) := takeAfter '%' ['#'] rest
  let (reference?, _) := takeAfter '#' [] rest
  ⟨repository, first?, second?, reference?⟩

namespace TemplateName

def qualify (space name : String) : String :=
  if name.toList.contains '/' then name else space ++ "/" ++ name

def ofParts (space : String) (parts : Parts) : TemplateName where
  repository := String.ofList parts.repository
  directory? := if parts.second?.isSome then parts.first?.map String.ofList else none
  template := qualify space
    (String.ofList ((parts.second?.or parts.first?).getD parts.repository))
  reference? := parts.reference?.map String.ofList

/-- The template that a text asks for; a text of several lines asks for none. -/
def parse (space text : String) : Except Fault TemplateName :=
  let characters := (Text.strip text).toList
  if characters.isEmpty || characters.contains '\n' then .error ⟨.emptyTemplateName, none⟩
  else .ok (ofParts space (Parts.ofChars characters))

end TemplateName

end Archetype.Template
