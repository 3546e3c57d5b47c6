import Archetype.Template.Shape

namespace Archetype.Template

structure Entry where
  source : String
  target? : Option String := none
  /-- Files to rename: the path in the source, and the new path with placeholders. -/
  files : Table String String := ∅
  delimiters? : Option (String × String) := none
  raw : Bool := false
  only : Bool := false

namespace Entry

def label (entry : Entry) : String :=
  match entry.target? with
  | none => entry.source
  | some target => if target.isEmpty then entry.source else entry.source ++ " -> " ++ target

def fields : List String := ["src", "target", "files", "delims", "opts"]

def bareFlag (flag : String) : String :=
  String.ofList (Text.trimStart (· = ':') flag.toList)

/-- The items that list flags: a single text, the items of a sequence, the keys of a map, the
bytes of a sequence of bytes, or none. -/
def flagItems : Value → Shaped (List Value)
  | .null => .ok []
  | .text flag => .ok [.text flag]
  | .list items | .tuple items | .set items => .ok items
  | .map entries => .ok (entries.map (·.1))
  | .bytes octets => .ok (octets.map fun octet => .int octet.toNat)
  | value => .error (.noItems value.fullKind)

def flags (value : Value) : Shaped (Bool × Bool) := do
  let flags := (← flagItems value).map fun item => bareFlag item.toText
  if flags.all ["raw", "only"].contains then return (flags.contains "raw", flags.contains "only")
  else Shape.flaw .unknownFlag

def ofMap (entries : List (Value × Value)) : Shaped Entry :=
  let source := Shape.field "src" (Shape.at_ (.name "src") (Shape.flaw .missing)) Shape.text entries
  let target := Shape.field "target" (.ok none) Shape.text? entries
  let files := Shape.field "files" (.ok ∅) Shape.textMap entries
  let delimiters := Shape.field "delims" (.ok none) Shape.pair? entries
  let flags := Shape.field "opts" (.ok (false, false)) flags entries
  let names := Shape.names fields.contains entries
  (Shape.both source (Shape.both target (Shape.both files (Shape.both delimiters
    (Shape.both flags names))))).map fun (source, target?, files, delimiters?, (raw, only), _) =>
      { source, target?, files, delimiters?, raw, only }

def positional : List Value → Option (List (Value × Value))
  | [] => none
  | source :: rest =>
    let target := rest.head?.toList.map fun value => (Value.text "target", value)
    let rest := rest.tail
    let (files, rest) := match rest with
      | .null :: rest => ([(Value.text "files", Value.map [])], rest)
      | .map entries :: rest => ([(Value.text "files", Value.map entries)], rest)
      | rest => ([], rest)
    let given (delimiters : Value) (items : List Value) : List (Value × Value) :=
      if items.isEmpty then [] else [(Value.text "delims", delimiters)]
    let (delimiters, rest) := match rest with
      | .null :: rest => ([], rest)
      | .list items :: rest => (given (.list items) items, rest)
      | .tuple items :: rest => (given (.tuple items) items, rest)
      | rest => ([], rest)
    let flags := if rest.isEmpty then [] else [(Value.text "opts", Value.list rest)]
    some ((Value.text "src", source) :: target ++ files ++ delimiters ++ flags)

def sourceRule : String := "transform entry must name a source directory"

def ofSequence (items : List Value) : Shaped Entry :=
  match positional items with
  | some entries => ofMap entries
  | none => Shape.flaw (.rule sourceRule)

def ofValue : Value → Shaped Entry
  | .list items | .tuple items => ofSequence items
  | .map entries => ofMap entries
  | _ => Shape.flaw .notRecord

end Entry

end Archetype.Template
