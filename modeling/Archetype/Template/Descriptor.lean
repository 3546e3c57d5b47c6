import Archetype.Name.Form
import Archetype.Template.Entry

namespace Archetype.Template

structure Descriptor where
  description? : Option String := none
  root? : Option String := none
  transforms : List Entry := []
  dataHook? : Option String := none
  templateHook? : Option String := none
  postHook? : Option String := none
  extras : Data := ∅

namespace Descriptor

def defaultRoot : String := "root"

def root (descriptor : Descriptor) : String :=
  descriptor.root?.getD defaultRoot

def defaults (descriptor : Descriptor) : Data :=
  match descriptor.description? with
  | none => descriptor.extras
  | some description => descriptor.extras.set "description" (.text description)

def hookNames (name : String) : List String :=
  [name, Name.namespaceForm name]

def hookName? (name : String) (entries : List (Value × Value)) : Option String :=
  (hookNames name).find? fun spelling => (Shape.find? spelling entries).isSome

def hook (name : String) (entries : List (Value × Value)) : Shaped (Option String) :=
  match hookName? name entries with
  | some spelling => Shape.field spelling (.ok none) Shape.text? entries
  | none => .ok none

def fields (entries : List (Value × Value)) : List String :=
  ["description", "root", "transform"] ++
    ["data_fn", "template_fn", "post_process_fn"].filterMap (hookName? · entries)

def extrasOf (entries : List (Value × Value)) : Data :=
  Data.ofEntries (entries.filter fun entry =>
    !(entry.1.asText?.any (fields entries).contains))

def ofMap (entries : List (Value × Value)) : Shaped Descriptor :=
  let description := Shape.field "description" (.ok none) Shape.text? entries
  let root := Shape.field "root" (.ok none) (fun value => (Shape.text value).map some) entries
  let transforms := Shape.field "transform" (.ok []) (Shape.list Entry.ofValue) entries
  let dataHook := hook "data_fn" entries
  let templateHook := hook "template_fn" entries
  let postHook := hook "post_process_fn" entries
  let names := Shape.names (fun _ => true) entries
  (Shape.both description (Shape.both root (Shape.both transforms (Shape.both dataHook
    (Shape.both templateHook (Shape.both postHook names)))))).map
      fun (description?, root?, transforms, dataHook?, templateHook?, postHook?, _) =>
        { description?, root?, transforms, dataHook?, templateHook?, postHook?,
          extras := extrasOf entries }

def ofValue : Value → Shaped Descriptor
  | .map entries => ofMap entries
  | _ => Shape.flaw .notRecord

end Descriptor

end Archetype.Template
