import Archetype.Hook.Registry

/-!
# The hooks of a template

Before files are copied, a template may extend the data and replace its descriptor by hooks; after
that, a last hook may run. A hook that is named by an empty text is no hook.

The final data has three layers: the data that hooks have seen counts most, then the defaults of
the final descriptor, then a description that stands in for a missing one.
-/

namespace Archetype.Hook

open Archetype.Template (Descriptor)

def named? (reference? : Option String) : Option String :=
  reference?.filter (!·.isEmpty)

def context (template : String) (data : Data) : Data :=
  data.set "template-dir" (.text template)

def extendData (registry : Registry) (descriptor : Descriptor) (data : Data) : Action Data :=
  match named? descriptor.dataHook? with
  | none => return data
  | some reference => do
    match ← registry.invoke .data reference [.data data] with
    | .value .null => return data
    | .value (.map entries) => return data.union (Data.ofEntries entries)
    | .value value => Action.fault (.notData reference value.kind) (some reference)
    | .descriptor _ => Action.fault (.notData reference "TemplateDescriptor") (some reference)

def ofReplacement (reference : String) (entries : List (Value × Value)) :
    Except Failure Descriptor :=
  match Descriptor.ofMap entries with
  | .ok descriptor => .ok descriptor
  | .error (.violations found) =>
    .error (.of (.invalidReplacement reference found) (some reference))
  | .error (.noItems kind) => .error (.noItems kind)

def replaceDescriptor (registry : Registry) (descriptor : Descriptor) (data : Data) :
    Action Descriptor :=
  match named? descriptor.templateHook? with
  | none => return descriptor
  | some reference => do
    match ← registry.invoke .template reference [.descriptor descriptor, .data data] with
    | .descriptor replacement => return replacement
    | .value (.map entries) => Action.ofExcept (ofReplacement reference entries)
    | .value _ => Action.fault (.noReplacement reference) (some reference)

def standInDescription (data : Data) : String :=
  match data.find? "template" with
  | some template =>
    if template.isGiven then "FIXME: my new " ++ template.toText ++ " project."
    else "FIXME: my new project."
  | none => "FIXME: my new project."

/-- The data of a project: what hooks have seen, over the defaults of the descriptor, over a
description. -/
def finalData (descriptor : Descriptor) (data : Data) : Data :=
  (Table.union (Data.set ∅ "description" (.text (standInDescription data)))
    descriptor.defaults).union data

def apply (registry : Registry) (template : String) (data : Data) (descriptor : Descriptor) :
    Action (Data × Descriptor) := do
  let data ← extendData registry descriptor (context template data)
  let replacement ← replaceDescriptor registry descriptor data
  return (finalData replacement data, replacement)

/-- An action whose fault, if it is one of hooks, is noted and returned. -/
def noting (work : Action Unit) : Action (Option Fault) := fun world =>
  match work world with
  | .ok _ world => .ok none world
  | .error (.fault fault) world =>
    if fault.cause.stage = .hook then
      (do Action.note (.postFailed fault.message); return some fault : Action (Option Fault)) world
    else .error (.fault fault) world
  | .error failure world => .error failure world

def finish (registry : Registry) (data : Data) (descriptor : Descriptor) :
    Action (Option Fault) :=
  match named? descriptor.postHook? with
  | none => return none
  | some reference => noting do
    let _ ← registry.invoke .post reference [.data data, .descriptor descriptor]

end Archetype.Hook
