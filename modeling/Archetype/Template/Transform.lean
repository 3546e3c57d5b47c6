import Archetype.Copier

namespace Archetype.Template

namespace Entry

def relativeTarget (entry : Entry) (replacements : Replacements) : String :=
  match entry.target? with
  | none => ""
  | some target =>
    if target.isEmpty then ""
    else String.ofList (Text.trim (· = '/') (replacements.apply target).toList)

def contentReplacements (entry : Entry) (replacements : Replacements) : Option Replacements :=
  if entry.raw then none
  else
    match entry.delimiters? with
    | some (opened, closed) =>
      if opened.isEmpty || closed.isEmpty then some replacements
      else some (replacements.withDelimiters opened closed)
    | none => some replacements

def inside (directory : Path) (relative : String) : Path :=
  if relative.isEmpty then directory else directory / relative

def rename (copied source : Path) (label : String) (replacements : Replacements) :
    List (String × String) → Action Unit
  | [] => return
  | (file, pattern) :: others => do
    let listed := source / file
    if !(← Action.disk).isFile listed then
      Action.fault (.noFile listed.toText) (some label)
    let renamed := replacements.apply pattern
    Action.note (.moving file renamed)
    Action.remove (copied / file)
    let _ ← Copier.copyFile (.path listed) (copied / renamed)
    rename copied source label replacements others

def copyRenamed (entry : Entry) (copier : Copier) (source target : Path)
    (replacements : Replacements) : Action (List Path) :=
  Action.withStaging fun staging => do
    let staged := inside staging (entry.relativeTarget replacements)
    if !entry.only then
      let _ ← copier.copyTree staged [source] none
    rename staged source entry.label replacements entry.files.entries
    copier.copyTree target [staging] (entry.contentReplacements replacements)

def copyNamed (entry : Entry) (copier : Copier) (source target : Path)
    (replacements : Replacements) : Action (List Path) := do
  if entry.only then
    Action.note (.nothingCopied entry.label)
    return []
  let destination := inside target (entry.relativeTarget replacements)
  Action.note (.copying source.toText destination.toText)
  copier.copyTree destination [source] (entry.contentReplacements replacements)

def copy (entry : Entry) (copier : Copier) (template target : Path) (replacements : Replacements) :
    Action (List Path) := do
  let source := template / entry.source
  if !(← Action.disk).isDirectory source then
    Action.fault (.noDirectory source.toText) (some entry.label)
  Action.explaining (fun error => .of (.notCopied source.toText error) (some entry.label))
    (if entry.files.isEmpty then entry.copyNamed copier source target replacements
      else entry.copyRenamed copier source target replacements)

def copyAll (copier : Copier) (template target : Path) (replacements : Replacements) :
    List Entry → Action (List Path)
  | [] => return []
  | entry :: entries => do
    Action.note (.applying entry.label)
    let written ← entry.copy copier template target replacements
    return written ++ (← copyAll copier template target replacements entries)

end Entry

namespace Descriptor

/-- The entries that are copied: the root directory first, then the transforms. A root that is not
named can be missing if there are transforms. -/
def entries (descriptor : Descriptor) (disk : Disk) (template : Path) : List Entry :=
  if disk.isDirectory (template / descriptor.root) || descriptor.root?.isSome ||
      descriptor.transforms.isEmpty then
    { source := descriptor.root } :: descriptor.transforms
  else descriptor.transforms

def copyFiles (descriptor : Descriptor) (copier : Copier) (template target : Path)
    (replacements : Replacements) : Action (List Path) := do
  Entry.copyAll copier template target replacements
    (descriptor.entries (← Action.disk) template)

end Descriptor

end Archetype.Template
