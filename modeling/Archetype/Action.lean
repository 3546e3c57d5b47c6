import Archetype.Disk.Change
import Archetype.Journal

namespace Archetype

structure World where
  disk : Disk
  journal : List Event := []

abbrev Action := EStateM Failure World

namespace Action

def record (event : Event) : Action Unit :=
  modify fun world => { world with journal := world.journal ++ [event] }

def note (note : Note) : Action Unit :=
  record (.noted note)

def disk : Action Disk :=
  return (← get).disk

def setDisk (disk : Disk) : Action Unit :=
  modify fun world => { world with disk }

def fault {α : Type} (cause : Cause) (subject? : Option String := none) : Action α :=
  throw (.of cause subject?)

def ofExcept {α : Type} : Except Failure α → Action α
  | .ok value => pure value
  | .error failure => throw failure

def ofFault {α : Type} : Except Fault α → Action α
  | .ok value => pure value
  | .error fault => throw (.fault fault)

def refusal (shown : String) : Refusal → Failure
  | .code code => .file (.refused code shown)
  | .nullCharacter => .nullCharacter

def granted {α : Type} (shown : String) : Except Refusal α → Action α
  | .ok value => pure value
  | .error refused => throw (refusal shown refused)

def explaining {α : Type} (explain : FileError → Failure) (work : Action α) : Action α :=
  fun world =>
    match work world with
    | .error (.file error) world => .error (explain error) world
    | result => result

def readFile (name : FileName) : Action (ByteArray × Bool) := do
  granted name.toText ((← disk).read name)

def writeFile (name : FileName) (content : ByteArray) (executable : Bool) : Action Unit := do
  setDisk (← granted name.toText ((← disk).write name content executable))

def makeDirectory (path : Path) : Action Unit := do
  let disk ← disk
  match disk.makeDirectory path with
  | .ok changed => setDisk changed
  | .error refused => if !disk.isDirectory path then throw (refusal path.toText refused)

/-- The directory of some segments is made, unless there is one, and the missing directories on the
way to it; the segments are in reverse. -/
def makeDirectoriesFrom (anchor : Anchor) : List String → Action Unit
  | [] => makeDirectory ⟨anchor, []⟩
  | last :: before => do
    let path : Path := ⟨anchor, (last :: before).reverse⟩
    match (← disk).makeDirectory path with
    | .error (.code .missing) => do
      makeDirectoriesFrom anchor before
      makeDirectory path
    | _ => makeDirectory path

def makeDirectories (path : Path) : Action Unit :=
  makeDirectoriesFrom path.anchor path.segments.reverse

def isSameFile (source destination : FileName) : Action Bool := do
  let disk ← disk
  match disk.existing source with
  | .error .nullCharacter => throw .nullCharacter
  | .error (.code _) => return false
  | .ok place =>
    match disk.existing destination with
    | .error .nullCharacter => throw .nullCharacter
    | .error (.code _) => return false
    | .ok other => return place = other

def copyFile (source : FileName) (target : Path) : Action Unit := do
  let destination : FileName :=
    if (← disk).isDirectory target then (FileName.path target).inside source.base else .path target
  if ← isSameFile source destination then
    throw (.file (.sameFile source.quoted destination.quoted))
  let (content, executable) ← readFile source
  writeFile destination content executable

def remove (path : Path) : Action Unit := do
  let disk ← disk
  if disk.isDirectory path && !disk.isLink path then
    let (changed, code?) ← granted path.toText (disk.removeTree path)
    setDisk changed
    if let some code := code? then throw (.file (.refused code path.toText))
  else
    match disk.removeFile path with
    | .ok changed => setDisk changed
    | .error (.code .missing) => return
    | .error refused => throw (refusal path.toText refused)

def stagingName : String := "stencil-STAGING"

/-- A name that a directory does not hold: the usual one, or one that is longer than all names. -/
def freshName (names : List String) : String :=
  if names.contains stagingName then
    stagingName ++ String.ofList (List.replicate ((names.map String.length).foldl max 0) '-')
  else stagingName

def stagingPlace (disk : Disk) : Place :=
  disk.temporary ++ [freshName (disk.names disk.temporary)]

def withStaging {α : Type} (work : Path → Action α) : Action α := fun world =>
  let place := stagingPlace world.disk
  let path := Path.fromRoot place
  match world.disk.makeDirectory path with
  | .error refused => .error (refusal path.toText refused) world
  | .ok disk =>
    match work path { world with disk } with
    | .ok result world => .ok result { world with disk := world.disk.prune place }
    | .error failure world => .error failure { world with disk := world.disk.prune place }

end Action

end Archetype
