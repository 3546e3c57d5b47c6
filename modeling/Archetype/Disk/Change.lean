import Archetype.Disk.Basic

namespace Archetype

inductive FileName
  | path (path : Path)
  | text (text : String)
deriving DecidableEq, Repr

namespace FileName

def toText : FileName → String
  | path named => named.toText
  | text named => named

def toPath : FileName → Path
  | path named => named
  | text named => .ofText named

def quoted : FileName → String
  | path named => named.quoted
  | text named => Text.quoted named

def base (name : FileName) : String :=
  String.ofList (Text.cutLast '/' name.toText.toList).2

def inside (directory : FileName) (file : String) : FileName :=
  let shown := directory.toText
  .text (if shown.toList.getLast? = some '/' then shown ++ file else shown ++ "/" ++ file)

end FileName

namespace Disk

def locateName (disk : Disk) (follow : Bool) : FileName → Except Refusal Place
  | .path path => disk.locate follow path
  | .text text => disk.locateFrom follow (Path.anchorOf text.toList) (targetSegments text)

def existing (disk : Disk) (name : FileName) : Except Refusal Place := do
  let place ← disk.locateName true name
  match disk.node? place with
  | some _ => return place
  | none => throw (.code .missing)

def leadsToDirectory (disk : Disk) (name : FileName) : Bool :=
  match disk.locateName true name with
  | .ok place => disk.node? place == some .directory
  | .error _ => false

def read (disk : Disk) (name : FileName) : Except Refusal (ByteArray × Bool) := do
  let place ← disk.locateName true name
  match disk.node? place with
  | some (.file content executable) => return (content, executable)
  | some .directory => throw (.code .isDirectory)
  | some (.link _) | none => throw (.code .missing)

def write (disk : Disk) (name : FileName) (content : ByteArray) (executable : Bool) :
    Except Refusal Disk := do
  let place ← disk.locateName true name
  match disk.node? place with
  | some .directory => throw (.code .isDirectory)
  | some (.link _) => throw (.code .missing)
  | some (.file _ _) | none => return disk.put place (.file content executable)

def makeDirectory (disk : Disk) (path : Path) : Except Refusal Disk := do
  let place ← disk.locate false path
  match disk.node? place with
  | some _ => throw (.code .occupied)
  | none => return disk.put place .directory

def removeFile (disk : Disk) (path : Path) : Except Refusal Disk := do
  let place ← disk.locate false path
  match disk.node? place with
  | none => throw (.code .missing)
  | some .directory => throw (.code .isDirectory)
  | some _ => return disk.erase place

/-- The disk without a directory and what is below it. A directory that is named from inside, by
`.` or `..`, is emptied but stays; the code says why. -/
def removeTree (disk : Disk) (path : Path) : Except Refusal (Disk × Option ErrorCode) := do
  let place ← disk.locate true path
  if path.segments.isEmpty && path.anchor = .current then
    return (disk.clear place, some .invalid)
  if path.name = ".." then
    let emptied := disk.clear place
    match emptied.locate true path with
    | .error (.code code) => return (emptied, some code)
    | _ => return (emptied, some .notEmpty)
  return (disk.prune place, none)

def putDirectories (disk : Disk) (place : Place) : Disk :=
  (List.range place.length).foldl
    (fun disk count => disk.put (place.take (count + 1)) .directory) disk

def changesFrom (disk earlier : Disk) : List (Place × Node) :=
  (disk.below []).filter fun entry => earlier.node? entry.1 ≠ some entry.2

def names (disk : Disk) (place : Place) : List String :=
  (disk.below place).filterMap fun entry =>
    if entry.1.dropLast = place then entry.1.getLast? else none

end Disk

end Archetype
