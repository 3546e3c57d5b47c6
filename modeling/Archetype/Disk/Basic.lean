import Archetype.Path
import Std.Data.ExtTreeMap

/-!
# Disks

A disk holds files, directories and links by the place where they are, a place being the list of
names on the way from the root. It also knows its current directory and the directory for temporary
files. `Disk.locate` follows a path to a place: every segment but the last must lead to a directory,
links on the way are followed, and the last segment may name something that does not exist yet.

Since places are ordered, what lies below a directory is listed in order of names, parents first.

* `node?_put`, `node?_erase`: what a place holds after a change.
-/

namespace Archetype

abbrev Place := List String

local instance contentDecidableEq : DecidableEq ByteArray := ByteArray.instDecidableEq

inductive Node
  | file (content : ByteArray) (executable : Bool)
  | directory
  | link (target : String)
deriving DecidableEq

structure Disk where
  nodes : Std.ExtTreeMap Place Node
  current : Place
  temporary : Place

inductive ErrorCode
  | missing
  | occupied
  | notDirectory
  | isDirectory
  | invalid
  | notEmpty
  | tooManyLinks
deriving DecidableEq, Repr

namespace ErrorCode

def number : ErrorCode → Nat
  | missing => 2
  | occupied => 17
  | notDirectory => 20
  | isDirectory => 21
  | invalid => 22
  | notEmpty => 39
  | tooManyLinks => 40

def text : ErrorCode → String
  | missing => "No such file or directory"
  | occupied => "File exists"
  | notDirectory => "Not a directory"
  | isDirectory => "Is a directory"
  | invalid => "Invalid argument"
  | notEmpty => "Directory not empty"
  | tooManyLinks => "Too many levels of symbolic links"

end ErrorCode

inductive Refusal
  | code (code : ErrorCode)
  | nullCharacter
deriving DecidableEq, Repr

namespace Disk

def node? (disk : Disk) (place : Place) : Option Node :=
  if place = [] then some .directory else disk.nodes[place]?

def put (disk : Disk) (place : Place) (node : Node) : Disk :=
  { disk with nodes := disk.nodes.insert place node }

def erase (disk : Disk) (place : Place) : Disk :=
  { disk with nodes := disk.nodes.erase place }

def isWithin (base place : Place) : Bool :=
  base.isPrefixOf place

def isBelow (base place : Place) : Bool :=
  isWithin base place && base != place

def clear (disk : Disk) (base : Place) : Disk :=
  { disk with nodes := disk.nodes.filter fun place _ => !isBelow base place }

def prune (disk : Disk) (base : Place) : Disk :=
  { disk with nodes := disk.nodes.filter fun place _ => !isWithin base place }

def below (disk : Disk) (base : Place) : List (Place × Node) :=
  disk.nodes.toList.filter fun entry => isBelow base entry.1

def WellFormed (disk : Disk) : Prop :=
  ∀ place name, disk.nodes[place ++ [name]]? ≠ none → disk.node? place = some .directory

def LinkFree (disk : Disk) : Prop :=
  ∀ place target, disk.node? place ≠ some (.link target)

@[simp] theorem node?_root (disk : Disk) : disk.node? [] = some .directory := by
  simp [node?]

theorem node?_of_ne_root (disk : Disk) {place : Place} (h : place ≠ []) :
    disk.node? place = disk.nodes[place]? := by
  simp [node?, h]

theorem node?_put (disk : Disk) {place : Place} (h : place ≠ []) (node : Node) (other : Place) :
    (disk.put place node).node? other = if place = other then some node else disk.node? other := by
  by_cases root : other = []
  · subst other; simp [h]
  · simp [node?, root, put, Std.ExtTreeMap.getElem?_insert]

theorem node?_erase (disk : Disk) (place other : Place) :
    (disk.erase place).node? other =
      if place = other ∧ other ≠ [] then none else disk.node? other := by
  by_cases root : other = []
  · subst other; simp
  · simp [node?, root, erase, Std.ExtTreeMap.getElem?_erase]

/-! ## Following paths -/

/-- The place that the remaining segments lead to from the directory `place`. A link that has to
be followed is handed to `onLink`, with the directory that it is in and the segments it stands
for. -/
def descend (disk : Disk) (follow : Bool) (onLink : Place → String → List String →
    Except Refusal Place) (place : Place) : List String → Except Refusal Place
  | [] => .ok place
  | "." :: rest => descend disk follow onLink place rest
  | ".." :: rest => descend disk follow onLink place.dropLast rest
  | name :: rest =>
    match disk.node? (place ++ [name]) with
    | none => if rest.isEmpty then .ok (place ++ [name]) else .error (.code .missing)
    | some .directory => descend disk follow onLink (place ++ [name]) rest
    | some (.file _ _) =>
      if rest.isEmpty then .ok (place ++ [name]) else .error (.code .notDirectory)
    | some (.link target) =>
      if rest.isEmpty && !follow then .ok (place ++ [name]) else onLink place target rest

/-- The segments of a link's target; a slash at its end asks for a directory. -/
def targetSegments (target : String) : List String :=
  Path.segmentsOf target ++ (if target.toList.getLast? = some '/' then ["."] else [])

def descendLinks (disk : Disk) (follow : Bool) : Nat → Place → List String → Except Refusal Place
  | 0 => descend disk follow fun _ _ _ => .error (.code .tooManyLinks)
  | links + 1 => descend disk follow fun place target rest =>
    descendLinks disk follow links (if Path.anchorOf target.toList = .current then place else [])
      (targetSegments target ++ rest)

def maximumLinks : Nat := 40

def hasNull (segments : List String) : Bool :=
  segments.any fun segment => segment.toList.contains '\x00'

/-- The place that segments lead to from the root or the current directory; a link at the end is
followed if `follow` is set. -/
def locateFrom (disk : Disk) (follow : Bool) (anchor : Anchor) (segments : List String) :
    Except Refusal Place :=
  if hasNull segments then .error .nullCharacter
  else
    let start := if anchor = .current then disk.current else []
    match disk.node? start with
    | some .directory => disk.descendLinks follow maximumLinks start segments
    | _ => .error (.code .missing)

def locate (disk : Disk) (follow : Bool) (path : Path) : Except Refusal Place :=
  disk.locateFrom follow path.anchor path.segments

def find? (disk : Disk) (path : Path) : Option Node :=
  match disk.locate true path with
  | .ok place => disk.node? place
  | .error _ => none

def isDirectory (disk : Disk) (path : Path) : Bool :=
  disk.find? path == some .directory

def isFile (disk : Disk) (path : Path) : Bool :=
  match disk.find? path with
  | some (.file _ _) => true
  | _ => false

def isLink (disk : Disk) (path : Path) : Bool :=
  match disk.locate false path with
  | .ok place => (disk.node? place matches some (.link _))
  | .error _ => false

/-! ## Resolving -/

/-- The place that segments lead to once all links on the way are followed; what does not exist is
taken as it is written. Where links run in a circle, the error tells where the circle closes, and
the segments that are left. -/
def resolveSteps (disk : Disk) (onLink : Place → Place → String → Except Place Place)
    (place : Place) : List String → Except Place Place
  | [] => .ok place
  | "." :: rest => resolveSteps disk onLink place rest
  | ".." :: rest => resolveSteps disk onLink place.dropLast rest
  | name :: rest =>
    let next := place ++ [name]
    match disk.node? next with
    | some (.link target) =>
      match onLink place next target with
      | .ok reached => resolveSteps disk onLink reached rest
      | .error stuck => .error (stuck ++ rest)
    | _ => resolveSteps disk onLink next rest

/-- The place that segments lead to, with links nested at most `depth` deep; the links in `active`
are being followed. -/
def resolveLinks (disk : Disk) : (depth : Nat) → (active : List Place) → Place → List String →
    Except Place Place
  | 0, _ => resolveSteps disk fun _ link _ => .error link
  | depth + 1, active => resolveSteps disk fun place link target =>
    if active.contains link then .error link
    else
      resolveLinks disk depth (link :: active)
        (if Path.anchorOf target.toList = .current then place else []) (Path.segmentsOf target)

def collapse (segments : List String) : Place :=
  segments.foldl (fun place segment =>
    if segment = ".." then place.dropLast
    else if segment = "." then place else place ++ [segment]) []

/-- The path without links that a path stands for, whether it exists or not. The error is the path
at which links run in a circle. -/
def resolve (disk : Disk) (path : Path) : Except Path Path :=
  let start := if path.anchor = .current then disk.current else []
  match disk.resolveLinks maximumLinks [] start path.segments with
  | .ok place => .ok (.fromRoot place)
  | .error stuck =>
    let reached := Path.fromRoot (collapse stuck)
    match disk.locate true reached with
    | .error (.code .tooManyLinks) => .error reached
    | _ => .ok reached

end Disk

end Archetype
