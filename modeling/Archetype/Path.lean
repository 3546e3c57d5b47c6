import Archetype.Text.Quoted
import Archetype.Text.Split

namespace Archetype

inductive Anchor
  | current
  | root
  | doubleRoot
deriving DecidableEq, Repr

structure Path where
  anchor : Anchor
  segments : List String
deriving DecidableEq, Repr

namespace Path

instance : Inhabited Path := ⟨⟨.current, []⟩⟩

def anchorOf : List Char → Anchor
  | '/' :: '/' :: '/' :: _ => .root
  | '/' :: '/' :: _ => .doubleRoot
  | '/' :: _ => .root
  | _ => .current

def segmentsOf (text : String) : List String :=
  (Text.split '/' text).filter fun segment => !(segment == "" || segment == ".")

def ofText (text : String) : Path where
  anchor := anchorOf text.toList
  segments := segmentsOf text

def fromRoot (segments : List String) : Path :=
  ⟨.root, segments⟩

def anchorText : Anchor → String
  | .current => ""
  | .root => "/"
  | .doubleRoot => "//"

def toText (path : Path) : String :=
  if path.anchor = .current ∧ path.segments = [] then "."
  else anchorText path.anchor ++ "/".intercalate path.segments

def join (base addition : Path) : Path :=
  match addition.anchor with
  | .current => { base with segments := base.segments ++ addition.segments }
  | _ => addition

instance : HDiv Path String Path := ⟨fun base text => base.join (ofText text)⟩

def parent (path : Path) : Path :=
  { path with segments := path.segments.dropLast }

def name (path : Path) : String :=
  path.segments.getLast?.getD ""

/-- The last dot of a name and what follows it; a dot at either end of the name starts no
suffix. -/
def suffix (path : Path) : String :=
  match Text.cutLast '.' path.name.toList with
  | (some (_ :: _), character :: rest) => String.ofList ('.' :: character :: rest)
  | _ => ""

def isAnchored (path : Path) : Bool :=
  path.anchor != .current

def quoted (path : Path) : String :=
  "PosixPath(" ++ Text.quoted path.toText ++ ")"

theorem join_of_anchored (base : Path) {addition : Path} (h : addition.anchor ≠ .current) :
    base.join addition = addition := by
  unfold join
  split
  · contradiction
  · rfl

theorem join_of_current (base : Path) {addition : Path} (h : addition.anchor = .current) :
    base.join addition = ⟨base.anchor, base.segments ++ addition.segments⟩ := by
  simp [join, h]

theorem join_assoc (base middle addition : Path) :
    (base.join middle).join addition = base.join (middle.join addition) := by
  by_cases last : addition.anchor = .current
  · by_cases inner : middle.anchor = .current
    · simp [join_of_current, last, inner]
    · rw [join_of_anchored base inner, join_of_current middle last, join_of_anchored base]
      exact inner
  · rw [join_of_anchored _ last, join_of_anchored _ last, join_of_anchored _ last]

end Path

structure Homes where
  own? : Option String
  named : String → Option String

def Homes.expand? (homes : Homes) (path : Path) : Option Path :=
  match path.anchor, path.segments with
  | .current, first :: rest =>
    match first.toList with
    | '~' :: user =>
      let home? := if user.isEmpty then homes.own? else homes.named (String.ofList user)
      match home? with
      | none => none
      | some home =>
        let trimmed := String.ofList (Text.trimEnd (· = '/') home.toList)
        let directory := if trimmed.isEmpty then "/" else trimmed
        if directory.toList.head? = some '~' then none
        else some ((Path.ofText directory).join ⟨.current, rest⟩)
    | _ => some path
  | _, _ => some path

end Archetype
