import Archetype.Action
import Archetype.Placeholder
import Archetype.Text.Pattern

namespace Archetype

open Archetype.Text (Pattern)

structure Copier where
  ignores : List Pattern
  binaryExtensions : List String

namespace Copier

def anything : Pattern := .repeated .any 0 none

def defaultIgnores : List Pattern := [
  .sequence anything (.sequence (.char '~') (.boundary .finish)),
  .sequence (.boundary .start) (.sequence (.char '#') (.sequence anything
    (.sequence (.char '#') (.boundary .finish)))),
  .sequence (.boundary .start) (.sequence (.literal ".#") anything),
  .sequence (.boundary .start) (.sequence (.literal ".DS_Store") (.boundary .finish))]

def defaultBinaryExtensions : List String := ["jpg", "jpeg", "png", "gif", "bmp", "ico", "webp"]

def standard : Copier := ⟨defaultIgnores, defaultBinaryExtensions⟩

def ignoresName (copier : Copier) (name : String) : Bool :=
  copier.ignores.any (·.occursIn name)

def isIgnored (copier : Copier) (relative : List String) : Bool :=
  relative.any copier.ignoresName

def isBinary (copier : Copier) (path : Path) : Bool :=
  copier.binaryExtensions.contains
    (Text.lower (String.ofList (Text.trimStart (· = '.') path.suffix.toList)))

def listing (disk : Disk) (source : Path) : List (List String) :=
  match disk.locate true source with
  | .ok place => (disk.below place).map fun entry => entry.1.drop place.length
  | .error _ => []

def effective (replacements? : Option Replacements) : Option Replacements :=
  replacements?.filter (!·.isEmpty)

def destination (target : Path) (replacements? : Option Replacements) (relative : List String) :
    Path :=
  let text := "/".intercalate relative
  target / match replacements? with
    | some replacements => replacements.apply text
    | none => text

/-- The text with a content, with replacements written into it; nothing for a content that is no
text. -/
def rendered? (replacements : Replacements) (content : ByteArray) : Option ByteArray :=
  (String.fromUTF8? content).map fun text => (replacements.apply text).toUTF8

def copyRendered (copier : Copier) (replacements : Replacements) (source target : Path) :
    Action Unit := do
  if copier.isBinary source then Action.copyFile (.path source) target
  else
    let (content, executable) ← Action.readFile (.path source)
    match rendered? replacements content with
    | some content => Action.writeFile (.path target) content executable
    | none => Action.copyFile (.path source) target

def copyOne (copier : Copier) (target : Path) (replacements? : Option Replacements) (source : Path)
    (relative : List String) : Action Path := do
  let file := source.join ⟨.current, relative⟩
  let target := destination target replacements? relative
  Action.makeDirectories target.parent
  match replacements? with
  | some replacements => copier.copyRendered replacements file target
  | none => Action.copyFile (.path file) target
  Action.record (.wrote target)
  return target

def copyEach (copier : Copier) (target : Path) (replacements? : Option Replacements)
    (source : Path) : List (List String) → Action (List Path)
  | [] => return []
  | relative :: others => do
    if (← Action.disk).isFile (source.join ⟨.current, relative⟩) && !copier.isIgnored relative then
      let written ← copier.copyOne target replacements? source relative
      return written :: (← copyEach copier target replacements? source others)
    else copyEach copier target replacements? source others

def copyDirectory (copier : Copier) (target : Path) (replacements? : Option Replacements)
    (source : Path) : Action (List Path) := do
  let disk ← Action.disk
  if !disk.isDirectory source then throw (.file (.noSource source.toText))
  copier.copyEach target replacements? source (listing disk source)

def copySources (copier : Copier) (target : Path) (replacements? : Option Replacements) :
    List Path → Action (List Path)
  | [] => return []
  | source :: sources => do
    let written ← copier.copyDirectory target replacements? source
    return written ++ (← copySources copier target replacements? sources)

def copyTree (copier : Copier) (target : Path) (sources : List Path)
    (replacements? : Option Replacements) : Action (List Path) := do
  let written ← copier.copySources target (effective replacements?) sources
  Action.note (.copied written.length target.toText)
  return written

def copyFile (source : FileName) (target : Path) : Action Path := do
  Action.makeDirectories target.parent
  Action.copyFile source target
  return target

end Copier

end Archetype
