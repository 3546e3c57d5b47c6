import Archetype.Action
import Archetype.Name.Form
import Archetype.Template.Load

namespace Archetype.Template

structure Location where
  directory : Path
  descriptor : Path
deriving DecidableEq, Repr

def followed (disk : Disk) (path : Path) : Path :=
  match disk.resolve path with
  | .ok resolved => resolved
  | .error stuck => stuck

def findFile? (disk : Disk) (roots : List Path) (file : String) : Option Path :=
  ((roots.map (· / file)).find? disk.isFile).map (followed disk)

def descriptorOf (template : String) : String :=
  Name.fileForm template ++ "/" ++ descriptorFile

def find? (disk : Disk) (roots : List Path) (template : String) : Option Location :=
  (findFile? disk roots (descriptorOf template)).map fun file => ⟨file.parent, file⟩

def locate (resources : List Path) (roots : List FileName) (template : String) :
    Action Location := do
  match find? (← Action.disk) (resources ++ roots.map FileName.toPath) template with
  | some location =>
    Action.note (.found template location.directory.toText)
    return location
  | none =>
    Action.fault (.templateNotFound (descriptorOf template) (roots.map FileName.toText))
      (some template)

end Archetype.Template
