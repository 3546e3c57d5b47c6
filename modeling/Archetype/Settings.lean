import Archetype.Failure
import Archetype.Path
import Archetype.Project.Identity
import Archetype.Template.Name

namespace Archetype

structure Environment where
  assignments : Table String String := ∅
  homes : Homes
  account? : Option String
  today : Date

namespace Environment

def given? (environment : Environment) (name : String) : Option String :=
  (environment.assignments.get? name).filter (!·.isEmpty)

def unknownUser : String := "developer"

/-- The name of the user: by variables, or else as the system knows it. -/
def userName (environment : Environment) : String :=
  ((["USER", "USERNAME", "LOGNAME"].findSome? environment.given?).or environment.account?).getD
    unknownUser

def expand (environment : Environment) (path : Path) : Except Failure Path :=
  match environment.homes.expand? path with
  | some expanded => .ok expanded
  | none => .error .noHome

end Environment

structure Settings where
  roots : List Path
  cache : Path
  space : String := Template.defaultNamespace
  groupPrefix : String := Project.defaultGroupPrefix
  version : String := "0.1.0"
deriving Repr

namespace Settings

def defaultCache : Path := .ofText "~/.cache/stencil"

def listed (environment : Environment) (text : String) : Except Failure (List Path) :=
  ((Text.split ':' text).filter (!·.isEmpty)).mapM fun entry =>
    environment.expand (.ofText entry)

def ofEnvironment (environment : Environment) (current : Path) : Except Failure Settings := do
  let usual ← environment.expand defaultCache
  let extra ← listed environment ((environment.given? "STENCIL_TEMPLATE_PATH").getD "")
  let cache ← match environment.given? "STENCIL_CACHE_DIR" with
    | some cache => environment.expand (.ofText cache)
    | none => pure usual
  return {
    roots := extra ++ [current]
    cache
    groupPrefix := (environment.given? "STENCIL_GROUP_PREFIX").getD Project.defaultGroupPrefix }

end Settings

end Archetype
