import Archetype.Disk.Basic
import Archetype.Journal

namespace Archetype.Hook

inductive Answer where
  | value (value : Value)
  | descriptor (descriptor : Template.Descriptor)

inductive Problem
  | own (stage? : Option String) (text : String) (subject? : Option String)
  | other (text : String) (violations : List Violation)
deriving DecidableEq, Repr

structure Function where
  name : String
  run : List Argument → Disk → Except Problem Answer × Disk

inductive Target where
  | function (function : Function)
  | value (value : Value)

def Target.isFunction : Target → Bool
  | function _ => true
  | value _ => false

def notFunction (value : Value) : String :=
  "'" ++ value.fullKind ++ "' object is not callable"

def Problem.toFailure (role : HookRole) (reference : String) : Problem → Failure
  | own stage? text subject? => .of (.reported .hook stage? text) subject?
  | other text violations => .of (.hookFailed role.name reference text violations) (some reference)

end Archetype.Hook
