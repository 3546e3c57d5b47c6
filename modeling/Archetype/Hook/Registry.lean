import Archetype.Action
import Archetype.Hook.Basic

namespace Archetype.Hook

inductive ImportProblem
  | absent (text : String)
  /-- The module's own code fails. -/
  | raised (failure : Failure)
deriving DecidableEq, Repr

abbrev Module := List String → Option Target

structure Library where
  /-- What installed packages offer under a name in a group, or why that cannot be had. -/
  installed : (group name : String) → Option (Except String Target)
  modules : (name : String) → Except ImportProblem Module

def Library.empty : Library where
  installed _ _ := none
  modules name := .error (.absent ("No module named " ++ Text.quoted name))

def defaultGroup : String := "stencil.hooks"

structure Registry where
  hooks : Table String Target := ∅
  group : String := defaultGroup
  library : Library := .empty

/-- The module and the member that a reference names: they are parted by its first colon, or else
by its first slash, or else by its last dot. -/
def splitReference (reference : List Char) : List Char × List Char :=
  match Text.cutFirst ':' reference with
  | (module, some member) => (module, member)
  | (_, none) =>
    match Text.cutFirst '/' reference with
    | (module, some member) => (module, member)
    | (_, none) =>
      let (module?, member) := Text.cutLast '.' reference
      (module?.getD [], member)

def unresolved {α : Type} (reference : String) (cause : Cause) : Except Failure α :=
  .error (.of cause (some reference))

/-- The module of a name; a name that starts with a dot is relative to nothing. -/
def Library.find (library : Library) (reference name : String) : Except Failure Module :=
  if name.toList.head? = some '.' then .error (.relativeModule name)
  else
    match library.modules name with
    | .ok module => .ok module
    | .error (.absent text) => unresolved reference (.notImportable name reference text)
    | .error (.raised failure) => .error failure

def Library.member (library : Library) (reference : String) : Except Failure Target :=
  let (moduleName, member) := splitReference reference.toList
  if moduleName.isEmpty || member.isEmpty then unresolved reference (.unknownHook reference)
  else do
    let name := String.ofList moduleName
    let member := String.ofList member
    let module ← library.find reference name
    match module (Text.split '.' member) with
    | some target => return target
    | none => unresolved reference (.noAttribute name member)

def callable (reference : String) (target : Target) : Except Failure Target :=
  if target.isFunction then .ok target else unresolved reference (.notCallable reference)

def Registry.resolve (registry : Registry) (reference : String) : Except Failure Target :=
  match registry.hooks.get? reference with
  | some target => .ok target
  | none =>
    match registry.library.installed registry.group reference with
    | some (.ok target) => callable reference target
    | some (.error problem) => unresolved reference (.brokenEntryPoint reference problem)
    | none => do callable reference (← registry.library.member reference)

def Registry.invoke (registry : Registry) (role : HookRole) (reference : String)
    (arguments : List Argument) : Action Answer := do
  let target ← Action.ofExcept (registry.resolve reference)
  Action.note (.calling role reference)
  match target with
  | .value value => throw ((Problem.other (notFunction value) []).toFailure role reference)
  | .function function =>
    Action.record (.called ⟨role, reference, function.name, arguments⟩)
    let (result, disk) := function.run arguments (← Action.disk)
    Action.setDisk disk
    match result with
    | .ok answer => return answer
    | .error problem => throw (problem.toFailure role reference)

end Archetype.Hook
