import Archetype.Hook.Application
import Archetype.Project.Preparation
import Archetype.Template.Locate
import Archetype.Template.Transform

/-!
# Generating projects

A project is generated in one run: options are prepared, the template is found and its descriptor
read, the hooks of the template see data and descriptor, the files are copied, and a last hook runs.
A fault of the last hook does not undo the project; it is part of the result.
-/

namespace Archetype.Project

structure Generator where
  settings : Settings
  environment : Environment
  resolver : Git.Resolver
  registry : Hook.Registry := {}
  resources : List Path := []
  copier : Copier := .standard

structure Result where
  target : Path
  template : Path
  data : Data
  descriptor : Template.Descriptor
  written : List Path
  postFault? : Option Fault

def Result.isFinished (result : Result) : Bool :=
  result.descriptor.postHook?.isSome && result.postFault?.isNone

def targetEntry : String := "target-dir"

def resolveTarget (environment : Environment) (data : Data) : Action Path := do
  let named := ((data.find? targetEntry).map Value.toText).getD ""
  let path ← Action.ofExcept (environment.expand (.ofText named))
  if Disk.hasNull path.segments then throw .nullCharacter
  match (← Action.disk).resolve path with
  | .ok target => return target
  | .error stuck => throw (.linkCircle stuck.toText)

namespace Generator

def generate (generator : Generator) (options : Data) : Action Result := do
  let prepared ← prepare generator.settings generator.environment generator.resolver options
  let template := prepared.template.template
  let location ← Template.locate generator.resources (prepared.roots.map .path) template
  let loaded ← Template.Descriptor.load location.descriptor
  let (data, descriptor) ←
    Hook.apply generator.registry location.directory.toText prepared.data loaded
  let target ← resolveTarget generator.environment data
  Action.note (.creating prepared.identity.name template target.toText)
  let written ← descriptor.copyFiles generator.copier location.directory target (.ofData data)
  let postFault? ← Hook.finish generator.registry data descriptor
  return ⟨target, location.directory, data, descriptor, written, postFault?⟩

end Generator

end Archetype.Project
