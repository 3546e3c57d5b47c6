import Archetype.Command.Run
import Archetype.Proofs.Completions

namespace Archetype.Action

theorem ofExcept_bind {α β : Type} (first : Except Failure α) (next : α → Except Failure β) :
    ofExcept (first >>= next) = ofExcept first >>= fun value => ofExcept (next value) := by
  cases first <;> rfl

theorem ofExcept_pure {α : Type} (value : α) : ofExcept (pure value) = pure value := rfl

/-- An action has the property if its parts have it. -/
structure Composes (holds : ∀ {α : Type}, Action α → Prop) : Prop where
  returns : ∀ {α : Type} (value : α), holds (pure value : Action α)
  chains : ∀ {α β : Type} {work : Action α} {next : α → Action β},
    holds work → (∀ value, holds (next value)) → holds (work >>= next)

section Resolver

variable {holds : ∀ {α : Type}, Action α → Prop} (composes : Composes holds)
  {resolver : Git.Resolver} {name : String} {reference? : Option String}

include composes

theorem Composes.findCommit {address : String}
    (asks : ∀ reference?, holds (resolver.askCommit address reference?))
    (notes : ∀ reference, holds (note (.noReference name reference)))
    (unresolved : ∀ reference,
      holds (fault (.unresolvedReference reference address) (some name) : Action String)) :
    holds (resolver.findCommit name address reference?) := by
  refine composes.chains (asks reference?) fun commit? => ?_
  cases commit? with
  | some commit => exact composes.returns commit
  | none =>
      cases Git.given? reference? with
      | none => exact unresolved _
      | some reference =>
          refine composes.chains (notes reference) fun _ => ?_
          refine composes.chains (asks none) fun commit? => ?_
          cases commit? with
          | some commit => exact composes.returns commit
          | none => exact unresolved _

theorem Composes.checkOut? (asks : holds (Git.ask (.address name) (resolver.address? name)))
    (notes : holds (note (.resolving name reference?)))
    (finds : ∀ address, holds (resolver.findCommit name address reference?))
    (checks : ∀ address commit, holds (explaining
      (fun error => .of (.notCheckedOut address commit error) (some name))
      (Git.ask (.checkout address name commit) (resolver.checkOut address name commit)))) :
    holds (resolver.checkOut? name reference?) := by
  refine composes.chains asks fun address? => ?_
  cases address? with
  | none => exact composes.returns none
  | some address =>
      refine composes.chains notes fun _ => ?_
      refine composes.chains (finds address) fun commit => ?_
      exact composes.chains (checks address commit) fun path => composes.returns _

end Resolver

end Archetype.Action

namespace Archetype.Project

open Archetype.Template (Descriptor)

structure Draft where
  prepared : Prepared
  location : Template.Location
  data : Data
  descriptor : Descriptor

namespace Generator

variable (generator : Generator)

def find (options : Data) : Action (Prepared × Template.Location) := do
  let prepared ← prepare generator.settings generator.environment generator.resolver options
  let location ←
    Template.locate generator.resources (prepared.roots.map .path) prepared.template.template
  return (prepared, location)

def draftFrom (found : Prepared × Template.Location) (loaded : Descriptor) : Action Draft := do
  let (prepared, location) := found
  let (data, descriptor) ←
    Hook.apply generator.registry location.directory.toText prepared.data loaded
  return ⟨prepared, location, data, descriptor⟩

def draft (options : Data) : Action Draft := do
  let found ← generator.find options
  let loaded ← Descriptor.load found.2.descriptor
  generator.draftFrom found loaded

def build (draft : Draft) : Action (Path × List Path) := do
  let target ← resolveTarget generator.environment draft.data
  Action.note
    (.creating draft.prepared.identity.name draft.prepared.template.template target.toText)
  let written ←
    draft.descriptor.copyFiles generator.copier draft.location.directory target (.ofData draft.data)
  return (target, written)

def realize (draft : Draft) : Action Result := do
  let (target, written) ← generator.build draft
  let postFault? ← Hook.finish generator.registry draft.data draft.descriptor
  return ⟨target, draft.location.directory, draft.data, draft.descriptor, written, postFault?⟩

theorem generate_eq (options : Data) :
    generator.generate options = generator.draft options >>= generator.realize := by
  simp only [generate, draft, find, draftFrom, realize, build, bind_assoc, pure_bind]

def generateWith (adjust : Descriptor → Descriptor) (options : Data) : Action Result := do
  let found ← generator.find options
  let loaded ← Descriptor.load found.2.descriptor
  let draft ← generator.draftFrom found (adjust loaded)
  generator.realize draft

theorem generateWith_id (options : Data) :
    generator.generateWith id options = generator.generate options := by
  simp only [generate_eq, generateWith, draft, bind_assoc, id]

def read (options : Data) : Action Descriptor := do
  let found ← generator.find options
  Descriptor.load found.2.descriptor

end Generator

end Archetype.Project

namespace Archetype.Command.Setup

open Archetype.Project (Generator)

variable (setup : Setup)

def registry : Hook.Registry :=
  { hooks := setup.registered, library := setup.library }

def order (request : Request) (current : Path) : Except Failure (Generator × Data) := do
  let settings ← setup.settings request current
  let pairs ← parsePairs request.pairs
  return ({
    settings
    environment := setup.environment
    resolver := setup.resolver settings.cache
    registry := setup.registry
    resources := setup.resources }, options request pairs)

def createWith (adjust : Template.Descriptor → Template.Descriptor) (request : Request) :
    Action Project.Result := do
  let current := Path.fromRoot (← Action.disk).current
  let (generator, options) ← Action.ofExcept (setup.order request current)
  generator.generateWith adjust options

theorem create_eq (request : Request) : setup.create request = setup.createWith id request := by
  simp only [create, createWith, order, Action.ofExcept_bind, bind_assoc, Action.ofExcept_pure,
    pure_bind, Generator.generateWith_id]
  rfl

theorem createWith_eq (adjust : Template.Descriptor → Template.Descriptor) (request : Request)
    (world : World) :
    setup.createWith adjust request world =
      match setup.order request (Path.fromRoot world.disk.current) with
      | .error failure => .error failure world
      | .ok (generator, options) => generator.generateWith adjust options world := by
  unfold createWith
  rw [Action.disk_bind]
  cases setup.order request (Path.fromRoot world.disk.current) <;> rfl

variable {setup} in
theorem order_eq_ok {request : Request} {current : Path} {generator : Generator} {given : Data}
    (orders : setup.order request current = .ok (generator, given)) :
    ∃ settled, Settings.ofEnvironment setup.environment current = .ok settled ∧
      generator.settings = { settled with
        roots := request.roots.map Path.ofText ++ settled.roots } ∧
      generator.registry = setup.registry ∧ generator.resources = setup.resources := by
  unfold order settings at orders
  cases settles : Settings.ofEnvironment setup.environment current with
  | error failure => rw [settles] at orders; cases orders
  | ok settled =>
      cases pairs : parsePairs request.pairs with
      | error failure => rw [settles, pairs] at orders; cases orders
      | ok parsed =>
          rw [settles, pairs] at orders
          cases orders
          exact ⟨settled, rfl, rfl, rfl, rfl⟩

def runWith (adjust : Template.Descriptor → Template.Descriptor) (arguments : List String)
    (world : World) : Ending × String × World :=
  match Request.parse arguments with
  | .error .help => (.helped, "", world)
  | .error (.misuse misuse) => (.misused misuse.message, "", world)
  | .ok request =>
    let (ending, after) := match setup.createWith adjust request world with
      | .ok result after => (Ending.created result, after)
      | .error failure after => (endingOf failure, after)
    (ending, log request.verbosity (after.journal.drop world.journal.length), after)

theorem run_eq (arguments : List String) (world : World) :
    setup.run arguments world = setup.runWith id arguments world := by
  cases parsed : Request.parse arguments with
  | error refused => cases refused <;> simp only [run, runWith, parsed]
  | ok request =>
      cases created : setup.createWith id request world <;>
        simp only [run, runWith, parsed, create_eq, created]

end Archetype.Command.Setup
