import Archetype.Command.Pairs
import Archetype.Command.Request
import Archetype.Project.Generation

namespace Archetype.Command

structure Setup where
  environment : Environment
  resolver : (cache : Path) → Git.Resolver
  library : Hook.Library := .empty
  registered : Table String Hook.Target := ∅
  resources : List Path

inductive Ending
  | helped
  | misused (message : String)
  | created (result : Project.Result)
  | failed (fault : Fault)
  /-- A failure that is none of the generator's own ends the program. -/
  | broken (failure : Failure)

namespace Ending

def status : Ending → Nat
  | helped | created _ => 0
  | failed _ | broken _ => 1
  | misused _ => 2

def output : Ending → String
  | helped => usage
  | created result => "Project created at " ++ result.target.toText ++ "\n"
  | misused _ | failed _ | broken _ => ""

def errors : Ending → String
  | helped => ""
  | misused message => "error: " ++ message ++ "\n"
  | created result =>
    match result.postFault? with
    | some fault => "warning: " ++ fault.message ++ "\n"
    | none => ""
  | failed fault => "error: " ++ fault.message ++ "\n"
  | broken failure => failure.message ++ "\n"

end Ending

def levelName : Level → String
  | .detail => "DEBUG"
  | .progress => "INFO"
  | .warning => "WARNING"

def leastVerbosity : Level → Nat
  | .warning => 0
  | .progress => 1
  | .detail => 2

def logLine (note : Note) : String :=
  levelName note.level ++ " stencil." ++ note.source ++ ": " ++ note.text ++ "\n"

def log (verbosity : Nat) (events : List Event) : String :=
  String.join (events.filterMap fun
    | .noted note => if leastVerbosity note.level ≤ verbosity then some (logLine note) else none
    | _ => none)

/-- The settings of a request: its own roots come before all others. -/
def Setup.settings (setup : Setup) (request : Request) (current : Path) :
    Except Failure Settings := do
  let settings ← Settings.ofEnvironment setup.environment current
  return { settings with roots := request.roots.map Path.ofText ++ settings.roots }

def valueOf : Option String → Value
  | some text => .text text
  | none => .null

def options (request : Request) (pairs : Table String String) : Data :=
  let given := Table.ofList (pairs.entries.map fun entry =>
    (Key.text entry.1, Value.text entry.2))
  let named := (Data.set given "template" (valueOf request.template?)).set "name"
    (valueOf request.name?)
  match request.target? with
  | some target => named.set Project.targetEntry (.text (Path.ofText target).toText)
  | none => named

def Setup.create (setup : Setup) (request : Request) : Action Project.Result := do
  let current := Path.fromRoot (← Action.disk).current
  let settings ← Action.ofExcept (setup.settings request current)
  let pairs ← Action.ofExcept (parsePairs request.pairs)
  let generator : Project.Generator := {
    settings
    environment := setup.environment
    resolver := setup.resolver settings.cache
    registry := { hooks := setup.registered, library := setup.library }
    resources := setup.resources }
  generator.generate (options request pairs)

def endingOf : Failure → Ending
  | .fault fault => .failed fault
  | .pairWithoutSign pair => .misused (Failure.pairWithoutSign pair).message
  | .pairWithoutKey => .misused Failure.pairWithoutKey.message
  | failure => .broken failure

def Setup.run (setup : Setup) (arguments : List String) (world : World) :
    Ending × String × World :=
  match Request.parse arguments with
  | .error .help => (.helped, "", world)
  | .error (.misuse misuse) => (.misused misuse.message, "", world)
  | .ok request =>
    let (ending, after) := match setup.create request world with
      | .ok result after => (Ending.created result, after)
      | .error failure after => (endingOf failure, after)
    (ending, log request.verbosity (after.journal.drop world.journal.length), after)

end Archetype.Command
