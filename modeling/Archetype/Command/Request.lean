import Archetype.Command.Arguments

namespace Archetype.Command

structure Request where
  verbosity : Nat
  template? : Option String
  name? : Option String
  target? : Option String
  /-- Data as pairs `KEY=VALUE`. -/
  pairs : List String
  roots : List String
deriving DecidableEq, Repr

def verboseFlag : Flag := ⟨["-v", "--verbose"], false⟩

def targetFlag : Flag := ⟨["-d", "--target-dir"], true⟩

def contextFlag : Flag := ⟨["-c", "--context"], true⟩

def rootFlag : Flag := ⟨["-s", "--search-root"], true⟩

def createName : String := "create"

def general : Grammar := ⟨[helpFlag, verboseFlag], [⟨"command", true⟩]⟩

def creation : Grammar :=
  ⟨[helpFlag, targetFlag, contextFlag, rootFlag], [⟨"template", false⟩, ⟨"name", false⟩]⟩

def valuesOf (flag : Flag) (uses : List Use) : List String :=
  uses.filterMap fun
    | .flag other value? => if other = flag then value? else none
    | .positional _ _ => none

def valuesAt (name : String) (uses : List Use) : List String :=
  uses.flatMap fun
    | .positional other values => if other = name then values else []
    | .flag _ _ => []

def usage : String :=
  "usage: [-h] [-v] create [-h] [-d TARGET_DIR] [-c KEY=VALUE] [-s SEARCH_ROOT] template name\n"

namespace Request

def ofUses (before after : List Use) : Request where
  verbosity := before.count (.flag verboseFlag none)
  template? := (valuesAt "template" after).head?
  name? := (valuesAt "name" after).head?
  target? := (valuesOf targetFlag after).getLast?
  pairs := valuesOf contextFlag after
  roots := valuesOf rootFlag after

def parse (arguments : List String) : Except Stop Request := do
  let first ← general.parse arguments
  match valuesAt "command" first.uses with
  | [] => throw (.misuse (.missing ["command"]))
  | command :: arguments =>
    if command ≠ createName then throw (.misuse (.unknownCommand command [createName]))
    let second ← creation.parse arguments
    let unknown := first.rest ++ second.rest
    if unknown.isEmpty then return ofUses first.uses second.uses
    else throw (.misuse (.unknown unknown))

end Request

end Archetype.Command
