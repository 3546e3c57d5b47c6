import Archetype.Command.Run
import Archetype.Git.Client
import Archetype.Template.Bundled
import Std.Time.Zoned

namespace Archetype.Main

def packages : Place := ["usr", "share", "archetype"]

def variableNames : List String :=
  ["USER", "USERNAME", "LOGNAME", "LNAME", "STENCIL_TEMPLATE_PATH", "STENCIL_CACHE_DIR",
    "STENCIL_GROUP_PREFIX"]

def environment : IO Environment := do
  let assignments ← variableNames.filterMapM fun name => do
    return (← IO.getEnv name).map fun value => (name, value)
  let own? ← IO.getEnv "HOME"
  let today ← Std.Time.PlainDate.now
  return {
    assignments := .ofList assignments
    homes := ⟨own?, fun _ => none⟩
    account? := (assignments.find? (·.1 = "LNAME")).map (·.2)
    today := ⟨today.year.toInt.toNat, today.month.toNat, today.day.toNat⟩ }

def pathText (place : Place) : String :=
  (Path.fromRoot place).toText

partial def listing (input : IO.FS.Stream) : IO (List String) := do
  let line ← input.getLine
  if line.isEmpty then return []
  let path := Text.strip line
  let paths ← listing input
  return if path.isEmpty then paths else path :: paths

def load (disk : Disk) (path : String) : IO Disk := do
  let content ← IO.FS.readBinFile path
  let named := Path.ofText path
  let place := Disk.collapse (if named.isAnchored then named.segments
    else disk.current ++ named.segments)
  return (disk.putDirectories place.dropLast).put place (.file content false)

def store (place : Place) : Node → IO Unit
  | .directory => IO.FS.createDirAll (pathText place)
  | .file content executable => do
    IO.FS.createDirAll (pathText place.dropLast)
    IO.FS.writeBinFile (pathText place) content
    if executable then
      let all : IO.AccessRight := ⟨true, true, true⟩
      let others := { all with write := false }
      IO.setAccessRights (pathText place) ⟨all, others, others⟩
  | .link _ => return

end Archetype.Main

open Archetype in
def main (arguments : List String) : IO UInt32 := do
  let current := Path.segmentsOf (← IO.currentDir).toString
  let empty : Disk := { nodes := ∅, current, temporary := ["tmp"] }
  let given ← Main.listing (← IO.getStdin)
  let before ← given.foldlM Main.load (Template.Bundled.install Main.packages
    ((empty.putDirectories current).putDirectories empty.temporary))
  let setup : Command.Setup := {
    environment := ← Main.environment
    resolver := fun cache =>
      Git.Client.resolver { cache, run := fun world _ => (.noProgram, world.disk) }
    resources := [.fromRoot Main.packages] }
  let (ending, log, after) := setup.run arguments { disk := before }
  for (place, node) in after.disk.changesFrom before do
    Main.store place node
  IO.print ending.output
  IO.eprint (log ++ ending.errors)
  return ending.status.toUInt32
