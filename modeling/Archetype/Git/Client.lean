import Archetype.Git.Hosting
import Archetype.Git.Repository
import Archetype.Text.Lines

namespace Archetype.Git

inductive Outcome
  | finished (status : Int) (output errors : String)
  | noProgram
  | timedOut
deriving DecidableEq, Repr

structure Client where
  cache : Path
  program : String := "git"
  timeout : String := "120.0"
  /-- What a call comes to, and what it leaves on the disk. -/
  run : World → Invocation → Outcome × Disk

/-- A text is a commit in full: forty hexadecimal digits; a line feed may follow them. -/
def isCommit (text : String) : Bool :=
  let characters := text.toList
  let digits := if characters.getLast? = some '\n' then characters.dropLast else characters
  digits.length = 40 &&
    digits.all fun character => character.isDigit || ('a' ≤ character && character ≤ 'f')

def parseLine (line : String) : Option (String × String) :=
  match Text.cutFirst '\t' line.toList with
  | (commit, some name) =>
    if commit.isEmpty || name.isEmpty then none
    else some (Text.strip (String.ofList name), Text.strip (String.ofList commit))
  | (_, none) => none

/-- The commits by name that a listing gives; of a repeated name the last line counts. -/
def parseListing (listing : String) : Table String String :=
  Table.ofList ((Text.lines listing).filterMap parseLine)

def candidates (reference? : Option String) : List String :=
  match given? reference? with
  | none => [defaultReference]
  | some reference =>
    if reference = defaultReference then [defaultReference]
    else ["refs/tags/" ++ reference ++ "^\x7b\x7d", "refs/tags/" ++ reference,
      "refs/heads/" ++ reference, reference]

def commitIn? (listing : String) (reference? : Option String) : Option String :=
  (candidates reference?).findSome? (parseListing listing).get?

namespace Client

def call (client : Client) (arguments : List String) (directory? : Option Path := none) :
    Action (Int × String × String) := do
  let invocation : Invocation := ⟨client.program :: arguments, directory?.map Path.toText⟩
  Action.note (.running (" ".intercalate invocation.arguments))
  let (outcome, disk) := client.run (← get) invocation
  Action.record (.ran invocation)
  Action.setDisk disk
  match outcome with
  | .finished status output errors => return (status, output, errors)
  | .noProgram => Action.fault (.noGit client.program)
  | .timedOut => Action.fault (.gitTimeout (arguments.headD "") client.timeout)

def commit? (client : Client) (address : String) (reference? : Option String) :
    Action (Option String) := do
  let reference := (given? reference?).getD defaultReference
  if isCommit reference then return reference
  let (status, output, errors) ← client.call ["ls-remote", address, reference]
  if status ≠ 0 then
    let errors := Text.strip errors
    Action.fault (.gitFailed ("ls-remote " ++ address ++ " " ++ reference) none
      (if errors.isEmpty then toString status else errors))
  return commitIn? output reference?

def checkoutPath (client : Client) (name commit : String) : Path :=
  let (qualifier, repository) := Name.splitQualified name
  client.cache / "libs" / qualifier / repository / commit

def fetch (client : Client) (address commit : String) (path : Path) : Action Unit := do
  let (status, _, errors) ←
    client.call ["clone", "--quiet", "--no-checkout", address, path.toText]
  if status ≠ 0 then
    Action.fault (.gitFailed ("clone " ++ address) none (Text.strip errors))
  let (status, _, errors) ← client.call ["checkout", "--quiet", "--detach", commit] (some path)
  if status ≠ 0 then
    Action.fault (.gitFailed ("checkout " ++ commit) (some path.toText) (Text.strip errors))

def discard (path : Path) (disk : Disk) : Disk :=
  if disk.isDirectory path && !disk.isLink path then
    match disk.removeTree path with
    | .ok (changed, _) => changed
    | .error _ => disk
  else disk

def undoing (path : Path) (work : Action Unit) : Action Unit := fun world =>
  match work world with
  | .error (.fault fault) world =>
    .error (.fault fault) { world with disk := discard path world.disk }
  | result => result

def checkOut (client : Client) (address name commit : String) : Action Path := do
  let path := client.checkoutPath name commit
  if ((← Action.disk).find? (path / ".git")).isSome then
    Action.note (.reusing path.toText)
    return path
  Action.makeDirectories path.parent
  Action.note (.cloning address (String.ofList (commit.toList.take 12)))
  undoing path (client.fetch address commit path)
  return path

def resolver (client : Client) : Resolver where
  address? name := return Git.address? name
  commit? := client.commit?
  checkOut := client.checkOut

end Client

end Archetype.Git
