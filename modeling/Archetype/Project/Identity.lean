import Archetype.Failure
import Archetype.Git.Hosting
import Archetype.Value.Data

namespace Archetype.Project

def defaultGroupPrefix : String := "net.clojars."

def defaultHost : String := "github.com"

structure Identity where
  artifact : String
  group : String
  main : String
  name : String
  top : String
  host : String
  user : String
  repository : String
deriving DecidableEq, Repr

def isSegmentChar (character : Char) : Bool :=
  !(Text.isBlank character || character.toNat < 32 ||
    ['/', '\\', ':', '*', '?', '"', '<', '>', '|'].contains character)

def isSegment (text : String) : Bool :=
  !text.isEmpty && text.toList.all isSegmentChar

def lastLine (characters : List Char) : List Char × List Char :=
  match Text.cutLast '\n' characters with
  | (none, line) => ([], line)
  | (some before, line) => (before ++ ['\n'], line)

/-- A text whose last line ends before its first slash; one line feed at the very end is not part
of the last line. -/
def dropAfterSlash (characters : List Char) : List Char :=
  match characters.reverse with
  | '\n' :: reversed =>
    let (before, line) := lastLine reversed.reverse
    before ++ (Text.cutFirst '/' line).1 ++ ['\n']
  | _ =>
    let (before, line) := lastLine characters
    before ++ (Text.cutFirst '/' line).1

def hostOf (address? : Option String) : String :=
  match address? with
  | none => defaultHost
  | some address =>
    if address.isEmpty then defaultHost
    else
      let scheme := "https://".toList
      let characters := address.toList
      String.ofList (dropAfterSlash
        (if scheme.isPrefixOf characters then characters.drop scheme.length else characters))

def userOf (top : String) : String :=
  match top.toList with
  | 'c' :: 'o' :: 'm' :: '.' :: rest => String.ofList rest
  | 'o' :: 'r' :: 'g' :: '.' :: rest => String.ofList rest
  | _ => top

def groupOf (groupPrefix qualifier : String) : String :=
  if qualifier.toList.contains '.' then qualifier else groupPrefix ++ qualifier

namespace Identity

def ofSegments (groupPrefix : String) (addressOf : String → Option String)
    (qualifier main : String) : Identity :=
  let name := qualifier ++ "/" ++ main
  let top := match Git.Hosting.ofQualifier? qualifier with
    | some (_, organization) => organization
    | none => qualifier
  { artifact := main
    group := groupOf groupPrefix qualifier
    main
    name
    top
    host := hostOf (addressOf name)
    user := userOf top
    repository := main }

def resolve (groupPrefix : String) (addressOf : String → Option String) (token : String) :
    Except Fault Identity :=
  let raw := Text.strip token
  if raw.isEmpty then .error ⟨.emptyName, none⟩
  else
    let (qualifier, main) := Name.splitQualified raw
    match [qualifier, main].find? fun segment => !isSegment segment with
    | some segment =>
      .error ⟨.invalidName raw, some (if segment.isEmpty then "<empty>" else segment)⟩
    | none => .ok (ofSegments groupPrefix addressOf qualifier main)

def qualifier (identity : Identity) : String :=
  String.ofList (Text.cutFirst '/' identity.name.toList).1

def toData (identity : Identity) : Data :=
  Table.ofList ([("artifact/id", identity.artifact), ("group/id", identity.group),
    ("main", identity.main), ("name", identity.name), ("scm/domain", identity.host),
    ("scm/user", identity.user), ("scm/repo", identity.repository), ("top", identity.top)].map
      fun entry => (Key.text entry.1, .text entry.2))

end Identity

end Archetype.Project
