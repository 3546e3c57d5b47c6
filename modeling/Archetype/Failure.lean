import Archetype.Disk.Basic
import Archetype.Violation
import Archetype.Yaml.Error

/-!
# Failures

Everything that can end the generation of a project. A `Fault` is reported by the generator itself:
its cause belongs to a stage of the work and may name an entry, such as a hook or a transform. Other
failures come from below, from the disk or from data that cannot be read, and are either made part
of a fault or passed on.

The wording of violations and of errors in descriptor files is not part of a message, where
`<details>` and `<yaml>` stand for it.
-/

namespace Archetype

inductive FileError
  | refused (code : ErrorCode) (path : String)
  | noSource (path : String)
  | sameFile (source destination : String)
  | reported (text : String)
deriving DecidableEq, Repr

def FileError.message : FileError → String
  | refused code path =>
    "[Errno " ++ toString code.number ++ "] " ++ code.text ++ ": " ++ Text.quoted path
  | noSource path => path
  | sameFile source destination => source ++ " and " ++ destination ++ " are the same file"
  | reported text => text

inductive Stage
  | general
  | options
  | identity
  | location
  | remote
  | descriptor
  | transform
  | hook
deriving DecidableEq, Repr

def Stage.name? : Stage → Option String
  | general => none
  | options => some "options"
  | identity => some "identity"
  | location => some "locate"
  | remote => some "remote"
  | descriptor => some "descriptor"
  | transform => some "transform"
  | hook => some "hook"

inductive Cause
  | missingOptions
  | emptyTemplateName
  | emptyName
  | invalidName (name : String)
  | templateNotFound (file : String) (roots : List String)
  | unresolvedReference (reference address : String)
  | notCheckedOut (address commit : String) (error : FileError)
  | noGit (program : String)
  | gitTimeout (command seconds : String)
  | gitFailed (call : String) (directory? : Option String) (output : String)
  | unreadable (path : String) (error : FileError)
  | malformed (path : String)
  | notMapping (path : String)
  | invalidDescriptor (path : String) (violations : List Violation)
  | noDirectory (path : String)
  | noFile (path : String)
  | notCopied (path : String) (error : FileError)
  | unknownHook (reference : String)
  | brokenEntryPoint (reference problem : String)
  | notImportable (source reference problem : String)
  | noAttribute (source member : String)
  | notCallable (reference : String)
  | hookFailed (role reference problem : String) (violations : List Violation)
  | notData (reference kind : String)
  | invalidReplacement (reference : String) (violations : List Violation)
  | noReplacement (reference : String)
  /-- A fault that is known by its text; a stage of its own may be named. -/
  | reported (stage : Stage) (named? : Option String) (text : String)
deriving DecidableEq, Repr

namespace Cause

def stage : Cause → Stage
  | missingOptions | emptyTemplateName => .options
  | emptyName | invalidName _ => .identity
  | templateNotFound _ _ => .location
  | unresolvedReference _ _ | notCheckedOut _ _ _ | noGit _ | gitTimeout _ _ | gitFailed _ _ _ =>
    .remote
  | unreadable _ _ | malformed _ | notMapping _ | invalidDescriptor _ _ => .descriptor
  | noDirectory _ | noFile _ | notCopied _ _ => .transform
  | unknownHook _ | brokenEntryPoint _ _ | notImportable _ _ _ | noAttribute _ _ | notCallable _
  | hookFailed _ _ _ _ | notData _ _ | invalidReplacement _ _ | noReplacement _ => .hook
  | reported stage _ _ => stage

def stageName? : Cause → Option String
  | reported stage named? _ => named?.or stage.name?
  | cause => cause.stage.name?

def violations : Cause → List Violation
  | invalidDescriptor _ violations | hookFailed _ _ _ violations
  | invalidReplacement _ violations => violations
  | _ => []

def text : Cause → String
  | missingOptions => "both template and name are required"
  | emptyTemplateName => "template name must not be empty"
  | emptyName => "project name must not be empty"
  | invalidName name => "invalid project name " ++ Text.quoted name
  | templateNotFound file roots =>
    "could not find " ++ file ++ " on the resource path or in: " ++
      (let listed := ", ".intercalate roots
        if listed.isEmpty then "<none>" else listed)
  | unresolvedReference reference address => "could not resolve " ++ reference ++ " in " ++ address
  | notCheckedOut address commit error =>
    "could not check out " ++ address ++ " at " ++ commit ++ ": " ++ error.message
  | noGit program => "git executable not found: " ++ Text.quoted program
  | gitTimeout command seconds => "git " ++ command ++ " timed out after " ++ seconds ++ "s"
  | gitFailed call directory? output =>
    "git " ++ call ++ " failed" ++ (directory?.map (" in " ++ ·)).getD "" ++ ": " ++ output
  | unreadable path error => "cannot read " ++ path ++ ": " ++ error.message
  | malformed path => "invalid YAML in " ++ path ++ ": <yaml>"
  | notMapping path => path ++ " must contain a mapping"
  | invalidDescriptor path _ => "invalid template descriptor " ++ path ++ ": <details>"
  | noDirectory path => "template directory " ++ path ++ " does not exist"
  | noFile path => "file to rename " ++ path ++ " does not exist"
  | notCopied path error => "could not copy " ++ path ++ ": " ++ error.message
  | unknownHook reference => "unknown hook " ++ Text.quoted reference
  | brokenEntryPoint reference problem =>
    "cannot load entry point " ++ Text.quoted reference ++ ": " ++ problem
  | notImportable source reference problem =>
    "cannot import " ++ Text.quoted source ++ " for hook " ++ Text.quoted reference ++ ": " ++
      problem
  | noAttribute source member =>
    Text.quoted source ++ " has no attribute " ++ Text.quoted member
  | notCallable reference => "hook " ++ Text.quoted reference ++ " is not callable"
  | hookFailed role reference problem _ =>
    role ++ " " ++ Text.quoted reference ++ " failed: " ++ problem
  | notData reference kind =>
    "data_fn " ++ Text.quoted reference ++ " must return a mapping, got " ++ kind
  | invalidReplacement reference _ =>
    "template_fn " ++ Text.quoted reference ++ " returned an invalid descriptor: <details>"
  | noReplacement reference =>
    "template_fn " ++ Text.quoted reference ++ " must return a descriptor"
  | reported _ _ text => text

end Cause

structure Fault where
  cause : Cause
  subject? : Option String := none
deriving DecidableEq, Repr

def Fault.message (fault : Fault) : String :=
  match fault.subject? with
  | none => fault.cause.text
  | some entry =>
    if entry.isEmpty then fault.cause.text
    else
      let stage := match fault.cause.stageName? with
        | some name => if name.isEmpty then "generate" else name
        | none => "generate"
      fault.cause.text ++ " [" ++ stage ++ ": " ++ entry ++ "]"

inductive Failure
  | fault (fault : Fault)
  | file (error : FileError)
  | invalid (violations : List Violation)
  | notText
  | reading (error : ReadingError)
  | nullCharacter
  | noItems (kind : String)
  /-- A module is named relative to nothing. -/
  | relativeModule (name : String)
  | noHome
  | linkCircle (path : String)
  | pairWithoutSign (pair : String)
  | pairWithoutKey
deriving DecidableEq, Repr

def Failure.message : Failure → String
  | .fault reported => reported.message
  | .file error => error.message
  | .invalid _ => "<details>"
  | .notText => "<unstable>"
  | .reading error => error.message
  | .nullCharacter => "embedded null byte"
  | .noItems kind => "'" ++ kind ++ "' object is not iterable"
  | .relativeModule name =>
    "the 'package' argument is required to perform a relative import for " ++ Text.quoted name
  | .noHome => "Could not determine home directory."
  | .linkCircle path => "Symlink loop from " ++ Text.quoted path
  | .pairWithoutSign pair =>
    "invalid key/value pair '" ++ pair ++ "'. Expected KEY=VALUE syntax."
  | .pairWithoutKey => "keys must not be empty"

def Failure.of (cause : Cause) (subject? : Option String := none) : Failure :=
  .fault ⟨cause, subject?⟩

end Archetype
