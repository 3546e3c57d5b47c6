import Archetype.Template.Descriptor

namespace Archetype

inductive Level
  | detail
  | progress
  | warning
deriving DecidableEq, Repr

inductive HookRole
  | data
  | template
  | post
deriving DecidableEq, Repr

def HookRole.name : HookRole → String
  | data => "data_fn"
  | template => "template_fn"
  | post => "post_process_fn"

inductive Note
  | copied (count : Nat) (target : String)
  | copying (source destination : String)
  | moving (file renamed : String)
  | applying (entry : String)
  | nothingCopied (entry : String)
  | found (template directory : String)
  | resolving (repository : String) (reference? : Option String)
  | noReference (repository reference : String)
  | running (command : String)
  | reusing (checkout : String)
  | cloning (address commit : String)
  | calling (role : HookRole) (reference : String)
  | postFailed (problem : String)
  | creating (name template target : String)
deriving DecidableEq, Repr

namespace Note

def level : Note → Level
  | copied _ _ | copying _ _ | moving _ _ | found _ _ | running _ | reusing _ | calling _ _ =>
    .detail
  | applying _ | resolving _ _ | cloning _ _ | creating _ _ _ => .progress
  | nothingCopied _ | noReference _ _ | postFailed _ => .warning

def source : Note → String
  | copied _ _ => "copier"
  | copying _ _ | moving _ _ | applying _ | nothingCopied _ => "transform"
  | found _ _ | resolving _ _ | noReference _ _ => "locator"
  | running _ | reusing _ | cloning _ _ => "git"
  | calling _ _ | postFailed _ => "hooks"
  | creating _ _ _ => "scaffold"

def text : Note → String
  | copied count target => "copied " ++ toString count ++ " file(s) into " ++ target
  | copying source destination => "copying " ++ source ++ " to " ++ destination
  | moving file renamed => "renaming " ++ file ++ " to " ++ renamed
  | applying entry => "applying transform " ++ entry
  | nothingCopied entry =>
    "transform " ++ entry ++ " is 'only' with no files; nothing copied"
  | found template directory => "template " ++ template ++ " found at " ++ directory
  | resolving repository reference? =>
    "resolving " ++ repository ++ " as a git dependency" ++
      (match reference? with
        | some reference => if reference.isEmpty then "" else " at " ++ reference
        | none => "")
  | noReference repository reference => repository ++ " has no ref " ++ reference ++ ", using HEAD"
  | running command => "running " ++ command
  | reusing checkout => "reusing checkout " ++ checkout
  | cloning address commit => "cloning " ++ address ++ " at " ++ commit
  | calling role reference => "calling " ++ role.name ++ " " ++ reference
  | postFailed problem => "post-processing failed: " ++ problem
  | creating name template target =>
    "creating " ++ name ++ " from " ++ template ++ " in " ++ target

end Note

inductive Question
  | address (name : String)
  | commit (address : String) (reference? : Option String)
  | checkout (address name commit : String)
deriving DecidableEq, Repr

structure Invocation where
  arguments : List String
  directory? : Option String
deriving DecidableEq, Repr

inductive Argument where
  | data (data : Data)
  | descriptor (descriptor : Template.Descriptor)

structure HookCall where
  role : HookRole
  reference : String
  function : String
  arguments : List Argument

inductive Event where
  | noted (note : Note)
  | asked (question : Question)
  | called (call : HookCall)
  | ran (invocation : Invocation)
  | wrote (path : Path)

end Archetype
