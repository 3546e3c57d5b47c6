import Archetype.Action
import Archetype.Yaml.Document

namespace Archetype.Template

def descriptorFile : String := "template.yaml"

def readDescriptorFile (path : Path) (content : ByteArray) : Except Failure Value :=
  match String.fromUTF8? content with
  | none => .error .notText
  | some text =>
    match Yaml.read text with
    | .ok value => .ok value
    | .error .malformed => .error (.of (.malformed path.toText) (some path.toText))
    | .error (.reading error) => .error (.reading error)

def Descriptor.ofFileValue (path : Path) (value : Value) : Except Failure Descriptor :=
  match value with
  | .null => .ok {}
  | .map entries =>
    match Descriptor.ofMap entries with
    | .ok descriptor => .ok descriptor
    | .error (.violations found) =>
      .error (.of (.invalidDescriptor path.toText found) (some path.toText))
    | .error (.noItems kind) => .error (.noItems kind)
  | _ => .error (.of (.notMapping path.toText) (some path.toText))

def Descriptor.load (path : Path) : Action Descriptor := do
  let (content, _) ← Action.explaining
    (fun error => .of (.unreadable path.toText error) (some path.toText))
    (Action.readFile (.path path))
  Action.ofExcept (do
    Descriptor.ofFileValue path (← readDescriptorFile path content))

end Archetype.Template
