import Archetype.Action

namespace Archetype.Git

structure Resolver where
  /-- The address that the repository of a name is cloned from. -/
  address? : (name : String) → Action (Option String)
  commit? : (address : String) → (reference? : Option String) → Action (Option String)
  checkOut : (address name commit : String) → Action Path

structure Checkout where
  address : String
  commit : String
  path : Path
deriving DecidableEq, Repr

/-- The directories of a checkout that may hold templates: one of its directories, or the checkout
itself, and the resources in there. -/
def Checkout.roots (checkout : Checkout) (directory? : Option String) : List Path :=
  let base := checkout.path / directory?.getD ""
  [base, base / "resources"]

def ask {α : Type} (question : Question) (answer : Action α) : Action α := do
  Action.record (.asked question)
  answer

def defaultReference : String := "HEAD"

def given? (reference? : Option String) : Option String :=
  reference?.filter (!·.isEmpty)

namespace Resolver

def askCommit (resolver : Resolver) (address : String) (reference? : Option String) :
    Action (Option String) :=
  ask (.commit address reference?) (resolver.commit? address reference?)

def findCommit (resolver : Resolver) (name address : String) (reference? : Option String) :
    Action String := do
  let unresolved (reference : String) : Action String :=
    Action.fault (.unresolvedReference reference address) (some name)
  match ← resolver.askCommit address reference? with
  | some commit => return commit
  | none =>
    match given? reference? with
    | none => unresolved defaultReference
    | some reference => do
      Action.note (.noReference name reference)
      match ← resolver.askCommit address none with
      | some commit => return commit
      | none => unresolved reference

def checkOut? (resolver : Resolver) (name : String) (reference? : Option String) :
    Action (Option Checkout) := do
  match ← ask (.address name) (resolver.address? name) with
  | none => return none
  | some address =>
    Action.note (.resolving name reference?)
    let commit ← resolver.findCommit name address reference?
    let path ← Action.explaining
      (fun error => .of (.notCheckedOut address commit error) (some name))
      (ask (.checkout address name commit) (resolver.checkOut address name commit))
    return some ⟨address, commit, path⟩

end Resolver

end Archetype.Git
