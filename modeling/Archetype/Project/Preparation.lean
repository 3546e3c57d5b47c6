import Archetype.Git.Repository
import Archetype.Settings
import Archetype.Text.Cases
import Archetype.Text.Replace

namespace Archetype.Project

structure Prepared where
  data : Data
  identity : Identity
  template : Template.TemplateName
  roots : List Path
  checkout? : Option Git.Checkout

def option? (options : Data) (name : String) : Option Value :=
  (options.find? name).filter Value.isGiven

/-- Options, and over them options in whose names low lines stand for hyphens. -/
def withSpelled (options spelled : Data) : Data :=
  options.insertAll (spelled.entries.map fun entry =>
    (Key.text (Text.replace entry.1.toText "_" "-"), entry.2))

def consumed : List String := ["template", "name", "target-dir", "target_dir"]

def passedOn (options : Data) : Data :=
  options.filter fun key => !(key.spelled.asText?.any consumed.contains)

def targetOf (options : Data) (identity : Identity) : String :=
  (((option? options "target-dir").or (option? options "target_dir")).map Value.toText).getD
    identity.main

def derived (settings : Settings) (environment : Environment) (token target template : String)
    (checkout? : Option Path) : Data :=
  let user := environment.userName
  Table.ofList ([("developer", .text (Text.capitalize user)),
    ("git-dir", match checkout? with
      | some path => .text path.toText
      | none => .null),
    ("now/date", .text environment.today.toText),
    ("now/year", .text (toString environment.today.year)),
    ("raw-name", .text token),
    ("template", .text template),
    ("target-dir", .text target),
    ("user", .text user),
    ("version", .text settings.version)].map fun entry => (Key.text entry.1, entry.2))

def prepare (settings : Settings) (environment : Environment) (resolver : Git.Resolver)
    (options : Data) : Action Prepared := do
  match option? options "template", option? options "name" with
  | some template, some name =>
    let token := name.toText
    let identity ← Action.ofFault (Identity.resolve settings.groupPrefix Git.address? token)
    let template ← Action.ofFault (Template.TemplateName.parse settings.space template.toText)
    let checkout? ← resolver.checkOut? template.repository template.reference?
    let roots := match checkout? with
      | some checkout => checkout.roots template.directory?
      | none => []
    let derived := derived settings environment token (targetOf options identity)
      template.template roots.head?
    return {
      data := (Table.union identity.toData derived).union (passedOn options)
      identity
      template
      roots := roots ++ settings.roots
      checkout? }
  | _, _ => Action.fault .missingOptions

end Archetype.Project
