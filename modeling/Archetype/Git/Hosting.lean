import Archetype.Name.Form

namespace Archetype.Git

inductive Hosting
  | github
  | gitlab
  | bitbucket
  | beanstalk
  | sourcehut
deriving DecidableEq, Repr

namespace Hosting

def all : List Hosting := [github, gitlab, bitbucket, beanstalk, sourcehut]

def label : Hosting → String
  | github => "github"
  | gitlab => "gitlab"
  | bitbucket => "bitbucket"
  | beanstalk => "beanstalk"
  | sourcehut => "sourcehut"

/-- The labels of the domain that qualifiers at the service start with: the top-level domains and
the name under them. -/
def domain : Hosting → List String × String
  | github => (["com", "io"], "github")
  | gitlab => (["com", "io"], "gitlab")
  | bitbucket => (["org", "io"], "bitbucket")
  | beanstalk => (["com", "io"], "beanstalkapp")
  | sourcehut => (["ht"], "sr")

def address (service : Hosting) (organization repository : String) : String :=
  match service with
  | github => "https://github.com/" ++ organization ++ "/" ++ repository ++ ".git"
  | gitlab => "https://gitlab.com/" ++ organization ++ "/" ++ repository ++ ".git"
  | bitbucket => "https://bitbucket.org/" ++ organization ++ "/" ++ repository ++ ".git"
  | beanstalk => "https://" ++ organization ++ ".git.beanstalkapp.com/" ++ repository ++ ".git"
  | sourcehut => "https://git.sr.ht/~" ++ organization ++ "/" ++ repository

def organization? (service : Hosting) (qualifier : String) : Option String :=
  match Text.split '.' qualifier with
  | [top, middle, organization] =>
    if service.domain.1.contains top && service.domain.2 == middle && !organization.isEmpty then
      some organization
    else none
  | _ => none

def ofQualifier? (qualifier : String) : Option (Hosting × String) :=
  all.findSome? fun service =>
    (service.organization? qualifier).map fun organization => (service, organization)

end Hosting

def address? (name : String) : Option String :=
  if name.toList.contains '/' then
    let (qualifier, repository) := Name.splitQualified name
    (Hosting.ofQualifier? qualifier).map fun (service, organization) =>
      service.address organization repository
  else none

end Archetype.Git
