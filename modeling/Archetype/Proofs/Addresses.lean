import Archetype.Proofs.Qualifiers

namespace Archetype

theorem Text.append_slash_injective {front other rest later : String}
    (free : '/' ∉ front.toList) (other_free : '/' ∉ other.toList)
    (same : front ++ "/" ++ rest = other ++ "/" ++ later) : front = other ∧ rest = later := by
  have characters := congrArg (fun text => cutFirst '/' text.toList) same
  simp only [String.toList_append, List.append_assoc] at characters
  rw [show "/".toList = ['/'] from rfl, List.singleton_append, List.singleton_append,
    cutFirst_append free, cutFirst_append other_free] at characters
  simpa [String.toList_inj] using characters

namespace Git

namespace Hosting

variable {service other : Hosting} {organization another repository renamed : String}

def host (service : Hosting) (organization : String) : String :=
  match service with
  | github => "github.com"
  | gitlab => "gitlab.com"
  | bitbucket => "bitbucket.org"
  | beanstalk => organization ++ ".git.beanstalkapp.com"
  | sourcehut => "git.sr.ht"

def labels (service : Hosting) (organization : String) : List String :=
  match service with
  | github => ["github", "com"]
  | gitlab => ["gitlab", "com"]
  | bitbucket => ["bitbucket", "org"]
  | beanstalk => [organization, "git", "beanstalkapp", "com"]
  | sourcehut => ["git", "sr", "ht"]

def place (service : Hosting) (organization repository : String) : String :=
  match service with
  | github | gitlab | bitbucket => organization ++ "/" ++ (repository ++ ".git")
  | beanstalk => repository ++ ".git"
  | sourcehut => "~" ++ organization ++ "/" ++ repository

theorem address_eq (service : Hosting) (organization repository : String) :
    service.address organization repository =
      "https://" ++ (service.host organization ++ "/" ++ service.place organization repository) := by
  have literals : "https://github.com/" = "https://" ++ ("github.com" ++ "/") ∧
      "https://gitlab.com/" = "https://" ++ ("gitlab.com" ++ "/") ∧
      "https://bitbucket.org/" = "https://" ++ ("bitbucket.org" ++ "/") ∧
      ".git.beanstalkapp.com/" = ".git.beanstalkapp.com" ++ "/" ∧
      "https://git.sr.ht/~" = "https://" ++ ("git.sr.ht" ++ ("/" ++ "~")) := by
    decide
  obtain ⟨github, gitlab, bitbucket, beanstalk, sourcehut⟩ := literals
  unfold address host place
  cases service <;>
    simp only [github, gitlab, bitbucket, beanstalk, sourcehut, String.append_assoc]

theorem slash_not_mem_host (free : '/' ∉ organization.toList) :
    '/' ∉ (service.host organization).toList := by
  cases service with
  | beanstalk => simp [host, free]
  | _ => simp [host]

theorem split_host (dotless : '.' ∉ organization.toList) :
    Text.split '.' (service.host organization) = service.labels organization := by
  cases service with
  | beanstalk =>
      have characters : (beanstalk.host organization).toList =
          organization.toList ++ '.' :: "git.beanstalkapp.com".toList := by
        simp [host]
      have others : (Text.pieces '.' "git.beanstalkapp.com".toList).map String.ofList =
          ["git", "beanstalkapp", "com"] := by decide
      rw [Text.split, characters, Text.pieces_append, Text.pieces_of_not_mem dotless,
        List.map_append, others, List.map_singleton, String.ofList_toList]
      rfl
  | _ =>
      simp only [host, labels]
      decide

theorem host_injective (dotless : '.' ∉ organization.toList) (other_dotless : '.' ∉ another.toList)
    (same : service.host organization = other.host another) :
    service = other ∧ (service = beanstalk → organization = another) := by
  have labels_eq : service.labels organization = other.labels another := by
    rw [← split_host dotless, ← split_host other_dotless, same]
  cases service <;> cases other <;> simp [labels] at labels_eq ⊢
  exact labels_eq

theorem place_injective (free : '/' ∉ organization.toList) (other_free : '/' ∉ another.toList)
    (same : service.place organization repository = service.place another renamed) :
    (service ≠ beanstalk → organization = another) ∧ repository = renamed := by
  have suffixed : ∀ {text later : String}, text ++ ".git" = later ++ ".git" → text = later := by
    intro text later same
    simpa [← String.toList_inj] using same
  cases service with
  | beanstalk => exact ⟨fun absurd => (absurd rfl).elim, suffixed same⟩
  | sourcehut =>
      have tilde {text : String} (free : '/' ∉ text.toList) : '/' ∉ ("~" ++ text).toList := by
        simpa using free
      obtain ⟨front, rest⟩ := Text.append_slash_injective (tilde free) (tilde other_free) same
      refine ⟨fun _ => ?_, rest⟩
      simpa [← String.toList_inj] using front
  | _ =>
      obtain ⟨front, rest⟩ := Text.append_slash_injective free other_free same
      exact ⟨fun _ => front, suffixed rest⟩

theorem address_injective (dotless : '.' ∉ organization.toList) (free : '/' ∉ organization.toList)
    (other_dotless : '.' ∉ another.toList) (other_free : '/' ∉ another.toList)
    (same : service.address organization repository = other.address another renamed) :
    service = other ∧ organization = another ∧ repository = renamed := by
  have behind : service.host organization ++ "/" ++ service.place organization repository =
      other.host another ++ "/" ++ other.place another renamed := by
    simpa [address_eq, ← String.toList_inj] using same
  obtain ⟨hosts, places⟩ := Text.append_slash_injective (slash_not_mem_host free)
    (slash_not_mem_host other_free) behind
  obtain ⟨rfl, own⟩ := host_injective dotless other_dotless hosts
  obtain ⟨shared, repository_eq⟩ := place_injective free other_free places
  refine ⟨rfl, ?_, repository_eq⟩
  by_cases separate : service = beanstalk
  · exact own separate
  · exact shared separate

/-- The name is that of a repository of an organisation at a service, after one of the labels that
names at the service start with. -/
structure Locates (service : Hosting) (top organization repository name : String) : Prop where
  listed : top ∈ service.domain.1
  spelled : name = top ++ "." ++ service.domain.2 ++ "." ++ organization ++ "/" ++ repository
  more : organization ≠ ""
  dotless : '.' ∉ organization.toList
  free : '/' ∉ organization.toList

theorem locates_iff {name : String} : (∃ top, service.Locates top organization repository name) ↔
    ∃ qualifier, name = qualifier ++ "/" ++ repository ∧ '/' ∉ qualifier.toList ∧
      service.Hosts organization qualifier := by
  constructor
  · rintro ⟨top, locates⟩
    refine ⟨_, locates.spelled, ?_, top, locates.listed, rfl, locates.more, locates.dotless⟩
    have labels : '/' ∉ top.toList ∧ '/' ∉ service.domain.2.toList := by
      obtain ⟨listed, -⟩ := locates
      revert top
      cases service <;> decide
    simp [labels, locates.free]
  · rintro ⟨qualifier, rfl, free, top, listed, rfl, more, dotless⟩
    refine ⟨top, listed, rfl, more, dotless, fun member => free ?_⟩
    simp [member]

end Hosting

theorem address?_eq_some_iff {name address : String} : address? name = some address ↔
    ∃ (service : Hosting) (organization repository : String),
      (∃ top, service.Locates top organization repository name) ∧
        address = service.address organization repository := by
  simp only [Hosting.locates_iff]
  constructor
  · intro addressed
    unfold address? at addressed
    split at addressed
    · rename_i slash
      obtain ⟨qualifier, repository, rfl, free⟩ :=
        Name.exists_qualifier (List.contains_iff_mem.1 slash)
      rw [Name.splitQualified_append free] at addressed
      obtain ⟨⟨service, organization⟩, found, rfl⟩ := Option.map_eq_some_iff.1 addressed
      exact ⟨service, organization, repository,
        ⟨qualifier, rfl, free, Hosting.ofQualifier?_eq_some_iff.1 found⟩, rfl⟩
    · cases addressed
  · rintro ⟨service, organization, repository, ⟨qualifier, rfl, free, hosts⟩, rfl⟩
    have slash : (qualifier ++ "/" ++ repository).toList.contains '/' = true := by simp
    rw [address?, if_pos slash, Name.splitQualified_append free]
    simp only [Hosting.ofQualifier?_eq_some_iff.2 hosts, Option.map_some]

/-- A name has an address if it is that of a repository at a service. A qualifier names an
organisation at one service at most, so the services may be tried in any order. Names that share an
address differ at most in the label that they start with. -/
theorem address?_decodes :
    (∀ name, (∃ address, address? name = some address) ↔
      ∃ (service : Hosting) (top organization repository : String),
        service.Locates top organization repository name) ∧
    (∀ (service other : Hosting) (qualifier organization another : String),
      service.organization? qualifier = some organization →
      other.organization? qualifier = some another → service = other) ∧
    (∀ (services : List Hosting) (qualifier : String), services.Perm Hosting.all →
      (services.findSome? fun service => (service.organization? qualifier).map (service, ·)) =
        Hosting.ofQualifier? qualifier) ∧
    ∀ name another address : String, address? name = some address → address? another = some address →
      ∃ (service : Hosting) (top other organization repository : String),
        service.Locates top organization repository name ∧
          service.Locates other organization repository another := by
  refine ⟨fun name => ?_, ?_, ?_, ?_⟩
  · simp only [address?_eq_some_iff]
    constructor
    · rintro ⟨address, service, organization, repository, ⟨top, locates⟩, -⟩
      exact ⟨service, top, organization, repository, locates⟩
    · rintro ⟨service, top, organization, repository, locates⟩
      exact ⟨_, service, organization, repository, ⟨top, locates⟩, rfl⟩
  · intro service other qualifier organization another named renamed
    exact (Hosting.hosts_unique (Hosting.organization?_eq_some_iff.1 named)
      (Hosting.organization?_eq_some_iff.1 renamed)).1
  · intro services qualifier permuted
    have complete (service : Hosting) : service ∈ services :=
      permuted.mem_iff.2 (Hosting.mem_all service)
    refine Option.ext fun ⟨service, organization⟩ => ?_
    rw [Hosting.findSome?_eq_some_iff complete, Hosting.ofQualifier?_eq_some_iff]
  · intro name another address addressed shared
    obtain ⟨service, organization, repository, ⟨top, locates⟩, rfl⟩ :=
      address?_eq_some_iff.1 addressed
    obtain ⟨service', organization', repository', ⟨other, locates'⟩, same⟩ :=
      address?_eq_some_iff.1 shared
    obtain ⟨rfl, rfl, rfl⟩ := Hosting.address_injective locates.dotless locates.free
      locates'.dotless locates'.free same
    exact ⟨service, top, other, organization, repository, locates, locates'⟩

theorem address?_decodes_labels :
    address? "com.github.acme/tool" = some "https://github.com/acme/tool.git" ∧
    address? "io.github.acme/tool" = some "https://github.com/acme/tool.git" ∧
    (∃ (service : Hosting) (top other organization repository : String),
      service.Locates top organization repository "com.github.acme/tool" ∧
        service.Locates other organization repository "io.github.acme/tool") ∧
    (Hosting.all.reverse.findSome? fun service =>
      (service.organization? "ht.sr.acme").map (service, ·)) =
        Hosting.ofQualifier? "ht.sr.acme" := by
  have addressed : address? "com.github.acme/tool" = some "https://github.com/acme/tool.git" := by
    decide +kernel
  have shared : address? "io.github.acme/tool" = some "https://github.com/acme/tool.git" := by
    decide +kernel
  obtain ⟨-, -, order, names⟩ := address?_decodes
  exact ⟨addressed, shared, names _ _ _ addressed shared,
    order _ _ (List.reverse_perm Hosting.all)⟩

end Git

end Archetype
