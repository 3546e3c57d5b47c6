import Archetype.Proofs.Addresses
import Archetype.Proofs.Identities
import Archetype.Proofs.ProjectNames
import Archetype.Template.Bundled

namespace Archetype

namespace Git.Hosting

variable {service : Hosting} {organization qualifier repository : String}

theorem Hosts.subset (hosts : service.Hosts organization qualifier) :
    organization.toList ⊆ qualifier.toList := by
  obtain ⟨top, -, rfl, -⟩ := hosts
  intro character member
  simp [member]

theorem free_host (free : Placeholder.Free Placeholder.opening Placeholder.closing organization) :
    Placeholder.Free Placeholder.opening Placeholder.closing (service.host organization) := by
  cases service with
  | beanstalk =>
      have ending_free : Placeholder.Free Placeholder.opening Placeholder.closing
          ".git.beanstalkapp.com" := by decide
      intro character member
      rw [host, String.toList_append, List.mem_append] at member
      rcases member with inside | ending
      · exact free character inside
      · exact ending_free character ending
  | _ =>
      rw [host]
      decide

theorem place_eq_iff (free : '/' ∉ organization.toList) (repository_free : '/' ∉ repository.toList) :
    service.place organization repository = organization ++ "/" ++ repository ∨
        service.place organization repository = organization ++ "/" ++ (repository ++ ".git") ↔
      service ≠ beanstalk ∧ service ≠ sourcehut := by
  cases service with
  | beanstalk =>
      have apart (rest : String) : beanstalk.place organization repository ≠
          organization ++ "/" ++ rest := by
        intro same
        have slash : '/' ∈ (repository ++ ".git").toList := by
          rw [show repository ++ ".git" = organization ++ "/" ++ rest from same]
          simp
        simp [repository_free] at slash
      simp [apart]
  | sourcehut =>
      have tilde_free : '/' ∉ ("~" ++ organization).toList := by simpa using free
      have apart (rest : String) : sourcehut.place organization repository ≠
          organization ++ "/" ++ rest := by
        intro same
        have longer := (Text.append_slash_injective tilde_free free same).1
        simpa using congrArg String.length longer
      simp [apart]
  | _ => simp [place]

end Git.Hosting

namespace Project

open Archetype.Placeholder

theorem dropAfterSlash_of_oneLine {characters : List Char} (oneLine : '\n' ∉ characters) :
    dropAfterSlash characters = (Text.cutFirst '/' characters).1 := by
  have line : lastLine characters = ([], characters) := by
    have reversed : '\n' ∉ characters.reverse := by simpa using oneLine
    simp [lastLine, Text.cutLast, Text.cutFirst_of_not_mem reversed]
  unfold dropAfterSlash
  split
  · rename_i rest reversed
    exact absurd (List.mem_reverse.1 (reversed ▸ List.mem_cons_self)) oneLine
  · rw [line]
    rfl

theorem hostOf_address {host place : String} (free : '/' ∉ host.toList)
    (oneLine : '\n' ∉ host.toList ∧ '\n' ∉ place.toList) :
    hostOf (some ("https://" ++ (host ++ "/" ++ place))) = host := by
  have characters : ("https://" ++ (host ++ "/" ++ place)).toList =
      "https://".toList ++ (host.toList ++ '/' :: place.toList) := by
    simp
  have more : ("https://" ++ (host ++ "/" ++ place)).isEmpty = false := by
    rw [← Bool.not_eq_true, String.isEmpty_iff]
    intro empty
    simpa using congrArg String.toList empty
  have starts : "https://".toList.isPrefixOf
      ("https://".toList ++ (host.toList ++ '/' :: place.toList)) = true :=
    List.isPrefixOf_iff_prefix.2 (List.prefix_append _ _)
  have behind : '\n' ∉ host.toList ++ '/' :: place.toList := by simp [oneLine]
  simp only [hostOf, more, characters, starts, Bool.false_eq_true, if_false, if_true,
    List.drop_left, dropAfterSlash_of_oneLine behind, Text.cutFirst_append free,
    String.ofList_toList]

theorem userOf_of_dotless {top : String} (dotless : '.' ∉ top.toList) : userOf top = top := by
  unfold userOf
  split
  · rename_i characters
    exact absurd (by simp [characters]) dotless
  · rename_i characters
    exact absurd (by simp [characters]) dotless
  · rfl

def linkPlaceholders : String :=
  "https://" ++ spell "scm/domain" ++ "/" ++ spell "scm/user" ++ "/" ++ spell "scm/repo"

theorem infix_ofLines {lines : List String} {line : String} (member : line ∈ lines) :
    line.toList <:+: (Template.Bundled.ofLines lines).toList := by
  obtain ⟨before, after, rfl⟩ := List.append_of_mem member
  rw [Template.Bundled.toList_ofLines, List.flatMap_append, List.flatMap_cons, List.append_assoc]
  exact (List.prefix_append _ _).isInfix.trans (List.suffix_append _ _).isInfix

theorem linkPlaceholders_infix : linkPlaceholders.toList <:+: Template.Bundled.metadata.toList := by
  have line : ("Source = \"" ++ linkPlaceholders ++ "\"").toList <:+:
      Template.Bundled.metadata.toList := infix_ofLines (by decide +kernel)
  refine List.IsInfix.trans ⟨"Source = \"".toList, "\"".toList, ?_⟩ line
  simp

namespace Identity

def sourceLink (identity : Identity) : String :=
  "https://" ++ identity.host ++ "/" ++ identity.user ++ "/" ++ identity.repository

def Agrees (link address : String) : Prop :=
  address = link ∨ address = link ++ ".git"

theorem entries_toData (identity : Identity) : identity.toData.entries =
    [("artifact/id", identity.artifact), ("group/id", identity.group), ("main", identity.main),
      ("name", identity.name), ("scm/domain", identity.host), ("scm/user", identity.user),
      ("scm/repo", identity.repository), ("top", identity.top)].map
        fun entry => (Key.text entry.1, .text entry.2) := rfl

theorem mem_projectNames_of_toData {identity : Identity} {entry : Key × Value}
    (member : entry ∈ identity.toData.entries) : ∃ name ∈ projectNames, entry.1 = .text name := by
  obtain ⟨name, listed, spelled⟩ := mem_names_of_identity (Table.get?_of_mem member)
  exact ⟨name, List.mem_of_mem_take (i := 8) listed, congrArg Key.mk spelled⟩

theorem get?_toData {identity : Identity} {name value : String}
    (member : (Key.text name, Value.text value) ∈ identity.toData.entries)
    (apart : ∀ other ∈ projectNames, name ≠ other ++ "/ns" ∧ name ≠ other ++ "/file") :
    (Replacements.ofData identity.toData).get? (spell name) = some value := by
  have unshared : identity.toData.Unshared (.text name) := by
    refine Data.unshared_of_texts (fun key inside => ?_) (List.mem_map_of_mem member)
      fun entry inside _ _ => ?_
    · obtain ⟨entry, listed, rfl⟩ := List.mem_map.1 inside
      obtain ⟨other, -, same⟩ := mem_projectNames_of_toData listed
      exact ⟨other, congrArg Key.spelled same⟩
    · obtain ⟨other, listed, same⟩ := mem_projectNames_of_toData inside
      rw [same]
      exact apart other listed
  have spelled : (Key.text name).toText = name := rfl
  have written : valueText (.text value) = value := rfl
  have found := Replacements.get?_ofData member unshared
  rwa [spelled, written] at found

theorem apply_linkPlaceholders {identity : Identity} (host : Free opening closing identity.host)
    (user : Free opening closing identity.user)
    (repository : Free opening closing identity.repository) :
    (Replacements.ofData identity.toData).apply linkPlaceholders = identity.sourceLink := by
  have spelled : (Replacements.ofData identity.toData).Spelled :=
    Replacements.spelled_of_names projectNames (by decide) fun _ member =>
      mem_projectNames_of_toData member
  have found_host : (Replacements.ofData identity.toData).get? (spell "scm/domain") =
      some identity.host := get?_toData (by simp [entries_toData]) (by decide)
  have found_user : (Replacements.ofData identity.toData).get? (spell "scm/user") =
      some identity.user := get?_toData (by simp [entries_toData]) (by decide)
  have found_repository : (Replacements.ofData identity.toData).get? (spell "scm/repo") =
      some identity.repository := get?_toData (by simp [entries_toData]) (by decide)
  let pieces : List Piece := [.literal "https://", .named "scm/domain", .literal "/",
    .named "scm/user", .literal "/", .named "scm/repo"]
  have written : text opening closing pieces = linkPlaceholders := by
    rw [← String.toList_inj]
    simp [pieces, text, Piece.written, between, spell, String.join_cons, linkPlaceholders]
  have rendered : render opening closing
      (fun name => (Replacements.ofData identity.toData).get? (spell name)) pieces =
        identity.sourceLink := by
    rw [← String.toList_inj]
    simp [pieces, render, Piece.rendered, found_host, found_user, found_repository,
      String.join_cons, sourceLink]
  rw [← written, ← rendered]
  refine Replacements.apply_spelled spelled (by decide) fun name value inside found => ?_
  simp only [pieces, List.mem_cons, List.not_mem_nil, or_false, Piece.named.injEq,
    reduceCtorEq, false_or] at inside
  rcases inside with rfl | rfl | rfl
  · rw [found_host] at found
    cases found
    exact host
  · rw [found_user] at found
    cases found
    exact user
  · rw [found_repository] at found
    cases found
    exact repository

section Hosted

variable (groupPrefix : String) {token qualifier name organization : String} {service : Git.Hosting}
  (denotes : Denotes token qualifier name) (hosts : service.Hosts organization qualifier)

include hosts

theorem user_ofSegments (addressOf : String → Option String) :
    (ofSegments groupPrefix addressOf qualifier name).user = organization := by
  have dotless : '.' ∉ organization.toList := by
    obtain ⟨-, -, -, -, dotless⟩ := hosts
    exact dotless
  simp only [ofSegments, Git.Hosting.ofQualifier?_eq_some_iff.2 hosts, userOf_of_dotless dotless]

include denotes

theorem address?_of_denotes :
    Git.address? (qualifier ++ "/" ++ name) = some (service.address organization name) :=
  Git.address?_eq_some_iff.2 ⟨service, organization, name, Git.Hosting.locates_iff.2
    ⟨qualifier, rfl, denotes.qualifies.slash_not_mem, hosts⟩, rfl⟩

theorem host_ofSegments :
    (ofSegments groupPrefix Git.address? qualifier name).host = service.host organization := by
  have free : '/' ∉ organization.toList := fun member =>
    denotes.qualifies.slash_not_mem (hosts.subset member)
  have oneLine {text : String} (proper : ProperSegment text) : '\n' ∉ text.toList := fun member =>
    absurd (proper.noBlank _ member) (by decide)
  have organization_oneLine : '\n' ∉ organization.toList := fun member =>
    oneLine denotes.qualifies (hosts.subset member)
  have lines : '\n' ∉ (service.host organization).toList ∧
      '\n' ∉ (service.place organization name).toList := by
    have name_oneLine := oneLine denotes.names
    cases service <;> simp [Git.Hosting.host, Git.Hosting.place, organization_oneLine, name_oneLine]
  change hostOf (Git.address? (qualifier ++ "/" ++ name)) = _
  rw [address?_of_denotes denotes hosts, Git.Hosting.address_eq,
    hostOf_address (Git.Hosting.slash_not_mem_host free) lines]

/-- The coordinates of a name of an organisation at a service are the host at which its repositories
are, the organisation and the name itself. The link that is made of them is the address of the
repository, except at the two services that place repositories otherwise. -/
theorem resolve_sourceLink : ∃ identity,
    resolve groupPrefix Git.address? token = .ok identity ∧
    identity.host = service.host organization ∧ identity.user = organization ∧
    identity.repository = name ∧
    Git.address? identity.name = some (service.address organization name) ∧
    (Agrees identity.sourceLink (service.address organization name) ↔
      service ≠ .beanstalk ∧ service ≠ .sourcehut) ∧
    (Free opening closing qualifier → Free opening closing name →
      (Replacements.ofData identity.toData).apply linkPlaceholders = identity.sourceLink) := by
  have host := host_ofSegments groupPrefix denotes hosts
  have user : (ofSegments groupPrefix Git.address? qualifier name).user = organization :=
    user_ofSegments groupPrefix hosts _
  have free : '/' ∉ organization.toList := fun member =>
    denotes.qualifies.slash_not_mem (hosts.subset member)
  refine ⟨_, resolve_of_denotes groupPrefix Git.address? denotes, host, user, rfl,
    address?_of_denotes denotes hosts, ?_, fun qualifier_free name_free => ?_⟩
  · rw [← Git.Hosting.place_eq_iff free denotes.names.slash_not_mem, Agrees, sourceLink, host, user,
      Git.Hosting.address_eq]
    simp [← String.toList_inj, ofSegments]
  · have user_free : Free opening closing organization := fun character member =>
      qualifier_free character (hosts.subset member)
    refine apply_linkPlaceholders ?_ (user ▸ user_free) name_free
    rw [host]
    exact Git.Hosting.free_host user_free

end Hosted

theorem resolve_sourceLink_tool : ∃ identity,
    resolve defaultGroupPrefix Git.address? "com.gitlab.acme/tool.git" = .ok identity ∧
    Agrees identity.sourceLink "https://gitlab.com/acme/tool.git.git" ∧
    linkPlaceholders.toList <:+: Template.Bundled.metadata.toList ∧
    (Replacements.ofData identity.toData).apply linkPlaceholders = identity.sourceLink := by
  have denotes : Denotes "com.gitlab.acme/tool.git" "com.gitlab.acme" "tool.git" :=
    ⟨isSegment_iff.1 (by decide), isSegment_iff.1 (by decide), Or.inl (by decide)⟩
  have hosts : Git.Hosting.gitlab.Hosts "acme" "com.gitlab.acme" :=
    ⟨"com", by decide, by decide, by decide, by decide⟩
  obtain ⟨identity, resolves, -, -, -, -, agrees, applies⟩ :=
    resolve_sourceLink defaultGroupPrefix denotes hosts
  exact ⟨identity, resolves, agrees.2 (by decide), linkPlaceholders_infix,
    applies (by decide) (by decide)⟩

/-- Where a service marks organisations or gives them hosts of their own, the link leads elsewhere. -/
theorem sourceLink_elsewhere :
    let identity := ofSegments defaultGroupPrefix Git.address? "ht.sr.acme" "tool"
    let other := ofSegments defaultGroupPrefix Git.address? "io.beanstalkapp.acme" "tool"
    resolve defaultGroupPrefix Git.address? "ht.sr.acme/tool" = .ok identity ∧
    identity.sourceLink = "https://git.sr.ht/acme/tool" ∧
    Git.address? identity.name = some "https://git.sr.ht/~acme/tool" ∧
    resolve defaultGroupPrefix Git.address? "io.beanstalkapp.acme/tool" = .ok other ∧
    other.sourceLink = "https://acme.git.beanstalkapp.com/acme/tool" ∧
    Git.address? other.name = some "https://acme.git.beanstalkapp.com/tool.git" := by
  decide +kernel

end Identity

end Project

end Archetype
