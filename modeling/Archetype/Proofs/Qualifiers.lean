import Archetype.Git.Hosting
import Archetype.Proofs.Paths

namespace Archetype

namespace Text

theorem eq_of_pieces {separator : Char} {characters first : List Char} {others : List (List Char)}
    (cons : pieces separator characters = first :: others) :
    characters = first ++ others.flatMap (separator :: ·) := by
  induction characters generalizing first others with
  | nil =>
      cases cons
      rfl
  | cons character rest ih =>
      obtain ⟨piece, later, after⟩ := List.exists_cons_of_ne_nil (pieces_ne_nil separator rest)
      unfold pieces at cons
      rw [after] at cons
      split at cons
      · rename_i here
        cases cons
        rw [List.nil_append, List.flatMap_cons, here, List.cons_append, ← ih after]
      · cases cons
        rw [List.cons_append, ← ih after]

end Text

namespace Git.Hosting

/-- The qualifier is the name of an organisation after the labels of a service, with dots between
them. -/
def Hosts (service : Hosting) (organization qualifier : String) : Prop :=
  ∃ top ∈ service.domain.1, qualifier = top ++ "." ++ service.domain.2 ++ "." ++ organization ∧
    organization ≠ "" ∧ '.' ∉ organization.toList

variable {service other : Hosting} {organization another qualifier : String}

theorem split_of_hosts (hosts : service.Hosts organization qualifier) :
    ∃ top ∈ service.domain.1,
      Text.split '.' qualifier = [top, service.domain.2, organization] := by
  obtain ⟨top, listed, rfl, -, free⟩ := hosts
  have labels : '.' ∉ top.toList ∧ '.' ∉ service.domain.2.toList := by
    revert top
    cases service <;> decide
  refine ⟨top, listed, ?_⟩
  have characters : (top ++ "." ++ service.domain.2 ++ "." ++ organization).toList =
      top.toList ++ '.' :: (service.domain.2.toList ++ '.' :: organization.toList) := by
    simp
  rw [Text.split, characters, Text.pieces_append, Text.pieces_append,
    Text.pieces_of_not_mem labels.1, Text.pieces_of_not_mem labels.2, Text.pieces_of_not_mem free]
  simp

theorem organization?_eq_some_iff :
    service.organization? qualifier = some organization ↔ service.Hosts organization qualifier := by
  constructor
  · intro named
    unfold organization? at named
    split at named
    · rename_i top middle last split
      rw [Option.ite_none_right_eq_some] at named
      simp only [Bool.and_eq_true, List.contains_iff_mem, beq_iff_eq, Bool.not_eq_true',
        String.isEmpty_eq_false_iff, Option.some.injEq] at named
      obtain ⟨⟨⟨listed, rfl⟩, more⟩, rfl⟩ := named
      have inside : last ∈ Text.split '.' qualifier := by simp [split]
      obtain ⟨piece, member, rfl⟩ := List.mem_map.1 inside
      refine ⟨top, listed, ?_, more, by simpa using Text.not_mem_of_mem_pieces member⟩
      have pieces : Text.pieces '.' qualifier.toList =
          [top.toList, service.domain.2.toList, piece] := by
        have same := congrArg (List.map String.toList) split
        simpa [Text.split, Function.comp_def] using same
      rw [← String.toList_inj, Text.eq_of_pieces pieces]
      simp
    · cases named
  · intro hosts
    obtain ⟨top, listed, split⟩ := split_of_hosts hosts
    obtain ⟨-, -, -, more, -⟩ := hosts
    simp [organization?, split, listed, more]

theorem hosts_unique (hosts : service.Hosts organization qualifier)
    (hosts_other : other.Hosts another qualifier) : service = other ∧ organization = another := by
  obtain ⟨top, -, split⟩ := split_of_hosts hosts
  obtain ⟨_, -, split_other⟩ := split_of_hosts hosts_other
  rw [split] at split_other
  simp only [List.cons.injEq, and_true] at split_other
  obtain ⟨-, label, same⟩ := split_other
  refine ⟨?_, same⟩
  clear hosts hosts_other split
  cases service <;> cases other <;> first | rfl | exact absurd label (by decide)

theorem findSome?_eq_some_iff {services : List Hosting} (complete : ∀ service, service ∈ services) :
    (services.findSome? fun service =>
        (service.organization? qualifier).map fun organization => (service, organization)) =
      some (service, organization) ↔ service.Hosts organization qualifier := by
  have hosts_of_found {service : Hosting} {organization : String}
      (found : (services.findSome? fun service =>
        (service.organization? qualifier).map fun organization => (service, organization)) =
          some (service, organization)) : service.Hosts organization qualifier := by
    obtain ⟨other, -, named⟩ := List.exists_of_findSome?_eq_some found
    obtain ⟨another, named, same⟩ := Option.map_eq_some_iff.1 named
    cases same
    exact organization?_eq_some_iff.1 named
  refine ⟨hosts_of_found, fun hosts => ?_⟩
  cases found : services.findSome? fun service =>
      (service.organization? qualifier).map fun organization => (service, organization) with
  | none =>
      have refused := List.findSome?_eq_none_iff.1 found service (complete service)
      rw [organization?_eq_some_iff.2 hosts] at refused
      cases refused
  | some answer =>
      obtain ⟨rfl, rfl⟩ := hosts_unique hosts (hosts_of_found found)
      rfl

theorem mem_all (service : Hosting) : service ∈ all := by
  cases service <;> decide

theorem ofQualifier?_eq_some_iff :
    ofQualifier? qualifier = some (service, organization) ↔ service.Hosts organization qualifier :=
  findSome?_eq_some_iff mem_all

theorem ofQualifier?_eq_none_iff : ofQualifier? qualifier = none ↔
    ∀ (service : Hosting) (organization : String), ¬ service.Hosts organization qualifier := by
  simp only [Option.eq_none_iff_forall_ne_some, Prod.forall, ne_eq, ofQualifier?_eq_some_iff]

end Git.Hosting

end Archetype
