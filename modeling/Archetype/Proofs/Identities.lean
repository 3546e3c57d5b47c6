import Archetype.Proofs.DefaultTargets
import Archetype.Proofs.Qualifiers

namespace Archetype

theorem Text.strip_of_free {text : String}
    (free : ∀ character ∈ text.toList, isBlank character = false) : strip text = text := by
  rw [strip, trim_of_ends (fun character first => free character (List.mem_of_mem_head? first))
    (fun character last => free character (List.mem_of_mem_getLast? last)), String.ofList_toList]

namespace Project

def ProperSegment (text : String) : Prop :=
  text ≠ "" ∧ ∀ character ∈ text.toList, Text.isBlank character = false ∧ 32 ≤ character.toNat ∧
    character ∉ ['/', '\\', ':', '*', '?', '"', '<', '>', '|']

/-- The token, without the blanks around it, is a qualifier and a name, or a name that is its own
qualifier. -/
structure Denotes (token qualifier name : String) : Prop where
  qualifies : ProperSegment qualifier
  names : ProperSegment name
  spelled : Text.strip token = qualifier ++ "/" ++ name ∨
    Text.strip token = name ∧ qualifier = name

theorem isSegment_iff {text : String} : isSegment text = true ↔ ProperSegment text := by
  simp [isSegment, isSegmentChar, ProperSegment, and_assoc]

namespace ProperSegment

variable {text : String} (proper : ProperSegment text)

include proper

theorem slash_not_mem : '/' ∉ text.toList :=
  slash_not_mem_segment (isSegment_iff.2 proper)

theorem noBlank : ∀ character ∈ text.toList, Text.isBlank character = false :=
  fun character member => (proper.2 character member).1

end ProperSegment

section Denotes

variable {token qualifier name : String} (denotes : Denotes token qualifier name)

include denotes

theorem splitQualified_of_denotes :
    Name.splitQualified (Text.strip token) = (qualifier, name) := by
  rcases denotes.spelled with spelled | ⟨spelled, rfl⟩
  · rw [spelled, Name.splitQualified_append denotes.qualifies.slash_not_mem]
  · rw [Name.splitQualified, spelled, Text.cutFirst_of_not_mem denotes.names.slash_not_mem]

theorem denotes_name : Denotes (qualifier ++ "/" ++ name) qualifier name := by
  refine ⟨denotes.qualifies, denotes.names, Or.inl (Text.strip_of_free fun character member => ?_)⟩
  simp only [String.toList_append, List.mem_append] at member
  rcases member with (inside | slash) | inside
  · exact denotes.qualifies.noBlank character inside
  · obtain rfl : character = '/' := by simpa using slash
    decide
  · exact denotes.names.noBlank character inside

end Denotes

theorem exists_denotes {token : String}
    (qualifies : isSegment (Name.splitQualified (Text.strip token)).1 = true)
    (names : isSegment (Name.splitQualified (Text.strip token)).2 = true) :
    ∃ qualifier name, Denotes token qualifier name := by
  refine ⟨_, _, isSegment_iff.1 qualifies, isSegment_iff.1 names, ?_⟩
  unfold Name.splitQualified
  split
  · rename_i before after cut
    obtain ⟨-, characters⟩ := Text.cutFirst_eq_some_iff.1 cut
    refine Or.inl ?_
    rw [← String.toList_inj, characters]
    simp
  · exact Or.inr ⟨rfl, rfl⟩

namespace Identity

variable (groupPrefix : String) (addressOf : String → Option String) {token qualifier name : String}

theorem resolve_of_denotes (denotes : Denotes token qualifier name) :
    resolve groupPrefix addressOf token = .ok (ofSegments groupPrefix addressOf qualifier name) := by
  have more : Text.strip token ≠ "" := by
    rcases denotes.spelled with spelled | ⟨spelled, -⟩ <;> rw [spelled]
    · intro empty
      have none := congrArg String.toList empty
      simp at none
    · exact denotes.names.1
  have accepted : [qualifier, name].find? (fun segment => !isSegment segment) = none := by
    simp [isSegment_iff.2 denotes.qualifies, isSegment_iff.2 denotes.names]
  simp only [resolve, String.isEmpty_iff, more, if_false, splitQualified_of_denotes denotes, accepted]

theorem resolve_of_not_denotes (other : ∀ qualifier name, ¬ Denotes token qualifier name) :
    ∃ fault, resolve groupPrefix addressOf token = .error fault ∧ fault.cause.stage = .identity := by
  unfold resolve
  dsimp only
  split
  · exact ⟨_, rfl, rfl⟩
  · split
    · exact ⟨_, rfl, rfl⟩
    · rename_i accepted
      have kept := List.find?_eq_none.1 accepted
      obtain ⟨qualifier, name, denotes⟩ := exists_denotes (by simpa using kept _ List.mem_cons_self)
        (by simpa using kept _ (List.mem_cons_of_mem _ List.mem_cons_self))
      exact absurd denotes (other qualifier name)

/-- A token names a project if it is, without blanks around it, a proper qualifier and a proper name
with a slash between them, or a proper name alone, which is then its own qualifier. Otherwise it is
refused. The identity has the name that is written with the qualifier, the group of the qualifier, and
the organisation that the qualifier names at a service at its top; its own name is a token of it. -/
theorem resolve_canonical (token : String) :
    (∀ qualifier name, Denotes token qualifier name →
      ∃ identity, resolve groupPrefix addressOf token = .ok identity ∧
        identity.name = qualifier ++ "/" ++ name ∧
        identity.artifact = name ∧ identity.main = name ∧ identity.repository = name ∧
        identity.group = (if '.' ∈ qualifier.toList then qualifier else groupPrefix ++ qualifier) ∧
        (∀ (service : Git.Hosting) (organization : String),
          service.Hosts organization qualifier → identity.top = organization) ∧
        ((∀ (service : Git.Hosting) (organization : String),
          ¬ service.Hosts organization qualifier) → identity.top = qualifier) ∧
        resolve groupPrefix addressOf identity.name = .ok identity) ∧
    ((∀ qualifier name, ¬ Denotes token qualifier name) →
      ∃ fault, resolve groupPrefix addressOf token = .error fault ∧
        fault.cause.stage = .identity) := by
  refine ⟨fun qualifier name denotes => ?_, resolve_of_not_denotes groupPrefix addressOf⟩
  refine ⟨_, resolve_of_denotes groupPrefix addressOf denotes, rfl, rfl, rfl, rfl, ?_,
    fun service organization hosts => ?_, fun nowhere => ?_,
    resolve_of_denotes groupPrefix addressOf (denotes_name denotes)⟩
  · simp [ofSegments, groupOf]
  · simp only [ofSegments, Git.Hosting.ofQualifier?_eq_some_iff.2 hosts]
  · simp only [ofSegments, Git.Hosting.ofQualifier?_eq_none_iff.2 nowhere]

theorem resolve_canonical_hosted :
    let resolve := Identity.resolve "net.clojars." fun _ => none
    (∃ identity, resolve " io.github.acme/tool\n" = .ok identity ∧
      identity.name = "io.github.acme/tool" ∧ identity.top = "acme" ∧
      resolve identity.name = .ok identity) ∧
    ∃ fault, resolve "a/b/c" = .error fault ∧ fault.cause.stage = .identity := by
  have denotes : Denotes " io.github.acme/tool\n" "io.github.acme" "tool" :=
    ⟨isSegment_iff.1 (by decide), isSegment_iff.1 (by decide), Or.inl (by decide)⟩
  have hosts : Git.Hosting.github.Hosts "acme" "io.github.acme" :=
    ⟨"io", by decide, by decide, by decide, by decide⟩
  have other (qualifier name : String) : ¬ Denotes "a/b/c" qualifier name := by
    intro denotes
    have split : ("a", "b/c") = (qualifier, name) :=
      (show _ = Name.splitQualified (Text.strip "a/b/c") by decide).trans
        (splitQualified_of_denotes denotes)
    cases split
    exact absurd denotes.names.slash_not_mem (by decide)
  obtain ⟨identity, resolves, named, -, -, -, -, top, -, again⟩ :=
    (resolve_canonical "net.clojars." (fun _ => none) " io.github.acme/tool\n").1 _ _ denotes
  exact ⟨⟨identity, resolves, named, top _ _ hosts, again⟩,
    (resolve_canonical "net.clojars." (fun _ => none) "a/b/c").2 other⟩

end Identity

end Project

end Archetype
