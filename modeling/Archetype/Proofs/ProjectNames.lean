import Archetype.Proofs.DefaultTargets
import Archetype.Proofs.Rendering

namespace Archetype

namespace Table

variable {κ α : Type} [BEq κ]

theorem exists_mem_of_get? {table : Table κ α} {key : κ} {value : α}
    (found : table.get? key = some value) :
    ∃ other, (other, value) ∈ table.entries ∧ (other == key) = true := by
  obtain ⟨⟨other, held⟩, first, rfl⟩ := Option.map_eq_some_iff.1 found
  have same : (other == key) = true :=
    List.find?_some (p := fun entry : κ × α => entry.1 == key) first
  exact ⟨other, List.mem_of_find?_eq_some first, same⟩

theorem exists_mem_of_get?_ofList [EquivBEq κ] {entries : List (κ × α)} {key : κ} {value : α}
    (found : (ofList entries).get? key = some value) :
    ∃ other, (other, value) ∈ entries ∧ (other == key) = true := by
  rw [ofList, get?_insertAll, get?_empty, Option.or_none] at found
  obtain ⟨⟨other, held⟩, last, rfl⟩ := Option.map_eq_some_iff.1 found
  have same : (other == key) = true :=
    List.find?_some (p := fun entry : κ × α => entry.1 == key) last
  exact ⟨other, List.mem_reverse.1 (List.mem_of_find?_eq_some last), same⟩

end Table

namespace Replacements

open Archetype.Placeholder

def Spelled (replacements : Replacements) : Prop :=
  ∀ entry ∈ replacements.entries, ∃ name, entry.1 = spell name ∧ Free opening closing name

theorem spelled_of_names {data : Data} (names : List String)
    (free : ∀ name ∈ names, Free opening closing name ∧ Free opening closing (name ++ "/ns") ∧
      Free opening closing (name ++ "/file"))
    (listed : ∀ entry ∈ data.entries, ∃ name ∈ names, entry.1 = .text name) :
    (ofData data).Spelled := by
  intro entry member
  obtain ⟨⟨placeholder, text⟩, produced, same⟩ :=
    List.mem_map.1 (Table.mem_keys_ofList (List.mem_map_of_mem member))
  rw [← show placeholder = entry.1 from same]
  obtain ⟨⟨key, value⟩, inside, produced⟩ := List.mem_flatMap.1 produced
  obtain ⟨name, known, rfl⟩ := listed _ inside
  obtain ⟨plain, spaced, filed⟩ := free name known
  rcases mem_ofEntry_iff.1 produced with ⟨rfl, -⟩ | ⟨_, -, -, ⟨rfl, -⟩ | ⟨rfl, -⟩⟩
  · exact ⟨_, rfl, plain⟩
  · exact ⟨_, rfl, spaced⟩
  · exact ⟨_, rfl, filed⟩

section Spelled

variable {replacements : Replacements} (spelled : replacements.Spelled)

include spelled

theorem apply_spelled {pieces : List Piece} (free : ∀ piece ∈ pieces, Free opening closing piece.shown)
    (values_free : ∀ name value, .named name ∈ pieces →
      replacements.get? (spell name) = some value → Free opening closing value) :
    replacements.apply (text opening closing pieces) =
      render opening closing (fun name => replacements.get? (spell name)) pieces := by
  have apart : ∀ character ∈ opening.toList, character ∉ closing.toList := by
    simp [opening, closing]
  refine apply_pieces (by decide) (by decide) apart (fun name value found => ?_)
    (fun entry member => ?_) (fun name value found => Table.get?_eq_some_iff.1 found) free
  · obtain ⟨other, same, name_free⟩ := spelled _ (Table.get?_eq_some_iff.1 found)
    rw [← spell_injective same] at name_free
    exact ⟨name_free, fun inside => values_free name value inside found⟩
  · obtain ⟨name, same, -⟩ := spelled entry member
    exact ⟨name, same, Table.get?_eq_some_iff.2 (same ▸ member)⟩

theorem apply_placeholder {name value before after : String}
    (found : replacements.get? (spell name) = some value) (value_free : Free opening closing value)
    (before_free : Free opening closing before) (after_free : Free opening closing after) :
    replacements.apply (before ++ spell name ++ after) = before ++ value ++ after := by
  have name_free : Free opening closing name := by
    obtain ⟨other, same, free⟩ := spelled _ (Table.get?_eq_some_iff.1 found)
    rwa [spell_injective same]
  let pieces : List Piece := [.literal before, .named name, .literal after]
  have written : text opening closing pieces = before ++ spell name ++ after := by
    rw [← String.toList_inj]
    simp [pieces, text, Piece.written, between, spell, String.join_cons]
  have rendered : render opening closing (fun name => replacements.get? (spell name)) pieces =
      before ++ value ++ after := by
    rw [← String.toList_inj]
    simp [pieces, render, Piece.rendered, found, String.join_cons]
  rw [← written, ← rendered]
  refine apply_spelled spelled ?_ fun other held inside holds => ?_
  · simp only [pieces, List.forall_mem_cons, Piece.shown]
    exact ⟨before_free, name_free, after_free, List.forall_mem_nil _⟩
  · obtain rfl : other = name := by
      simp only [pieces, List.mem_cons, List.not_mem_nil, or_false, Piece.named.injEq,
        reduceCtorEq, false_or] at inside
      exact inside
    rw [found] at holds
    cases holds
    exact value_free

theorem apply_of_free {characters : String} (free : Free opening closing characters) :
    replacements.apply characters = characters := by
  have starts : ∀ entry ∈ replacements.entries, opening.toList <+: entry.1.toList := by
    intro entry member
    obtain ⟨name, same, -⟩ := spelled entry member
    rw [same, spell, String.toList_append, String.toList_append, List.append_assoc]
    exact List.prefix_append _ _
  exact apply_of_unmarked (by decide) starts fun character member => (free character member).1

end Spelled

end Replacements

namespace Project

open Archetype.Template (Descriptor)
open Archetype.Placeholder

structure Asks (options : Data) (template name directory : String) : Prop where
  template : option? options "template" = some (.text template)
  name : option? options "name" = some (.text name)
  directory : option? options "target-dir" = some (.text directory)
  nothingElse : passedOn options = ∅

def projectNames : List String :=
  ["artifact/id", "group/id", "main", "name", "scm/domain", "scm/user", "scm/repo", "top",
    "developer", "git-dir", "now/date", "now/year", "raw-name", "template", "target-dir", "user",
    "version", "template-dir", "description"]

section Derived

variable {settings : Settings} {environment : Environment} {token target template : String}
  {checkout? : Option Path} {identity : Identity} {key : Key} {value : Value}

theorem mem_names_of_ofList {α : Type} (wrap : α → Value) {entries : List (String × α)}
    (found : (Table.ofList (entries.map fun entry => (Key.text entry.1, wrap entry.2))).get? key =
      some value) :
    ∃ name ∈ entries.map Prod.fst, key.spelled = .text name := by
  obtain ⟨other, member, same⟩ := Table.exists_mem_of_get?_ofList found
  obtain ⟨⟨name, held⟩, inside, made⟩ := List.mem_map.1 member
  cases made
  exact ⟨name, List.mem_map_of_mem inside, Key.text_beq_iff.1 same⟩

theorem mem_names_of_derived
    (found : (derived settings environment token target template checkout?).get? key = some value) :
    ∃ name ∈ ["developer", "git-dir", "now/date", "now/year", "raw-name", "template", "target-dir",
      "user", "version"], key.spelled = .text name :=
  mem_names_of_ofList id found

theorem mem_names_of_identity (found : identity.toData.get? key = some value) :
    ∃ name ∈ ["artifact/id", "group/id", "main", "name", "scm/domain", "scm/user", "scm/repo",
      "top"], key.spelled = .text name :=
  mem_names_of_ofList Value.text found

theorem get?_identity_main (identity : Identity) :
    identity.toData.get? (.text "main") = some (.text identity.main) := by
  refine Table.get?_ofList_of_forall (by simp) fun entry member same => ?_
  obtain ⟨⟨name, value⟩, inside, rfl⟩ := List.mem_map.1 member
  have named : name = "main" := by simpa [Key.text] using Key.beq_text_iff.1 same
  subst named
  simpa using inside

end Derived

section Asked

variable {settings : Settings} {environment : Environment} {options : Data}
  {template token directory : String} (asks : Asks options template token directory)
  {prepared : Prepared} {place : String} {final : Descriptor} (bare : final.extras = ∅)
  {data : Data} (counts : ∀ key, data.get? key =
    (prepared.sources settings environment options token place ∅ final).value? key)

include asks

theorem unasked (key : Key) : (if IsConsumed key then none else options.get? key) = none := by
  rw [← get?_passedOn, asks.nothingElse, Table.get?_empty]

include counts

theorem get?_of_derived {key : Key} {value : Value} (elsewhere : key.spelled ≠ .text "template-dir")
    (derives : (prepared.derivedData settings environment options token).get? key = some value) :
    data.get? key = some value := by
  rw [counts]
  simp only [Sources.value?, Sources.values, Prepared.sources, unasked asks, derives,
    Table.get?_empty, elsewhere, if_false, List.findSome?_cons, id]

theorem get?_main : data.get? (.text "main") = some (.text prepared.identity.main) := by
  refine get?_of_derived asks counts (by decide) ?_
  rw [Prepared.derivedData, Table.get?_union, get?_identity_main]
  cases found : (derived settings environment token (targetOf options prepared.identity)
      prepared.template.template prepared.checkoutRoots.head?).get? (.text "main") with
  | none => rfl
  | some value =>
      obtain ⟨name, listed, same⟩ := mem_names_of_derived found
      cases same
      exact absurd listed (by decide)

theorem targetNamed_of_asks : targetNamed data = directory := by
  have derives : (prepared.derivedData settings environment options token).get?
      (.text targetEntry) = some (.text directory) := by
    rw [Prepared.derivedData, Table.get?_union, get?_derived, targetOf, asks.directory]
    rfl
  rw [targetNamed, Data.find?, get?_of_derived asks counts (by decide) derives]
  rfl

include bare

theorem mem_projectNames {key : Key} {value : Value} (found : data.get? key = some value) :
    ∃ name ∈ projectNames, key.spelled = .text name := by
  have said : ((prepared.sources settings environment options token place ∅ final).value?
      key).isSome = true := by
    rw [← counts, found]
    rfl
  obtain ⟨value, source⟩ := (Sources.value?_isSome_iff _ _).1 said
  simp only [Sources.values, Prepared.sources, unasked asks, Table.get?_empty, List.mem_cons,
    List.not_mem_nil, or_false, reduceCtorEq, false_or] at source
  rcases source with template_dir | derives | described | described
  · split at template_dir
    · exact ⟨"template-dir", by decide, ‹_›⟩
    · cases template_dir
  · rw [Prepared.derivedData, Table.get?_union] at derives
    rcases Option.or_eq_some_iff.1 derives.symm with here | ⟨-, here⟩
    · obtain ⟨name, listed, same⟩ := mem_names_of_derived here
      exact ⟨name, List.mem_of_mem_drop (i := 8) (List.mem_of_mem_take (i := 9) listed), same⟩
    · obtain ⟨name, listed, same⟩ := mem_names_of_identity here
      exact ⟨name, List.mem_of_mem_take (i := 8) listed, same⟩
  · unfold Hook.descriptorValue? at described
    rw [bare] at described
    split at described
    · split at described
      · exact ⟨"description", by decide, ‹_›⟩
      · cases described
    · cases described
  · split at described
    · exact ⟨"description", by decide, ‹_›⟩
    · cases described

theorem mem_projectNames_of_entry {key : Key} {value : Value} (member : (key, value) ∈ data.entries) :
    ∃ name ∈ projectNames, key = .text name := by
  obtain ⟨name, listed, same⟩ := mem_projectNames asks bare counts (Table.get?_of_mem member)
  exact ⟨name, listed, congrArg Key.mk same⟩

theorem spelled_ofData : (Replacements.ofData data).Spelled :=
  Replacements.spelled_of_names projectNames (by decide) fun _ member =>
    mem_projectNames_of_entry asks bare counts member

theorem get?_mainFile : (Replacements.ofData data).get? (spell "main/file") =
    some (Name.fileForm prepared.identity.main) := by
  have apart : ∀ name ∈ projectNames, name ≠ "main/file" ∧ name ++ "/ns" ≠ "main/file" ∧
      (name ++ "/file" = "main/file" → name = "main") := by decide
  have unqualified : Name.isQualified (Key.text "main").toText = false := by decide
  have found := get?_main asks counts
  refine Table.get?_ofList_of_forall ?_ ?_
  · obtain ⟨key, inside, same⟩ := Table.exists_mem_of_get? found
    obtain ⟨name, -, rfl⟩ := mem_projectNames_of_entry asks bare counts inside
    obtain rfl : name = "main" := by simpa [Key.text] using Key.beq_text_iff.1 same
    exact List.mem_flatMap.2 ⟨_, inside,
      mem_ofEntry_iff.2 (Or.inr ⟨_, rfl, unqualified, Or.inr ⟨rfl, rfl⟩⟩)⟩
  · rintro ⟨placeholder, text⟩ produced spelled
    obtain rfl : placeholder = spell "main/file" := by simpa using spelled
    obtain ⟨⟨key, value⟩, inside, produced⟩ := List.mem_flatMap.1 produced
    obtain ⟨name, listed, rfl⟩ := mem_projectNames_of_entry asks bare counts inside
    obtain ⟨plain, spaced, filed⟩ := apart name listed
    rcases mem_ofEntry_iff.1 produced with
      ⟨same, -⟩ | ⟨characters, rfl, -, ⟨same, -⟩ | ⟨same, rfl⟩⟩
    · exact absurd (spell_injective same).symm plain
    · exact absurd (spell_injective same).symm spaced
    · obtain rfl := filed (spell_injective same).symm
      have held := Table.get?_of_mem inside
      rw [found] at held
      cases held
      rfl

end Asked

end Project

end Archetype
