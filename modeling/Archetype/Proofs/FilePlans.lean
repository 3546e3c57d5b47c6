import Archetype.Proofs.UnlistedFiles

namespace Archetype.Copier

open Archetype.Disk Archetype.Template.Entry

def picks (copier : Copier) (disk : Disk) (source : Path) : List (Place × Content) :=
  (listing disk source).filterMap fun place => (copier.takes disk source place).map (place, ·)

theorem picks_ordered (copier : Copier) (disk : Disk) (source : Path) :
    (copier.picks disk source).Pairwise fun file other => Precedes file.1 other.1 := by
  refine List.pairwise_filterMap.2 ((listing_ordered disk source).imp ?_)
  intro place other precedes file file_taken later later_taken
  obtain ⟨_, -, rfl⟩ := Option.map_eq_some_iff.1 file_taken
  obtain ⟨_, -, rfl⟩ := Option.map_eq_some_iff.1 later_taken
  exact precedes

theorem nodup_of_ordered {files : List (Place × Content)}
    (ordered : files.Pairwise fun file other => Precedes file.1 other.1) : files.Nodup := by
  refine List.nodup_iff_pairwise_ne.2 (ordered.imp fun {file other} precedes same => ?_)
  rw [same] at precedes
  exact Std.Irrefl.irrefl _ precedes

section Picks

variable {disk : Disk} (sound : disk.Sound) {source : Path}
  (directory : disk.isDirectory source = true) {copier : Copier}

include sound directory

theorem mem_picks_iff {place : Place} {content : Content} :
    (place, content) ∈ copier.picks disk source ↔
      copier.takes disk source place = some content := by
  rw [picks, List.mem_filterMap]
  constructor
  · rintro ⟨other, -, taken⟩
    obtain ⟨held, takes, same⟩ := Option.map_eq_some_iff.1 taken
    cases same
    exact takes
  · intro takes
    exact ⟨place, mem_listing_of_takes sound directory takes, by rw [takes, Option.map_some]⟩

theorem picks_eq {files : List (Place × Content)}
    (ordered : files.Pairwise fun file other => Precedes file.1 other.1)
    (takes : ∀ place content,
      copier.takes disk source place = some content ↔ (place, content) ∈ files) :
    copier.picks disk source = files := by
  have picked := copier.picks_ordered disk source
  have same : ∀ file, file ∈ copier.picks disk source ↔ file ∈ files := fun file =>
    (mem_picks_iff sound directory).trans (takes file.1 file.2)
  refine List.Perm.eq_of_pairwise (fun file other _ _ first later => ?_) picked ordered
    ((List.perm_ext_iff_of_nodup (nodup_of_ordered picked) (nodup_of_ordered ordered)).2 same)
  rw [Std.Antisymm.antisymm _ _ first later] at first
  exact absurd first (Std.Irrefl.irrefl _)

theorem treePlan_eq_picks (target : Path) (replacements? : Option Replacements) :
    copier.treePlan disk target replacements? source = (copier.picks disk source).map fun file =>
      copier.write target (effective replacements?) source file.1 file.2 := by
  rw [treePlan_eq sound directory, picks, List.map_filterMap]
  refine List.filterMap_congr fun place _ => ?_
  rw [Option.map_map]
  rfl

theorem treePlan_of_takes {files : List (Place × Content)}
    (ordered : files.Pairwise fun file other => Precedes file.1 other.1)
    (takes : ∀ place content,
      copier.takes disk source place = some content ↔ (place, content) ∈ files)
    (target : Path) (replacements? : Option Replacements) :
    copier.treePlan disk target replacements? source = files.map fun file =>
      copier.write target (effective replacements?) source file.1 file.2 := by
  rw [treePlan_eq_picks sound directory, picks_eq sound directory ordered takes]

theorem treePlan_of_lone {place : Place} {content : Content} (clean : hasNull place = false)
    (lone : ∀ other held, disk.contentAt (disk.placeOf source ++ other) = some held ↔
      other = place ∧ held = content) (target : Path) (replacements? : Option Replacements) :
    copier.treePlan disk target replacements? source =
      if copier.isIgnored place then []
      else [copier.write target (effective replacements?) source place content] := by
  have taken : ∀ other held, copier.takes disk source other = some held ↔
      copier.isIgnored place = false ∧ other = place ∧ held = content := by
    intro other held
    rw [takes_eq_some_iff, ← contentAt_eq_some_iff, lone]
    constructor
    · rintro ⟨kept, -, rfl, rfl⟩
      exact ⟨kept, rfl, rfl⟩
    · rintro ⟨kept, rfl, rfl⟩
      exact ⟨kept, clean, rfl, rfl⟩
  cases ignored : copier.isIgnored place with
  | true => exact treePlan_of_takes sound directory .nil (by simp [taken, ignored]) target _
  | false =>
      exact treePlan_of_takes sound directory (List.pairwise_singleton _ (place, content))
        (by simp [taken, ignored]) target _

end Picks

end Archetype.Copier

namespace Archetype.Template.Entry

open Archetype.Action Archetype.Disk Archetype.Copier

structure RenamesOne (entry : Entry) (disk : Disk) (source : Path) (replacements : Replacements)
    (file pattern : String) (content : Content) : Prop where
  all : entry.only = false
  lists : entry.files.entries = [(file, pattern)]
  target : Path.Inner (entry.relativeTarget replacements)
  target_clean : hasNull (Path.segmentsOf (entry.relativeTarget replacements)) = false
  listed : Names file
  renamed : Names (replacements.apply pattern)
  apart : ¬ Below (Path.segmentsOf file) (Path.segmentsOf (replacements.apply pattern))
  lone : ∀ place other, disk.contentAt (disk.placeOf source ++ place) = some other ↔
    place = Path.segmentsOf file ∧ other = content

section RenamesOne

variable {entry : Entry} {copier : Copier} {disk : Disk} {source : Path}
  {replacements : Replacements} {file pattern : String} {content : Content}
  (renames : entry.RenamesOne disk source replacements file pattern content)

include renames

theorem RenamesOne.staysBelow : entry.StaysBelow replacements := by
  refine ⟨renames.target, ?_, ?_⟩ <;> rw [renames.lists]
  · exact List.forall_mem_singleton.2 renames.listed.inner
  · exact List.forall_mem_singleton.2 renames.renamed.inner

theorem RenamesOne.moves_eq : entry.moves replacements =
    [(Path.segmentsOf file, Path.segmentsOf (replacements.apply pattern))] := by
  rw [moves, renames.lists]
  rfl

theorem RenamesOne.eq_of_staged {place : Place}
    (staged : entry.staged copier disk source place ≠ none) : place = Path.segmentsOf file := by
  obtain ⟨held, takes⟩ := Option.ne_none_iff_exists'.1 staged
  have file := (takes_eq_some_iff.1 (takes_of_staged takes)).2.2
  rw [← contentAt_eq_some_iff] at file
  exact ((renames.lone _ _).1 file).1

theorem RenamesOne.orderly : Orderly (entry.moves replacements) (entry.staged copier disk source)
    (entry.ways copier disk source) := by
  rw [renames.moves_eq]
  refine ⟨List.pairwise_singleton _ _, List.pairwise_singleton _ _, ?_, ?_, ?_⟩ <;>
    refine List.forall_mem_singleton.2 ?_
  · refine ⟨?_, fun front below => ?_⟩
    · rintro ⟨other, staged, below⟩
      exact below.2 (renames.eq_of_staged staged).symm
    · by_contra staged
      exact below.2 (renames.eq_of_staged staged)
  · rintro ⟨other, staged, below⟩
    exact renames.apart (renames.eq_of_staged staged ▸ below)
  · intro front below staged
    exact ⟨_, List.mem_singleton_self _, (renames.eq_of_staged staged).symm⟩

theorem RenamesOne.moved_eq_some_iff {place : Place} {other : Content} :
    moved (filesOf disk source) (entry.staged copier disk source) (entry.moves replacements) place =
        some other ↔
      place = Path.segmentsOf (replacements.apply pattern) ∧ other = content := by
  have held : filesOf disk source (Path.segmentsOf file) = some content :=
    (renames.lone _ _).2 ⟨rfl, rfl⟩
  rw [renames.moves_eq, moved_cons, held]
  change Function.update (Function.update (entry.staged copier disk source)
    (Path.segmentsOf file) none) (Path.segmentsOf (replacements.apply pattern)) (some content)
      place = some other ↔ _
  by_cases new : place = Path.segmentsOf (replacements.apply pattern)
  · rw [new, Function.update_self]
    simp [eq_comm]
  · rw [Function.update_of_ne new]
    refine iff_of_false (fun kept => ?_) fun both => new both.1
    by_cases old : place = Path.segmentsOf file
    · rw [old, Function.update_self] at kept
      cases kept
    · rw [Function.update_of_ne old] at kept
      exact old (renames.eq_of_staged (by rw [kept]; exact nofun))

end RenamesOne

section Staged

variable {entry : Entry} {copier : Copier} {world : World} (sound : world.disk.Sound)
  {template target : Path} (template_written : template.IsWritten)
  (separate : world.disk.Separate template target) {replacements : Replacements}
  {file pattern : String} {content : Content} (source_inner : Path.Inner entry.source)
  (directory : world.disk.isDirectory (template / entry.source) = true)
  (renames : entry.RenamesOne world.disk (template / entry.source) replacements file pattern content)
  {changed : Disk}
  (made : world.disk.makeDirectory (.fromRoot (stagingPlace world.disk)) = .ok changed)

include sound template_written separate source_inner directory renames made

theorem RenamesOne.exists_staged (copier : Copier) :
    ∃ staged, entry.Stages copier (template / entry.source)
        (stagingPlace world.disk ++ Path.segmentsOf (entry.relativeTarget replacements)) replacements
        changed staged ∧
      staged.Sound ∧ ∀ rest other,
        staged.contentAt (stagingPlace world.disk ++ rest) = some other ↔
          rest = Path.segmentsOf (entry.relativeTarget replacements) ++
            Path.segmentsOf (replacements.apply pattern) ∧ other = content := by
  have stays := renames.staysBelow
  have named : ∀ name ∈ Path.segmentsOf (entry.relativeTarget replacements), Path.IsName name :=
    fun name member => Path.isName_of_inner renames.target member
  have all_named : ∀ name ∈ stagingPlace world.disk ++
      Path.segmentsOf (entry.relativeTarget replacements), Path.IsName name := fun _ member =>
    isName_of_mem_staging_append sound named member
  have file_there : world.disk.isFile (template / entry.source / file) = true :=
    (isFile_div_iff sound directory renames.listed.inner).2
      ⟨renames.listed.noNull, content, (renames.lone _ _).2 ⟨rfl, rfl⟩⟩
  have orderly : Orderly (entry.moves replacements)
      (entry.staged copier world.disk (template / entry.source))
      (entry.ways copier world.disk (template / entry.source)) := renames.orderly
  obtain ⟨reached, ends, altered, held⟩ := stage_new_ok sound made directory renames.target
    renames.target_clean orderly
    (by
      rw [renames.lists]
      exact List.forall_mem_singleton.2 ⟨renames.listed, renames.renamed⟩)
    (by
      rw [renames.lists]
      exact List.forall_mem_singleton.2 file_there)
  obtain ⟨-, outside⟩ := outside_staged stays sound directory made
  have more : stagingPlace world.disk ++ Path.segmentsOf (entry.relativeTarget replacements) ≠ [] :=
    by simp [stagingPlace]
  have stages := stage_eq_ok (Path.isWritten_div template_written entry.source) all_named more stays
    (sound_staging sound made) (apart_staged source_inner sound separate made) outside ends
  refine ⟨reached.disk, stages, altered.sound, fun rest other => ?_⟩
  rw [contentAt_after_staging sound made named altered held]
  constructor
  · rintro ⟨relative, rfl, listed⟩
    obtain ⟨rfl, rfl⟩ := renames.moved_eq_some_iff.1 listed
    exact ⟨rfl, rfl⟩
  · rintro ⟨rfl, rfl⟩
    exact ⟨_, rfl, renames.moved_eq_some_iff.2 ⟨rfl, rfl⟩⟩

theorem plans_of_renamed (copier : Copier) :
    entry.Plans copier template target replacements world.disk
      (if copier.isIgnored (Path.segmentsOf (entry.relativeTarget replacements) ++
          Path.segmentsOf (replacements.apply pattern)) then []
        else [copier.write target (effective (entry.contentReplacements replacements))
          (.fromRoot (stagingPlace world.disk))
          (Path.segmentsOf (entry.relativeTarget replacements) ++
            Path.segmentsOf (replacements.apply pattern)) content]) := by
  obtain ⟨staged, stages, staged_sound, held⟩ :=
    renames.exists_staged sound template_written separate source_inner directory made copier
  have staging_named := fun name (member : name ∈ stagingPlace world.disk) =>
    isName_of_mem_stagingPlace sound member
  have led := staged.placeOf_fromRoot staging_named
  have more : Path.segmentsOf (entry.relativeTarget replacements) ++
      Path.segmentsOf (replacements.apply pattern) ≠ [] := by simp [renames.renamed.more]
  have clean := hasNull_append renames.target_clean renames.renamed.noNull
  generalize Path.segmentsOf (entry.relativeTarget replacements) ++
    Path.segmentsOf (replacements.apply pattern) = arrived at held more clean ⊢
  have there : staged.isDirectory (.fromRoot (stagingPlace world.disk)) = true := by
    refine staged_sound.isDirectory_fromRoot ?_ (noNull_staging sound made)
    refine staged_sound.directory_of_append more ?_
    rw [contentAt_eq_some_iff.1 ((held _ _).2 ⟨rfl, rfl⟩)]
    exact nofun
  have plain : entry.files.isEmpty = false := by simp [Table.isEmpty, renames.lists]
  rw [← treePlan_of_lone staged_sound there clean (by rwa [led])]
  exact .staged directory plain made stages there

end Staged

end Archetype.Template.Entry
