import Archetype.Proofs.Arrivals
import Archetype.Proofs.Staging
import Mathlib.Data.List.Pairwise
import Mathlib.Tactic.MkIffOfInductiveProp

/-!
# Renamed files in the project

The files to rename have new paths that are apart from each other and from the files that are not listed
(`Renamable`). That is not enough for each to arrive at its new path, since they are moved one after the
other: the moves have to be in an order in which none undoes an earlier one (`InOrder`), and no other
file may arrive in the way (`Unhindered`).

* `copy_renames`: under these conditions the files of an entry are copied if they can be copied without
  renaming, and each renamed file arrives.
* `copy_loses_swapped`: two files that swap their names are not both in the project.
-/

namespace Archetype.Template.Entry

open Archetype.Action Archetype.Disk Archetype.Copier

def others (entry : Entry) (copier : Copier) (disk : Disk) (source : Path) : List Place :=
  (listing disk source).filter fun relative =>
    (entry.staged copier disk source relative).isSome &&
      !entry.files.entries.any fun pair => Path.segmentsOf pair.1 == relative

/-- The files to rename are there, and their new paths are apart. -/
@[mk_iff]
structure Renamable (entry : Entry) (copier : Copier) (disk : Disk) (source : Path)
    (replacements : Replacements) : Prop where
  inner : Path.Inner (entry.relativeTarget replacements)
  noNull : hasNull (Path.segmentsOf (entry.relativeTarget replacements)) = false
  unmarked : entry.Unmarked (Path.segmentsOf (entry.relativeTarget replacements))
  listed : ∀ pair ∈ entry.files.entries, Path.Inner pair.1 ∧ disk.isFile (source / pair.1) = true
  names : ∀ pair ∈ entry.files.entries, Names (replacements.apply pair.2)
  plain : ∀ move ∈ entry.moves replacements, entry.Unmarked move.2 ∧
    copier.isIgnored (Path.segmentsOf (entry.relativeTarget replacements) ++ move.2) = false
  distinct : (entry.moves replacements).Pairwise fun first later => Apart first.2 later.2
  apart : ∀ move ∈ entry.moves replacements, ∀ other ∈ entry.others copier disk source,
    Apart move.2 other

/-- No later file lies above or below a new path, and no copied file below one. -/
@[mk_iff]
structure InOrder (entry : Entry) (copier : Copier) (disk : Disk) (source : Path)
    (replacements : Replacements) : Prop where
  ordered : (entry.moves replacements).Pairwise fun first later =>
    ¬ Below first.2 later.1 ∧ ¬ Below later.1 first.2
  vacant : ∀ move ∈ entry.moves replacements, ∀ relative ∈ listing disk source,
    (entry.staged copier disk source relative).isSome → ¬ Below relative move.2

/-- The files that are not listed arrive in the project, and none of them in the way of another or of a
renamed file. -/
@[mk_iff]
structure Unhindered (entry : Entry) (copier : Copier) (disk : Disk) (source : Path)
    (replacements : Replacements) : Prop where
  slash : entry.raw = false → '/' ∉ entry.opened.toList
  names : ∀ other ∈ entry.others copier disk source, Names (entry.arrival replacements other)
  fit : ∀ other ∈ entry.others copier disk source, ∀ another ∈ entry.others copier disk source,
    ¬ Below (Path.segmentsOf (entry.arrival replacements other))
      (Path.segmentsOf (entry.arrival replacements another))
  apart : ∀ move ∈ entry.moves replacements, ∀ other ∈ entry.others copier disk source,
    Apart move.2 (Path.segmentsOf (entry.arrival replacements other))

section Decidable

variable (entry : Entry) (copier : Copier) (disk : Disk) (source : Path)
  (replacements : Replacements)

instance : Decidable (entry.Renamable copier disk source replacements) :=
  decidable_of_iff _ (renamable_iff entry copier disk source replacements).symm

instance : Decidable (entry.InOrder copier disk source replacements) :=
  decidable_of_iff _ (inOrder_iff entry copier disk source replacements).symm

instance : Decidable (entry.Unhindered copier disk source replacements) :=
  decidable_of_iff _ (unhindered_iff entry copier disk source replacements).symm

end Decidable

section Orderly

variable {entry : Entry} {copier : Copier} {disk : Disk} {source : Path}
  {replacements : Replacements}

theorem takes_of_staged {front : Place} {content : Content}
    (staged : entry.staged copier disk source front = some content) :
    copier.takes disk source front = some content := by
  unfold Entry.staged at staged
  split at staged
  · cases staged
  · exact staged

variable (sound : disk.Sound) (directory : disk.isDirectory source = true)

include sound directory

theorem mem_listing_of_staged {front : Place} {content : Content}
    (staged : entry.staged copier disk source front = some content) : front ∈ listing disk source :=
  mem_listing_of_takes sound directory (takes_of_staged staged)

theorem mem_others_of_staged {front : Place} {content : Content}
    (staged : entry.staged copier disk source front = some content)
    (unlisted : ∀ move ∈ entry.moves replacements, move.1 ≠ front) :
    front ∈ entry.others copier disk source := by
  refine List.mem_filter.2 ⟨mem_listing_of_staged sound directory staged, ?_⟩
  simp only [staged, Option.isSome_some, Bool.true_and, Bool.not_eq_true', List.any_eq_false,
    beq_iff_eq]
  intro pair member
  exact unlisted _ (List.mem_map_of_mem member)

theorem isFile_div_iff {text : String} (inner : Path.Inner text) :
    disk.isFile (source / text) = true ↔ hasNull (Path.segmentsOf text) = false ∧
      ∃ content, filesOf disk source (Path.segmentsOf text) = some content := by
  have named : ∀ name ∈ Path.segmentsOf text, Path.IsName name := fun _ member =>
    Path.isName_of_inner inner member
  rw [isFile_iff, Path.div_eq_join _ inner]
  constructor
  · rintro ⟨content, executable, found⟩
    obtain ⟨noNull, held⟩ := (sound.find?_join_iff directory named).1 found
    exact ⟨noNull, (content, executable), contentAt_eq_some_iff.2 held⟩
  · rintro ⟨noNull, content, held⟩
    exact ⟨content.1, content.2, (sound.find?_join_iff directory named).2
      ⟨noNull, contentAt_eq_some_iff.1 held⟩⟩

theorem names_of_isFile {text : String} (inner : Path.Inner text)
    (file : disk.isFile (source / text) = true) : Names text := by
  obtain ⟨noNull, content, held⟩ := (isFile_div_iff sound directory inner).1 file
  refine ⟨inner, fun empty => ?_, noNull⟩
  rw [filesOf, empty, List.append_nil, contentAt_eq_some_iff,
    (sound.isDirectory_iff.1 directory).2.2.2] at held
  cases held

theorem Renamable.named (renamable : entry.Renamable copier disk source replacements) :
    ∀ pair ∈ entry.files.entries, Names pair.1 ∧ Names (replacements.apply pair.2) := by
  intro pair member
  obtain ⟨inner, file⟩ := renamable.listed pair member
  exact ⟨names_of_isFile sound directory inner file, renamable.names pair member⟩

theorem Renamable.filesOf_listed (renamable : entry.Renamable copier disk source replacements)
    {move : Place × Place} (member : move ∈ entry.moves replacements) :
    ∃ content, filesOf disk source move.1 = some content := by
  obtain ⟨pair, inside, rfl⟩ := List.mem_map.1 member
  obtain ⟨inner, file⟩ := renamable.listed pair inside
  exact ((isFile_div_iff sound directory inner).1 file).2

theorem Renamable.orderly (renamable : entry.Renamable copier disk source replacements)
    (inOrder : entry.InOrder copier disk source replacements) :
    Orderly (entry.moves replacements) (entry.staged copier disk source)
      (entry.ways copier disk source) := by
  refine ⟨renamable.distinct, inOrder.ordered, ?_, ?_, ?_⟩
  · intro move member
    obtain ⟨content, listed⟩ := renamable.filesOf_listed sound directory member
    have held := contentAt_eq_some_iff.1 listed
    refine ⟨?_, ?_⟩
    · rintro ⟨file, staged, below⟩
      obtain ⟨other, copied⟩ := Option.ne_none_iff_exists'.1 staged
      have there := (takes_eq_some_iff.1 (takes_of_staged copied)).2.2
      exact sound.not_below (disk.placeOf source) (by simp [held]) (by simp [there]) below
    · intro front below
      cases staged : entry.staged copier disk source front with
      | none => rfl
      | some other =>
          have there := (takes_eq_some_iff.1 (takes_of_staged staged)).2.2
          exact absurd below
            (sound.not_below (disk.placeOf source) (by simp [there]) (by simp [held]))
  · rintro move member ⟨file, staged, below⟩
    obtain ⟨content, copied⟩ := Option.ne_none_iff_exists'.1 staged
    exact inOrder.vacant move member file (mem_listing_of_staged sound directory copied)
      (by simp [copied]) below
  · intro move member front below staged
    obtain ⟨content, copied⟩ := Option.ne_none_iff_exists'.1 staged
    by_contra unlisted
    have unmoved : ∀ other ∈ entry.moves replacements, other.1 ≠ front :=
      fun other inside same => unlisted ⟨other, inside, same⟩
    have other := mem_others_of_staged sound directory copied unmoved
    exact (renamable.apart move member front other).2 below.1

theorem mem_moves_or_others {relative : Place}
    (held : moved (filesOf disk source) (entry.staged copier disk source)
      (entry.moves replacements) relative ≠ none) :
    (∃ move ∈ entry.moves replacements, move.2 = relative) ∨
      relative ∈ entry.others copier disk source := by
  rcases moved_cases held with renamed | ⟨staged, unmoved⟩
  · exact Or.inl renamed
  · obtain ⟨content, copied⟩ := Option.ne_none_iff_exists'.1 staged
    exact Or.inr (mem_others_of_staged sound directory copied unmoved)

end Orderly

section Arrives

variable {entry : Entry} {copier : Copier} {disk : Disk} {source : Path}
  {replacements : Replacements} (sound : disk.Sound) (directory : disk.isDirectory source = true)
  (spelled : ∀ pair ∈ replacements.entries, ∃ name, pair.1 = Placeholder.spell name)
  (renamable : entry.Renamable copier disk source replacements)
  (unhindered : entry.Unhindered copier disk source replacements)

include spelled renamable unhindered

theorem names_of_move {move : Place × Place} (member : move ∈ entry.moves replacements) :
    Names (entry.arrival replacements move.2) ∧
      Path.segmentsOf (entry.arrival replacements move.2) = move.2 := by
  have unmarked := (renamable.plain move member).1
  rw [arrival_of_unmarked spelled unhindered.slash unmarked]
  obtain ⟨pair, inside, rfl⟩ := List.mem_map.1 member
  have names := renamable.names pair inside
  have named : ∀ name ∈ Path.segmentsOf (replacements.apply pair.2), Path.IsName name :=
    fun name listed => Path.isName_of_inner names.inner listed
  have segments := Path.segmentsOf_intercalate fun name listed => (named name listed).1
  change Names ("/".intercalate (Path.segmentsOf (replacements.apply pair.2))) ∧
    Path.segmentsOf ("/".intercalate (Path.segmentsOf (replacements.apply pair.2))) = _
  refine ⟨⟨Path.inner_intercalate named, ?_, ?_⟩, segments⟩
  · rw [segments]
    exact names.more
  · rw [segments]
    exact names.noNull

include sound directory

theorem names_of_moved {relative : Place}
    (held : moved (filesOf disk source) (entry.staged copier disk source)
      (entry.moves replacements) relative ≠ none) :
    relative ≠ [] ∧ Names (entry.arrival replacements relative) := by
  rcases mem_moves_or_others sound directory held with ⟨move, member, rfl⟩ | other
  · obtain ⟨names, segments⟩ := names_of_move spelled renamable unhindered member
    refine ⟨?_, names⟩
    rw [← segments]
    exact names.more
  · refine ⟨?_, unhindered.names relative other⟩
    have listed := (List.mem_filter.1 other).1
    exact ((mem_listing_iff sound directory).1 listed).1

theorem not_below_of_moved {relative other : Place}
    (held : moved (filesOf disk source) (entry.staged copier disk source)
      (entry.moves replacements) relative ≠ none)
    (other_held : moved (filesOf disk source) (entry.staged copier disk source)
      (entry.moves replacements) other ≠ none) :
    ¬ Below (Path.segmentsOf (entry.arrival replacements relative))
      (Path.segmentsOf (entry.arrival replacements other)) := by
  have arrives : ∀ move ∈ entry.moves replacements,
      Path.segmentsOf (entry.arrival replacements move.2) = move.2 := fun move member =>
    (names_of_move spelled renamable unhindered member).2
  rcases mem_moves_or_others sound directory held with ⟨move, member, rfl⟩ | unlisted
  · rw [arrives move member]
    rcases mem_moves_or_others sound directory other_held with ⟨later, inside, rfl⟩ | unlisted
    · rw [arrives later inside]
      rintro ⟨below, differ⟩
      have targets : ((entry.moves replacements).map Prod.snd).Pairwise Apart :=
        List.pairwise_map.2 renamable.distinct
      have apart := targets.forall (List.mem_map_of_mem inside) (List.mem_map_of_mem member) differ
      exact apart.1 below
    · exact fun below => (unhindered.apart move member other unlisted).2 below.1
  · rcases mem_moves_or_others sound directory other_held with ⟨later, inside, rfl⟩ | other_unlisted
    · rw [arrives later inside]
      exact fun below => (unhindered.apart later inside relative unlisted).1 below.1
    · exact unhindered.fit relative unlisted other other_unlisted

theorem eq_of_arrival_eq {move : Place × Place} (member : move ∈ entry.moves replacements)
    {other : Place} (held : moved (filesOf disk source) (entry.staged copier disk source)
      (entry.moves replacements) other ≠ none)
    (same : Path.segmentsOf (entry.arrival replacements other) =
      Path.segmentsOf (entry.arrival replacements move.2)) : other = move.2 := by
  rw [(names_of_move spelled renamable unhindered member).2] at same
  rcases mem_moves_or_others sound directory held with ⟨later, inside, rfl⟩ | unlisted
  · rwa [(names_of_move spelled renamable unhindered inside).2] at same
  · have apart := unhindered.apart move member other unlisted
    rw [same] at apart
    exact absurd apart (not_apart_self _)

end Arrives

section Staging

variable {world : World} (sound : world.disk.Sound) {changed : Disk}
  (made : world.disk.makeDirectory (.fromRoot (stagingPlace world.disk)) = .ok changed)

include sound made

theorem filesOf_staging (source : Path) : filesOf changed source = filesOf world.disk source := by
  have altered := (altered_staging sound made .unlimited).2
  funext front
  rw [filesOf, filesOf, contentAt_staging sound made, altered.placeOf]

theorem staged_staging (entry : Entry) (copier : Copier) (source : Path) :
    entry.staged copier changed source = entry.staged copier world.disk source := by
  have takes : copier.takes changed source = copier.takes world.disk source := by
    funext front
    have same := congrFun (filesOf_staging sound made source) front
    unfold filesOf at same
    rw [Copier.takes, Copier.takes, same]
  rw [staged, staged, takes]

theorem stage_new_ok {entry : Entry} {copier : Copier} {source : Path}
    {replacements : Replacements} (directory : world.disk.isDirectory source = true)
    (inner : Path.Inner (entry.relativeTarget replacements))
    (noNull : hasNull (Path.segmentsOf (entry.relativeTarget replacements)) = false)
    (orderly : Orderly (entry.moves replacements) (entry.staged copier world.disk source)
      (entry.ways copier world.disk source))
    (listed : ∀ pair ∈ entry.files.entries, Names pair.1 ∧ Names (replacements.apply pair.2))
    (files : ∀ pair ∈ entry.files.entries, world.disk.isFile (source / pair.1) = true) :
    ∃ reached, entry.stage copier source (.fromRoot (stagingPlace world.disk ++
        Path.segmentsOf (entry.relativeTarget replacements))) replacements
        { world with disk := changed } = .ok () reached ∧
      Altered (.into changed (.fromRoot (stagingPlace world.disk ++
        Path.segmentsOf (entry.relativeTarget replacements)))) changed reached.disk ∧
        reached.disk.Holds (stagingPlace world.disk ++
            Path.segmentsOf (entry.relativeTarget replacements))
          (moved (filesOf world.disk source) (entry.staged copier world.disk source)
            (entry.moves replacements)) fun _ => True := by
  have named : ∀ name ∈ Path.segmentsOf (entry.relativeTarget replacements), Path.IsName name :=
    fun name member => Path.isName_of_inner inner member
  have all_named : ∀ name ∈ stagingPlace world.disk ++
      Path.segmentsOf (entry.relativeTarget replacements), Path.IsName name := fun _ member =>
    isName_of_mem_staging_append sound named member
  have stands := stands_staging sound made named directory
  have led := changed.placeOf_fromRoot all_named
  -- what is read is the same as before the directory was made
  have files_same := filesOf_staging sound made source
  have staged_same := staged_staging sound made entry copier source
  have changed_files : ∀ pair ∈ entry.files.entries, changed.isFile (source / pair.1) = true := by
    intro pair member
    have pair_inner := (listed pair member).1.inner
    rw [isFile_div_iff (sound_staging sound made) stands.directory pair_inner, files_same]
    exact (isFile_div_iff sound directory pair_inner).1 (files pair member)
  have changed_orderly : Orderly (entry.moves replacements) (entry.staged copier changed source)
      (entry.ways copier changed source) := by
    unfold ways
    rw [staged_same]
    exact orderly
  have ready_sound : ({ world with disk := changed } : World).disk.Sound := sound_staging sound made
  obtain ⟨reached, ends, altered, held⟩ := stage_ok ready_sound
    (fun name member => (all_named name member).1) stands
    (accepts_staging sound made named noNull)
    (by
      rw [led]
      exact holds_staging sound made named)
    changed_orderly listed changed_files
  rw [led, files_same, staged_same] at held
  exact ⟨reached, ends, altered, held.mono fun _ _ => trivial⟩

end Staging

section Staged

variable {world : World} (sound : world.disk.Sound) {changed : Disk}
  (made : world.disk.makeDirectory (.fromRoot (stagingPlace world.disk)) = .ok changed)
  {entry : Entry} {copier : Copier} {source : Path} {replacements : Replacements}
  (spelled : ∀ pair ∈ replacements.entries, ∃ name, pair.1 = Placeholder.spell name)
  (directory : world.disk.isDirectory source = true)
  (renamable : entry.Renamable copier world.disk source replacements)
  (unhindered : entry.Unhindered copier world.disk source replacements)
  (lists : entry.files.entries ≠ []) {staged : Disk}
  (altered : Altered (.into changed (.fromRoot (stagingPlace world.disk ++
    Path.segmentsOf (entry.relativeTarget replacements)))) changed staged)
  (holds : staged.Holds (stagingPlace world.disk ++
      Path.segmentsOf (entry.relativeTarget replacements))
    (moved (filesOf world.disk source) (entry.staged copier world.disk source)
      (entry.moves replacements)) fun _ => True)

include sound made spelled directory renamable unhindered lists altered holds

theorem directory_of_staged : staged.node? (stagingPlace world.disk) = some .directory := by
  have named : ∀ name ∈ Path.segmentsOf (entry.relativeTarget replacements), Path.IsName name :=
    fun name member => Path.isName_of_inner renamable.inner member
  -- the file that was moved last is in it
  obtain ⟨done, move, whole⟩ := List.eq_nil_or_concat' (entry.moves replacements)
    |>.resolve_left (by simp [moves, lists])
  have member : move ∈ entry.moves replacements := by simp [whole]
  obtain ⟨content, listed⟩ := renamable.filesOf_listed sound directory member
  have last_there : moved (filesOf world.disk source) (entry.staged copier world.disk source)
      (entry.moves replacements) move.2 = some content := by
    have targets := renamable.distinct
    rw [whole] at targets ⊢
    rw [moved_of_kept targets fun _ later => (nomatch later), listed]
  have held := (contentAt_after_staging sound made named altered holds _ content).2
    ⟨move.2, rfl, last_there⟩
  have more := (names_of_moved sound directory spelled renamable unhindered
    (by rw [last_there]; simp)).1
  have below : Path.segmentsOf (entry.relativeTarget replacements) ++ move.2 ≠ [] := by simp [more]
  refine altered.sound.directory_of_append below ?_
  rw [contentAt_eq_some_iff.1 held]
  simp

theorem carries_of_staged :
    entry.Carries replacements staged (stagingPlace world.disk)
      (Path.segmentsOf (entry.relativeTarget replacements))
      (moved (filesOf world.disk source) (entry.staged copier world.disk source)
        (entry.moves replacements)) := by
  have named : ∀ name ∈ Path.segmentsOf (entry.relativeTarget replacements), Path.IsName name :=
    fun name member => Path.isName_of_inner renamable.inner member
  exact
    { named := fun _ member => isName_of_mem_staging_append sound named member
      noNull := hasNull_append (noNull_staging sound made) renamable.noNull
      unmarked := renamable.unmarked
      directory := directory_of_staged sound made spelled directory renamable unhindered lists
        altered holds
      held := contentAt_after_staging sound made named altered holds
      names := fun _ held => names_of_moved sound directory spelled renamable unhindered held
      fit := fun _ _ held other_held =>
        not_below_of_moved sound directory spelled renamable unhindered held other_held }

theorem overlay_of_move (target : Path) {move : Place × Place}
    (member : move ∈ entry.moves replacements) :
    overlay (fun _ => none) (copier.writes staged (.fromRoot (stagingPlace world.disk))
        (effective (entry.contentReplacements replacements))
        (listing staged (.fromRoot (stagingPlace world.disk))))
        (Path.segmentsOf (entry.relativeTarget replacements) ++ move.2) =
      (moved (filesOf world.disk source) (entry.staged copier world.disk source)
        (entry.moves replacements) move.2).map
        (copier.delivered (effective (entry.contentReplacements replacements))
          (target.join ⟨.current,
            Path.segmentsOf (entry.relativeTarget replacements) ++ move.2⟩)) := by
  have carries := carries_of_staged sound made spelled directory renamable unhindered lists altered
    holds
  obtain ⟨names, segments⟩ := names_of_move spelled renamable unhindered member
  have alone : ∀ other, moved (filesOf world.disk source) (entry.staged copier world.disk source)
      (entry.moves replacements) other ≠ none →
      Path.segmentsOf (entry.arrival replacements other) =
        Path.segmentsOf (entry.arrival replacements move.2) → other = move.2 := fun other held same =>
    eq_of_arrival_eq sound directory spelled renamable unhindered member held same
  cases listed : moved (filesOf world.disk source) (entry.staged copier world.disk source)
      (entry.moves replacements) move.2 with
  | none =>
      refine carries.overlay_of_nowhere spelled unhindered.slash altered.sound
        fun other held same => held ?_
      rw [alone other held (same.trans segments.symm), listed]
  | some content =>
      have arrives := carries.overlay_of_alone spelled unhindered.slash altered.sound listed
        (renamable.plain move member).2 (by rw [← segments]; exact names.noNull) alone
      rw [segments] at arrives
      have more : Path.segmentsOf (entry.relativeTarget replacements) ++ move.2 ≠ [] := by
        rw [← segments]
        simp [names.more]
      refine arrives.trans (congrArg some (delivered_congr copier _ ?_ content))
      rw [Path.name_join _ more, Path.name_join _ more]

end Staged

section Renamed

variable {world : World} (sound : world.disk.Sound) {target : Path}
  (target_written : target.IsWritten) (accepts : world.disk.Accepts target)
  (absent : world.disk.node? (world.disk.placeOf target) = none)
  (apart : Apart (world.disk.placeOf target) (stagingPlace world.disk))
  (outside : ∀ place, world.disk.OnWay target place → ¬ stagingPlace world.disk <+: place)
  {changed : Disk}
  (made : world.disk.makeDirectory (.fromRoot (stagingPlace world.disk)) = .ok changed)
  {entry : Entry} {copier : Copier} {source : Path} {replacements : Replacements}
  (spelled : ∀ pair ∈ replacements.entries, ∃ name, pair.1 = Placeholder.spell name)
  (directory : world.disk.isDirectory source = true)
  (renamable : entry.Renamable copier world.disk source replacements)
  (inOrder : entry.InOrder copier world.disk source replacements)
  (unhindered : entry.Unhindered copier world.disk source replacements)
  (lists : entry.files.entries ≠ [])

include sound target_written accepts absent apart outside made spelled directory renamable inOrder
  unhindered lists

theorem copyRenamed_ok :
    ∃ written reached, entry.copyRenamed copier source target replacements world =
        .ok written reached ∧ reached.disk.Sound ∧ reached.disk.current = world.disk.current ∧
      reached.disk.Accepts target ∧
      ∀ move ∈ entry.moves replacements,
        reached.disk.contentAt (world.disk.placeOf target ++
            (Path.segmentsOf (entry.relativeTarget replacements) ++ move.2)) =
          (moved (filesOf world.disk source) (entry.staged copier world.disk source)
            (entry.moves replacements) move.2).map
            (copier.delivered (effective (entry.contentReplacements replacements))
              (target.join ⟨.current,
                Path.segmentsOf (entry.relativeTarget replacements) ++ move.2⟩)) := by
  have named : ∀ name ∈ Path.segmentsOf (entry.relativeTarget replacements), Path.IsName name :=
    fun name member => Path.isName_of_inner renamable.inner member
  obtain ⟨staged, stages, altered, holds⟩ := stage_new_ok sound made directory renamable.inner
    renamable.noNull (renamable.orderly sound directory inOrder) (renamable.named sound directory)
    fun pair member => (renamable.listed pair member).2
  rw [← Path.fromRoot_div renamable.inner, ← inside_eq] at stages
  have carries := carries_of_staged sound made spelled directory renamable unhindered lists altered
    holds
  have current : staged.disk.current = world.disk.current :=
    altered.current.trans (altered_staging sound made .unlimited).2.current
  have place : staged.disk.placeOf target = world.disk.placeOf target := placeOf_congr current target
  -- what has been staged has not changed the way to the project
  have staged_accepts : staged.disk.Accepts target :=
    accepts.congr current fun other onWay =>
      node?_outside_staging sound made named altered (outside other onWay)
  have staged_absent : staged.disk.node? (staged.disk.placeOf target) = none := by
    rw [place, node?_outside_staging sound made named altered apart.2, absent]
  obtain ⟨written, reached, ends, delivers, still, arrived⟩ :=
    deliver_ok spelled unhindered.slash altered.sound target_written carries
      (by rw [place]; exact apart) staged_accepts staged_absent
  rw [place] at arrived
  have staging_more : stagingPlace world.disk ≠ [] := by simp [stagingPlace]
  let last := reached.disk.prune (stagingPlace world.disk)
  -- the temporary directory goes, and nothing of the project with it
  have pruned : ∀ {other}, ¬ stagingPlace world.disk <+: other →
      last.node? other = reached.disk.node? other := by
    intro other away
    rw [node?_prune reached.disk staging_more, if_neg away]
  refine ⟨written, { reached with disk := last }, ?_, delivers.sound.prune staging_more,
    delivers.current.trans current, ?_, ?_⟩
  · rw [copyRenamed_eq]
    exact withStaging_ok made ((bind_ok stages _).trans ends)
  · refine still.congr rfl fun other onWay => pruned (outside other ?_)
    exact (onWay_congr (delivers.current.trans current)).1 onWay
  · intro move member
    have away : ¬ stagingPlace world.disk <+: world.disk.placeOf target ++
        (Path.segmentsOf (entry.relativeTarget replacements) ++ move.2) :=
      not_prefix_of_apart apart (List.prefix_append _ _)
    refine ((contentAt_congr (pruned away)).trans (arrived _)).trans ?_
    exact overlay_of_move sound made spelled directory renamable unhindered lists altered holds target
      member

end Renamed

def plain (entry : Entry) : Entry :=
  { entry with files := ∅, only := false }

theorem copy_eq {entry : Entry} {copier : Copier} {template target : Path}
    {replacements : Replacements} {world reached : World} {written : List Path}
    (directory : world.disk.isDirectory (template / entry.source) = true)
    (copies : (if entry.files.isEmpty then
        entry.copyNamed copier (template / entry.source) target replacements
      else entry.copyRenamed copier (template / entry.source) target replacements) world =
        .ok written reached) :
    entry.copy copier template target replacements world = .ok written reached := by
  rw [copy, disk_bind, directory]
  simp only [Bool.not_true, Bool.false_eq_true, ↓reduceIte]
  rw [explaining, copies]

theorem copy_ok_of_no_files {entry : Entry} {copier : Copier} {template target : Path}
    {replacements : Replacements} {world after : World} {plainly : List Path}
    (lists : entry.files.entries = [])
    (copied : entry.plain.copy copier template target replacements world = .ok plainly after) :
    ∃ written reached, entry.copy copier template target replacements world = .ok written reached := by
  have directory : world.disk.isDirectory (template / entry.source) = true :=
    isDirectory_of_copy entry.plain copied
  cases only : entry.only with
  | true =>
      let noted : World :=
        { world with journal := world.journal ++ [.noted (.nothingCopied entry.label)] }
      have none_listed : entry.files.isEmpty = true := by simp [Table.isEmpty, lists]
      refine ⟨[], noted, copy_eq directory ?_⟩
      rw [if_pos none_listed, copyNamed, only]
      rfl
  | false =>
      have empty : entry.files = ∅ := Table.ext lists
      have same : entry.plain = entry := by
        unfold plain
        rw [← empty, ← only]
      rw [same] at copied
      exact ⟨plainly, after, copied⟩

section Found

variable {disk : Disk} (sound : disk.Sound) {target : Path} {first text : String}
  (inner : Path.Inner first) (names : Names text)

include sound inner names

theorem find?_inside (accepts : disk.Accepts target)
    (noNull : hasNull (Path.segmentsOf first) = false) {content : Content}
    (held : disk.contentAt (disk.placeOf target ++
      (Path.segmentsOf first ++ Path.segmentsOf text)) = some content) :
    disk.find? (inside target first / text) = some (.file content.1 content.2) := by
  have file := contentAt_eq_some_iff.1 held
  have more : Path.segmentsOf first ++ Path.segmentsOf text ≠ [] := by simp [names.more]
  have directory : disk.isDirectory target = true :=
    accepts.isDirectory sound (sound.directory_of_append more (by simp [file]))
  rw [inside_eq, Path.div_div_eq_join target inner names.inner]
  refine (sound.find?_join_iff directory ?_).2 ⟨hasNull_append noNull names.noNull, file⟩
  intro name member
  rcases List.mem_append.1 member with before | after
  · exact Path.isName_of_inner inner before
  · exact Path.isName_of_inner names.inner after

theorem isFile_inside
    (nothing : disk.contentAt (disk.placeOf target ++
      (Path.segmentsOf first ++ Path.segmentsOf text)) = none) :
    disk.isFile (inside target first / text) = false := by
  rw [← Bool.not_eq_true, isFile_iff]
  rintro ⟨content, executable, found⟩
  have held := (sound.find?_cases found).1
  rw [inside_eq, placeOf_div _ _ names.inner, placeOf_div _ _ inner, List.append_assoc] at held
  have file : disk.contentAt _ = some (content, executable) := contentAt_eq_some_iff.2 held
  rw [nothing] at file
  cases file

end Found

section Entries

variable {world : World} (sound : world.disk.Sound) {template target : Path}
  (template_written : template.IsWritten) (target_written : target.IsWritten)
  (direct : ∀ place, world.disk.OnWay target place →
    place <+: world.disk.placeOf target ∨ world.disk.node? place = some .directory)
  (begins : world.disk.node? (world.disk.start target.anchor) = some .directory)
  {entry : Entry} {copier : Copier} {replacements : Replacements} {plainly : List Path}
  {after : World}
  (copied : entry.plain.copy copier template target replacements world = .ok plainly after)
  (there : after.disk.isDirectory target = true)

include sound template_written target_written direct begins copied there

theorem accepts_of_copy (inner : Path.Inner (entry.relativeTarget replacements)) :
    world.disk.Accepts target := by
  let allowed : Allowance := ⟨fun _ => False, fun _ => True, fun _ => True⟩
  have stays : entry.plain.StaysBelow replacements :=
    ⟨inner, fun _ member => (nomatch member), fun _ member => (nomatch member)⟩
  have altered : Within allowed (entry.plain.copy copier template target replacements) world :=
    within_copy template_written target_written sound stays fun _ _ =>
      ⟨fun _ _ => Or.inr trivial, Or.inr trivial, fun _ _ => Or.inr trivial⟩
  rw [Within, after_of_ok copied] at altered
  refine ⟨(altered.sound.isDirectory_iff.1 there).1, begins, fun place onWay => ?_⟩
  have directory := altered.sound.directory_of_onWay there ((onWay_congr altered.current).2 onWay)
  rcases altered.node place with free | kept | ⟨-, absent, -⟩ | ⟨-, -, content, executable, file⟩
  · exact free.elim
  · exact Or.inl (kept.symm.trans directory)
  · rcases direct place onWay with starts | before
    · exact Or.inr ⟨absent, starts⟩
    · exact Or.inl before
  · rw [directory] at file
    cases file

/-- The files of an entry are copied, and a renamed file arrives in the project unless its new path is
that of a later listed file: then it does not. -/
theorem copy_renames (absent : world.disk.node? (world.disk.placeOf target) = none)
    (apart : Apart (world.disk.placeOf target) world.disk.temporary) {changed : Disk}
    (made : world.disk.makeDirectory (.fromRoot (stagingPlace world.disk)) = .ok changed)
    (spelled : ∀ pair ∈ replacements.entries, ∃ name, pair.1 = Placeholder.spell name)
    (renamable : entry.Renamable copier world.disk (template / entry.source) replacements)
    (inOrder : entry.InOrder copier world.disk (template / entry.source) replacements)
    (unhindered : entry.Unhindered copier world.disk (template / entry.source) replacements) :
    ∃ written reached, entry.copy copier template target replacements world = .ok written reached ∧
      ∀ done pair rest, entry.files.entries = done ++ pair :: rest →
        let path := inside target (entry.relativeTarget replacements) / replacements.apply pair.2
        ((∀ later ∈ rest,
            Path.segmentsOf later.1 ≠ Path.segmentsOf (replacements.apply pair.2)) →
          ∃ content : Content,
            world.disk.find? (template / entry.source / pair.1) =
                some (.file content.1 content.2) ∧
              let arrived := copier.delivered (effective (entry.contentReplacements replacements))
                path content
              reached.disk.find? path = some (.file arrived.1 arrived.2)) ∧
        ((∃ later ∈ rest,
            Path.segmentsOf later.1 = Path.segmentsOf (replacements.apply pair.2)) →
          reached.disk.isFile path = false) := by
  have directory : world.disk.isDirectory (template / entry.source) = true :=
    isDirectory_of_copy entry.plain copied
  by_cases lists : entry.files.entries = []
  · obtain ⟨written, reached, ends⟩ := copy_ok_of_no_files lists copied
    exact ⟨written, reached, ends, fun _ _ _ whole => by simp [lists] at whole⟩
  · have accepts := accepts_of_copy sound template_written target_written direct begins copied there
      renamable.inner
    have staging_apart := apart_stagingPlace apart
    have outside : ∀ place, world.disk.OnWay target place → ¬ stagingPlace world.disk <+: place := by
      intro place onWay within
      rcases direct place onWay with starts | before
      · exact staging_apart.2 (within.trans starts)
      · exact outside_of_held sound (by simp [before]) within
    obtain ⟨written, reached, ends, reached_sound, current, still, arrives⟩ :=
      copyRenamed_ok sound target_written accepts absent staging_apart outside made spelled directory
        renamable inOrder unhindered lists
    have files : ¬ entry.files.isEmpty = true := by simp [Table.isEmpty, lists]
    refine ⟨written, reached, copy_eq directory (by rw [if_neg files]; exact ends), ?_⟩
    intro done pair rest whole
    have member : pair ∈ entry.files.entries := by simp [whole]
    have names := renamable.names pair member
    obtain ⟨inner, file⟩ := renamable.listed pair member
    obtain ⟨noNull, content, listed⟩ := (isFile_div_iff sound directory inner).1 file
    have moves_whole : entry.moves replacements = done.map (move replacements) ++
        move replacements pair :: rest.map (move replacements) := by simp [moves, whole]
    have targets := renamable.distinct
    -- what lies at the new path in the end is what the last of the moves has left there
    have held := arrives (move replacements pair) (List.mem_map_of_mem member)
    rw [← placeOf_congr current target] at held
    rw [moves_whole] at targets held
    refine ⟨fun kept => ⟨content, ?_, ?_⟩, ?_⟩
    · rw [Path.div_eq_join _ inner]
      exact (sound.find?_join_iff directory fun _ inside => Path.isName_of_inner inner inside).2
        ⟨noNull, contentAt_eq_some_iff.1 listed⟩
    · have moved_there : moved (filesOf world.disk (template / entry.source))
          (entry.staged copier world.disk (template / entry.source)) _ _ = some content :=
        (moved_of_kept targets (List.forall_mem_map.2 kept)).trans listed
      rw [moved_there] at held
      have found := find?_inside reached_sound renamable.inner names still renamable.noNull held
      rw [inside_eq, Path.div_div_eq_join target renamable.inner names.inner] at found ⊢
      exact found
    · rintro ⟨later, after_pair, same⟩
      rw [moved_of_lost targets ⟨_, List.mem_map_of_mem after_pair, same⟩] at held
      exact isFile_inside reached_sound renamable.inner names held

end Entries

open Archetype.Template.Descriptor (sampleWorld sampleReplacements sound_sampleWorld)

def sampleRenames (pairs : List (String × String)) : Entry :=
  { source := "src", target? := some "out", files := Table.ofList pairs }

theorem spelled_sampleReplacements :
    ∀ pair ∈ sampleReplacements.entries, ∃ name, pair.1 = Placeholder.spell name := by
  have entries : sampleReplacements.entries = [(Placeholder.spell "name", "x")] := by decide +kernel
  rw [entries]
  intro pair member
  exact ⟨"name", by rw [List.mem_singleton.1 member]⟩

theorem makeDirectory_sampleWorld :
    ∃ changed, sampleWorld.disk.makeDirectory (.fromRoot (stagingPlace sampleWorld.disk)) =
      .ok changed := by
  have made : (sampleWorld.disk.makeDirectory (.fromRoot (stagingPlace sampleWorld.disk))).isOk =
      true := by decide +kernel
  cases made_eq : sampleWorld.disk.makeDirectory (.fromRoot (stagingPlace sampleWorld.disk)) with
  | ok changed => exact ⟨changed, rfl⟩
  | error refused =>
      rw [made_eq] at made
      cases made

theorem copy_renames_chain :
    ∃ written reached,
      (sampleRenames [("a.txt", "\x7b\x7bname\x7d\x7d.txt"), ("b.txt", "a.txt")]).copy .standard
          (.ofText "/tmp/w/t") (.ofText "/tmp/w/q") sampleReplacements sampleWorld =
        .ok written reached ∧
      reached.disk.find? (.ofText "/tmp/w/q/out/x.txt") = some (.file "A".toUTF8 false) := by
  obtain ⟨changed, made⟩ := makeDirectory_sampleWorld
  obtain ⟨plainly, after, copied, there⟩ := ok_of_check
    ((sampleRenames [("a.txt", "\x7b\x7bname\x7d\x7d.txt"), ("b.txt", "a.txt")]).plain.copy
      .standard (.ofText "/tmp/w/t") (.ofText "/tmp/w/q") sampleReplacements)
    sampleWorld (fun disk => disk.isDirectory (.ofText "/tmp/w/q")) (by decide +kernel)
  have written_target := Path.isWritten_ofText "/tmp/w/q"
  obtain ⟨written, reached, ends, arrives⟩ := copy_renames sound_sampleWorld
    (Path.isWritten_ofText "/tmp/w/t") written_target
    (fun place onWay => Or.inl (prefix_of_onWay written_target (by decide) onWay)) (by decide +kernel)
    copied there (by decide +kernel) (by decide +kernel) made spelled_sampleReplacements
    (by decide +kernel) (by decide +kernel) (by decide +kernel)
  refine ⟨written, reached, ends, ?_⟩
  obtain ⟨content, found, arrived⟩ := (arrives [] ("a.txt", "\x7b\x7bname\x7d\x7d.txt")
    [("b.txt", "a.txt")] (by decide +kernel)).1 (by decide +kernel)
  have listed : sampleWorld.disk.find? (.ofText "/tmp/w/t/src/a.txt") =
      some (.file "A".toUTF8 false) := by decide +kernel
  have same : content = ("A".toUTF8, false) := by
    have nodes := found.symm.trans listed
    simp only [Option.some_inj, Node.file.injEq] at nodes
    exact Prod.ext nodes.1 nodes.2
  subst same
  exact arrived

/-- A listed file is lost if it is moved to the path of a later one, as when two files swap their
names. -/
theorem copy_loses_swapped :
    let swap := sampleRenames [("a.txt", "b.txt"), ("b.txt", "a.txt")]
    sampleWorld.disk.Sound ∧
      sampleWorld.disk.node? (sampleWorld.disk.placeOf (.ofText "/tmp/w/q")) = none ∧
      Apart (sampleWorld.disk.placeOf (.ofText "/tmp/w/q"))
        (sampleWorld.disk.placeOf (.ofText "/tmp/w/t")) ∧
      Apart (sampleWorld.disk.placeOf (.ofText "/tmp/w/q")) sampleWorld.disk.temporary ∧
      swap.Renamable .standard sampleWorld.disk (Path.ofText "/tmp/w/t" / "src")
        sampleReplacements ∧
      swap.Unhindered .standard sampleWorld.disk (Path.ofText "/tmp/w/t" / "src")
        sampleReplacements ∧
      (∃ written reached, swap.plain.copy .standard (.ofText "/tmp/w/t") (.ofText "/tmp/w/q")
        sampleReplacements sampleWorld = .ok written reached) ∧
      ∃ written reached, swap.copy .standard (.ofText "/tmp/w/t") (.ofText "/tmp/w/q")
        sampleReplacements sampleWorld = .ok written reached ∧
          reached.disk.find? (.ofText "/tmp/w/q/out/b.txt") = none := by
  intro swap
  obtain ⟨plainly, after, copied, -⟩ := ok_of_check
    (swap.plain.copy .standard (.ofText "/tmp/w/t") (.ofText "/tmp/w/q") sampleReplacements)
    sampleWorld (fun _ => true) (by decide +kernel)
  obtain ⟨written, reached, ends, lost⟩ := ok_of_check
    (swap.copy .standard (.ofText "/tmp/w/t") (.ofText "/tmp/w/q") sampleReplacements)
    sampleWorld (fun disk => (disk.find? (.ofText "/tmp/w/q/out/b.txt")).isNone) (by decide +kernel)
  exact ⟨sound_sampleWorld, by decide +kernel, by decide +kernel, by decide +kernel,
    by decide +kernel, by decide +kernel, ⟨plainly, after, copied⟩, written, reached, ends,
    Option.isNone_iff_eq_none.1 lost⟩

end Archetype.Template.Entry
