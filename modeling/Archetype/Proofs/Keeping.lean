import Archetype.Proofs.RenamedFiles
import Archetype.Proofs.Stages

namespace Archetype.Template.Entry

open Archetype.Action Archetype.Disk Archetype.Copier

def newPlaces (source : Path) (replacements : Replacements) (pair : String × String) : List Place :=
  let renamed := Path.segmentsOf (replacements.apply pair.2)
  [renamed, renamed ++ [(source / pair.1).name]]

/-- What a temporary directory holds while some files are still to be moved: the files that are not
listed, and apart from them only copies of the files to be moved and files that have been moved. -/
structure Keeps (entry : Entry) (copier : Copier) (origin : Disk) (source : Path) (base front : Place)
    (replacements : Replacements) (left : List (String × String)) (disk : Disk) : Prop where
  sound : disk.Sound
  current : disk.current = origin.current
  directory : disk.node? base = some .directory
  outside : ∀ place, ¬ base <+: place → disk.node? place = origin.node? place
  kept : ∀ other ∈ entry.others copier origin source,
    disk.contentAt (base ++ front ++ other) = copier.takes origin source other
  cases : ∀ rest, disk.contentAt (base ++ rest) ≠ none → ∃ relative, rest = front ++ relative ∧
    (relative ∈ entry.others copier origin source ∨
      (∃ pair ∈ left, Path.segmentsOf pair.1 = relative) ∨
      ∃ pair ∈ entry.files.entries, relative ∈ newPlaces source replacements pair)

structure Starts (entry : Entry) (copier : Copier) (origin : Disk) (source : Path) (base front : Place)
    (disk : Disk) : Prop where
  agree : Agree (fun place => ¬ base <+: place) origin disk
  file : ∀ rest content, disk.contentAt (base ++ rest) = some content ↔
    ∃ relative, rest = front ++ relative ∧ entry.staged copier origin source relative = some content
  way : ∀ rest, disk.node? (base ++ rest) = some .directory → rest <+: front ∨
    ∃ relative, Below (front ++ relative) rest ∧ entry.staged copier origin source relative ≠ none

theorem mem_others_iff {entry : Entry} (all : entry.only = false) {copier : Copier} {disk : Disk}
    (sound : disk.Sound) {source : Path} (directory : disk.isDirectory source = true)
    {place : Place} :
    place ∈ entry.others copier disk source ↔
      (∃ content, copier.takes disk source place = some content) ∧
        ∀ pair ∈ entry.files.entries, Path.segmentsOf pair.1 ≠ place := by
  have staged : entry.staged copier disk source = copier.takes disk source := by
    simp [Entry.staged, all]
  rw [others, List.mem_filter, staged, Bool.and_eq_true, Option.isSome_iff_exists]
  simp only [Bool.not_eq_true', List.any_eq_false, beq_iff_eq]
  refine ⟨And.right, fun unlisted => ⟨?_, unlisted⟩⟩
  obtain ⟨content, takes⟩ := unlisted.1
  exact mem_listing_of_takes sound directory takes

section Moving

variable {entry : Entry} {copier : Copier} {origin : Disk} (origin_sound : origin.Sound)
  {source : Path} (directory : origin.isDirectory source = true) {base front : Place}
  (fresh : origin.node? base = none) {replacements : Replacements}

include origin_sound fresh in
theorem Keeps.eq_of_prefix {left : List (String × String)} {disk : Disk}
    (keeps : entry.Keeps copier origin source base front replacements left disk) {text : String}
    (inner : Path.Inner text) (file : disk.isFile (source / text) = true) {place : Place}
    (held : origin.node? (origin.placeOf source ++ place) ≠ none)
    (within : Path.segmentsOf text <+: place) :
    Path.segmentsOf text = place ∧
      origin.node? (origin.placeOf source ++ place) ≠ some .directory := by
  obtain ⟨content, executable, found⟩ := isFile_iff.1 file
  have there := (keeps.sound.find?_cases found).1
  rw [placeOf_div _ _ inner, placeOf_congr keeps.current, keeps.outside _ fun inside =>
    held (origin_sound.none_of_prefix fresh
      (inside.trans ((List.prefix_append_right_inj _).2 within)))] at there
  have blocked : origin.node? (origin.placeOf source ++ Path.segmentsOf text) ≠ some .directory := by
    rw [there]
    exact nofun
  have same : Path.segmentsOf text = place := by
    by_contra differ
    exact origin_sound.not_below _ blocked held ⟨within, differ⟩
  exact ⟨same, same ▸ blocked⟩

include origin_sound directory fresh

theorem Keeps.after_cleared (all : entry.only = false) {pair : String × String}
    {left : List (String × String)} {before after : Disk}
    (keeps : entry.Keeps copier origin source base front replacements (pair :: left) before)
    (member : pair ∈ entry.files.entries) (inner : Path.Inner pair.1)
    (file : before.isFile (source / pair.1) = true)
    (cleared : Cleared (base ++ front ++ Path.segmentsOf pair.1) before after) :
    entry.Keeps copier origin source base front replacements left after := by
  have source_there : origin.node? (origin.placeOf source ++ []) = some .directory := by
    rw [List.append_nil]
    exact (origin_sound.isDirectory_iff.1 directory).2.2.2
  have more : Path.segmentsOf pair.1 ≠ [] := fun empty =>
    (keeps.eq_of_prefix origin_sound fresh inner file (fun absent => nomatch
      source_there.symm.trans absent) (empty ▸ List.prefix_refl [])).2 source_there
  have base_clear : ¬ base ++ front ++ Path.segmentsOf pair.1 <+: base := fun within => by
    have short := within.length_le
    have long := List.length_pos_iff.2 more
    simp only [List.length_append] at short
    omega
  refine ⟨cleared.sound, cleared.current.trans keeps.current,
    (cleared.other base base_clear).trans keeps.directory, fun place outside => ?_,
    fun other unlisted => ?_, fun rest holds => ?_⟩
  · rw [cleared.other place fun within => outside
      (((List.prefix_append _ _).trans (List.prefix_append _ _)).trans within)]
    exact keeps.outside place outside
  · obtain ⟨⟨taken, takes⟩, differ⟩ := (mem_others_iff all origin_sound directory).1 unlisted
    have held := (takes_eq_some_iff.1 takes).2.2
    rw [contentAt_congr (cleared.other _ fun within => differ pair member
      (keeps.eq_of_prefix origin_sound fresh inner file (by simp [held])
        ((List.prefix_append_right_inj _).1 within)).1)]
    exact keeps.kept other unlisted
  · have clear : ¬ base ++ front ++ Path.segmentsOf pair.1 <+: base ++ rest := fun within =>
      holds (contentAt_eq_none (Or.inl (cleared.within _ within)))
    rw [contentAt_congr (cleared.other _ clear)] at holds
    obtain ⟨relative, rfl, unlisted | ⟨other, listed, same⟩ | new⟩ := keeps.cases rest holds
    · exact ⟨relative, rfl, Or.inl unlisted⟩
    · rcases List.mem_cons.1 listed with rfl | later
      · rw [same, List.append_assoc] at clear
        exact absurd (List.prefix_refl _) clear
      · exact ⟨relative, rfl, Or.inr (Or.inl ⟨other, later, same⟩)⟩
    · exact ⟨relative, rfl, Or.inr (Or.inr new)⟩

end Moving

section Laying

variable {entry : Entry} {copier : Copier} {origin : Disk} {source : Path} {base front : Place}
  {replacements : Replacements} (named : ∀ name ∈ base ++ front, Path.IsName name)
  {pair : String × String} (renamed : Path.Inner (replacements.apply pair.2))
  {before after : Disk} {content : Content} {landing : Place}
  (laid : Laid (renamedWrite source (base ++ front) replacements pair content) landing before after)

include named renamed laid

theorem exists_newPlace :
    ∃ place ∈ newPlaces source replacements pair, landing = base ++ front ++ place := by
  have led : before.placeOf (renamedWrite source (base ++ front) replacements pair content).path =
      base ++ front ++ Path.segmentsOf (replacements.apply pair.2) :=
    before.placeOf_fromRoot (isName_of_mem_copied named renamed)
  cases laid.receives.lands with
  | here => exact ⟨_, List.mem_cons_self, led⟩
  | inside called =>
      obtain rfl := Option.some.inj called
      refine ⟨_, List.mem_cons_of_mem _ List.mem_cons_self, ?_⟩
      rw [led, List.append_assoc]

theorem Keeps.after_laid {left : List (String × String)}
    (keeps : entry.Keeps copier origin source base front replacements left before)
    (member : pair ∈ entry.files.entries)
    (apart : ∀ other ∈ entry.others copier origin source,
      Apart (Path.segmentsOf (replacements.apply pair.2)) other) :
    entry.Keeps copier origin source base front replacements left after := by
  -- the file lands at its new path, which is no place of an unlisted file
  obtain ⟨new, fresh, landed⟩ := exists_newPlace named renamed laid
  have within : base <+: landing := by
    rw [landed, List.append_assoc]
    exact List.prefix_append _ _
  refine ⟨laid.sound, laid.current.trans keeps.current, laid.grows keeps.directory,
    fun place outside => ?_, fun other unlisted => ?_, fun rest holds => ?_⟩
  · rw [← keeps.outside place outside]
    by_cases onWay : before.OnWay (renamedWrite source (base ++ front) replacements pair
        content).path.parent place
    · -- a directory on the way to the temporary directory
      have starts := onWay_fromRoot (isName_of_mem_copied named renamed) (onWay_of_parent onWay)
      obtain ⟨rest, whole⟩ : place <+: base := by
        refine (List.prefix_or_prefix_of_prefix starts ?_).resolve_right outside
        rw [List.append_assoc]
        exact List.prefix_append _ _
      have more : rest ≠ [] := by
        rintro rfl
        exact outside (by simp [← whole])
      rw [laid.way place onWay]
      exact (keeps.sound.directory_of_append more (by simp [whole, keeps.directory])).symm
    · exact laid.other place (fun same => outside (same ▸ within)) onWay
  · have elsewhere : base ++ front ++ other ≠ landing := by
      intro same
      rw [landed] at same
      obtain rfl := List.append_cancel_left same
      refine (apart other unlisted).1 ?_
      rcases List.mem_cons.1 fresh with rfl | inside
      · exact List.prefix_refl _
      · obtain rfl := List.mem_singleton.1 inside
        exact List.prefix_append _ _
    rw [laid.contentAt_eq, Function.update_of_ne elsewhere]
    exact keeps.kept other unlisted
  · by_cases here : base ++ rest = landing
    · rw [landed, List.append_assoc] at here
      exact ⟨new, List.append_cancel_left here, Or.inr (Or.inr ⟨pair, member, fresh⟩)⟩
    · rw [laid.contentAt_eq, Function.update_of_ne here] at holds
      exact keeps.cases rest holds

end Laying

section Stage

variable {entry : Entry} {copier : Copier} {origin : Disk} (origin_sound : origin.Sound)
  {source : Path} (source_written : source.IsWritten)
  (directory : origin.isDirectory source = true) {base front : Place}
  (fresh : origin.node? base = none) (base_more : base ≠ [])
  (named : ∀ name ∈ base ++ front, Path.IsName name) {replacements : Replacements}
  (all : entry.only = false)
  (listed : ∀ pair ∈ entry.files.entries, Path.Inner pair.1)
  (renamed : ∀ pair ∈ entry.files.entries, Path.Inner (replacements.apply pair.2))
  (apart : ∀ pair ∈ entry.files.entries, ∀ other ∈ entry.others copier origin source,
    Apart (Path.segmentsOf (replacements.apply pair.2)) other)

include origin_sound source_written directory fresh base_more named all listed renamed apart

theorem rename_keeps {label : String} {world reached : World}
    (keeps : entry.Keeps copier origin source base front replacements entry.files.entries world.disk)
    (ends : rename (.fromRoot (base ++ front)) source label replacements entry.files.entries world =
      .ok () reached) :
    entry.Keeps copier origin source base front replacements [] reached.disk := by
  refine rename_invariant named (by simp [base_more]) source_written
    (entry.Keeps copier origin source base front replacements) Keeps.sound listed renamed
    (fun {pair _ _ _ _ _ _} member keeps file cleared _ laid => ?_) keeps ends
  have less := keeps.after_cleared origin_sound directory fresh all member (listed pair member) file
    cleared
  exact less.after_laid named (renamed pair member) laid member (apart pair member)

end Stage

section Staging

variable {entry : Entry} {copier : Copier} {world : World} (sound : world.disk.Sound)
  {source : Path} (source_written : source.IsWritten)
  (directory : world.disk.isDirectory source = true) {replacements : Replacements}
  (stays : entry.StaysBelow replacements)
  (noNull : hasNull (Path.segmentsOf (entry.relativeTarget replacements)) = false)
  {changed : Disk}
  (made : world.disk.makeDirectory (.fromRoot (stagingPlace world.disk)) = .ok changed)
  {staged : World}
  (ends : entry.stage copier source
    (inside (.fromRoot (stagingPlace world.disk)) (entry.relativeTarget replacements))
    replacements { world with disk := changed } = .ok () staged)

include sound directory stays noNull made ends

theorem stage_starts : ∃ copied : World,
    entry.Starts copier world.disk source (stagingPlace world.disk)
      (Path.segmentsOf (entry.relativeTarget replacements)) copied.disk ∧
    rename (.fromRoot (stagingPlace world.disk ++
      Path.segmentsOf (entry.relativeTarget replacements))) source entry.label replacements
      entry.files.entries copied = .ok () staged := by
  have front_named : ∀ name ∈ Path.segmentsOf (entry.relativeTarget replacements), Path.IsName name :=
    fun _ member => Path.isName_of_inner stays.target member
  have named : ∀ name ∈ stagingPlace world.disk ++
      Path.segmentsOf (entry.relativeTarget replacements), Path.IsName name := fun _ member =>
    isName_of_mem_staging_append sound front_named member
  have led := changed.placeOf_fromRoot named
  let ready : World := { world with disk := changed }
  have ready_sound : ready.disk.Sound := sound_staging sound made
  obtain ⟨copied, copies, altered, -, holds⟩ := copies_ok entry copier ready_sound
    (fun name member => (named name member).1) (stands_staging sound made front_named directory)
    (accepts_staging sound made front_named noNull)
    (by
      rw [led]
      exact holds_staging sound made front_named)
    (rename (.fromRoot (stagingPlace world.disk ++
      Path.segmentsOf (entry.relativeTarget replacements))) source entry.label replacements
      entry.files.entries)
  rw [led] at holds
  unfold ways at holds
  rw [staged_staging sound made] at holds
  rw [inside_eq, Path.fromRoot_div stays.target, stage] at ends
  have before := (altered_staging sound made .unlimited).2
  refine ⟨copied, ⟨⟨sound, altered.sound, altered.current.trans before.current,
    altered.temporary.trans before.temporary, fun place =>
      node?_outside_staging sound made front_named altered⟩,
    contentAt_after_staging sound made front_named altered holds, fun rest there => ?_⟩,
    copies.symm.trans ends⟩
  rcases node?_after_staging sound front_named altered (stagingPlace world.disk ++ rest) with
    within | kept | ⟨above, -, -⟩
  · obtain ⟨inner, rfl⟩ := (List.prefix_append_right_inj _).1 within
    by_cases whole : inner = []
    · rw [whole, List.append_nil]
      exact Or.inl (List.prefix_refl _)
    · rw [← List.append_assoc] at there
      obtain ⟨relative, taken, below⟩ := holds.directory inner whole there
      exact Or.inr ⟨relative, ⟨(List.prefix_append_right_inj _).2 below.1, fun same =>
        below.2 (List.append_cancel_left same)⟩, taken⟩
  · have here := eq_staging_of_within sound made (List.prefix_append _ _)
      (by rw [← kept, there]; exact nofun)
    exact Or.inl (List.append_right_eq_self.1 here ▸ List.nil_prefix)
  · exact Or.inl ((List.prefix_append_right_inj _).1 above)

include source_written

theorem stage_keeps (all : entry.only = false)
    (apart : ∀ pair ∈ entry.files.entries, ∀ other ∈ entry.others copier world.disk source,
      Apart (Path.segmentsOf (replacements.apply pair.2)) other)
    {other : Place} (unlisted : other ∈ entry.others copier world.disk source) :
    entry.Keeps copier world.disk source (stagingPlace world.disk)
      (Path.segmentsOf (entry.relativeTarget replacements)) replacements [] staged.disk := by
  have named : ∀ name ∈ stagingPlace world.disk ++
      Path.segmentsOf (entry.relativeTarget replacements), Path.IsName name := fun _ member =>
    isName_of_mem_staging_append sound (fun _ inside => Path.isName_of_inner stays.target inside)
      member
  obtain ⟨copied, starts, ends⟩ := stage_starts sound directory stays noNull made ends
  have takes : entry.staged copier world.disk source = copier.takes world.disk source := by
    simp [Entry.staged, all]
  refine rename_keeps sound source_written directory (node?_stagingPlace world.disk)
    (by simp [stagingPlace]) named all stays.listed stays.renamed apart ?_ ends
  refine ⟨starts.agree.right_sound, starts.agree.current, ?_, starts.agree.node, fun kept _ => ?_,
    fun rest held => ?_⟩
  · -- the file that is not listed is in it
    obtain ⟨⟨content, taken⟩, -⟩ := (mem_others_iff all sound directory).1 unlisted
    have held := contentAt_eq_some_iff.1 ((starts.file _ _).2 ⟨other, rfl, takes ▸ taken⟩)
    have more : Path.segmentsOf (entry.relativeTarget replacements) ++ other ≠ [] := by
      simp [((mem_listing_iff sound directory).1 (mem_listing_of_takes sound directory taken)).1]
    exact starts.agree.right_sound.directory_of_append more (by rw [held]; exact Option.some_ne_none _)
  · refine Option.ext fun content => ?_
    rw [List.append_assoc, starts.file, takes]
    refine ⟨?_, fun taken => ⟨kept, rfl, taken⟩⟩
    rintro ⟨relative, same, taken⟩
    exact List.append_cancel_left same ▸ taken
  · obtain ⟨content, found⟩ := Option.ne_none_iff_exists'.1 held
    obtain ⟨relative, rfl, copied⟩ := (starts.file rest content).1 found
    refine ⟨relative, rfl, ?_⟩
    by_cases listed : ∃ pair ∈ entry.files.entries, Path.segmentsOf pair.1 = relative
    · exact Or.inr (Or.inl listed)
    · rw [takes] at copied
      exact Or.inl ((mem_others_iff all sound directory).2 ⟨⟨content, copied⟩,
        fun pair member same => listed ⟨pair, member, same⟩⟩)

end Staging

end Archetype.Template.Entry
