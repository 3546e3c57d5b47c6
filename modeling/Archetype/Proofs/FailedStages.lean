import Archetype.Proofs.Conduct
import Archetype.Proofs.Runs

namespace Archetype.Template.Entry

open Archetype.Action Archetype.Disk Archetype.Copier

section Rename

variable {copied source : Path} {label : String} {replacements : Replacements}

theorem rename_append (front back : List (String × String)) :
    rename copied source label replacements (front ++ back) = (do
      rename copied source label replacements front
      rename copied source label replacements back) := by
  induction front with
  | nil => simp [rename]
  | cons pair front ih =>
      simp only [List.cons_append, rename, ih, bind_assoc]
      refine bind_congr fun disk => ?_
      split <;> simp only [bind_assoc]

theorem isFile_of_rename {pair : String × String} {others : List (String × String)}
    {world reached : World}
    (ends : rename copied source label replacements (pair :: others) world = .ok () reached) :
    world.disk.isFile (source / pair.1) = true := by
  rw [rename_cons] at ends
  cases file : world.disk.isFile (source / pair.1) with
  | true => rfl
  | false =>
      rw [file] at ends
      cases ends

end Rename

def withFiles (entry : Entry) (files : Table String String) : Entry :=
  { entry with files }

section Fields

variable (entry : Entry) (files : Table String String)

@[simp] theorem withFiles_files : (entry.withFiles files).files = files := rfl

@[simp] theorem withFiles_only : (entry.withFiles files).only = entry.only := rfl

@[simp] theorem withFiles_label : (entry.withFiles files).label = entry.label := rfl

end Fields

section Stage

variable {entry : Entry} {copier : Copier} {source : Path} {replacements : Replacements}

theorem stage_append {copied : Path} {first : Table String String} {back : List (String × String)}
    (whole : entry.files.entries = first.entries ++ back) :
    entry.stage copier source copied replacements = (do
      (entry.withFiles first).stage copier source copied replacements
      rename copied source entry.label replacements back) := by
  unfold stage
  rw [withFiles_files, withFiles_only, withFiles_label, whole, rename_append]
  cases entry.only with
  | true => rfl
  | false => exact (bind_assoc _ _ _).symm

theorem exists_stage_of_mem {copied : Path} {world reached : World}
    (ends : entry.stage copier source copied replacements world = .ok () reached)
    {pair : String × String} (member : pair ∈ entry.files.entries) :
    ∃ (first : Table String String) (between : World), first.entries ⊆ entry.files.entries ∧
      (entry.withFiles first).stage copier source copied replacements world =
        .ok () between ∧
      between.disk.isFile (source / pair.1) = true := by
  obtain ⟨front, back, whole⟩ := List.append_of_mem member
  have distinct := entry.files.distinct
  rw [whole] at distinct
  let first : Table String String := ⟨front, distinct.sublist (List.sublist_append_left _ _)⟩
  rw [stage_append (show entry.files.entries = first.entries ++ pair :: back from whole)] at ends
  obtain ⟨_, between, begins, continues⟩ := bind_eq_ok_iff.1 ends
  exact ⟨first, between, by simp [first, whole], begins, isFile_of_rename continues⟩

variable (source_written : source.IsWritten) (stays : entry.StaysBelow replacements)
  {world : World} (sound : world.disk.Sound) {changed : Disk}
  (made : world.disk.makeDirectory (.fromRoot (stagingPlace world.disk)) = .ok changed)
  (directory : world.disk.isDirectory source = true)
  (apart : Apart (world.disk.placeOf source) world.disk.temporary)

include source_written stays sound made directory apart

theorem isFile_of_stage {staged : World}
    (ends : entry.stage copier source
      (inside (.fromRoot (stagingPlace world.disk)) (entry.relativeTarget replacements))
      replacements { world with disk := changed } = .ok () staged)
    {pair : String × String} (member : pair ∈ entry.files.entries) :
    world.disk.isFile (source / pair.1) = true := by
  obtain ⟨first, between, among, begins, file⟩ := exists_stage_of_mem ends member
  have first_stays : (entry.withFiles first).StaysBelow replacements :=
    ⟨stays.target, fun other inside => stays.listed other (among inside),
      fun other inside => stays.renamed other (among inside)⟩
  have agree := agree_outside_staging source_written first_stays sound made begins
  have same := agree.find?_eq fun place (onWay : world.disk.OnWay (source / pair.1) place) => by
    rcases onWay_div (stays.listed pair member) onWay with way | within
    · have held := sound.directory_of_onWay directory way
      exact outside_of_held sound (by simp [held])
    · exact not_prefix_of_apart (apart_stagingPlace apart) within
  rwa [isFile, same] at file

end Stage

structure Clean (entry : Entry) (replacements : Replacements) : Prop where
  target : hasNull (Path.segmentsOf (entry.relativeTarget replacements)) = false
  listed : ∀ pair ∈ entry.files.entries, hasNull (Path.segmentsOf pair.1) = false
  renamed : ∀ pair ∈ entry.files.entries,
    hasNull (Path.segmentsOf (replacements.apply pair.2)) = false

def reporting (entry : Entry) : Conduct where
  logs := Event.OfCopying
  fails failure := ∃ cause, failure = .of cause (some entry.label) ∧ cause.stage = .transform

theorem copies_reporting (entry : Entry) : entry.reporting.orFile.Copies where
  logs _ kind := kind
  file error := Or.inl ⟨error, rfl⟩

theorem Clean.observes_stage {entry : Entry} {replacements : Replacements}
    (clean : entry.Clean replacements) (copier : Copier) {copied source : Path}
    (copied_clean : copied.Clean) (source_clean : source.Clean) :
    (entry.stage copier source copied replacements).Observes entry.reporting.orFile :=
  Entry.observes_stage copier entry.copies_reporting (fun _ => Or.inr ⟨_, rfl, rfl⟩)
    (Or.inl copied_clean) (Or.inl source_clean) (fun pair member => Or.inl (clean.listed pair member))
    fun pair member => Or.inl (clean.renamed pair member)

section Missing

variable {entry : Entry} (copier : Copier) {template : Path} (target : Path)
  (template_written : template.IsWritten) {replacements : Replacements}
  (inner : entry.Inner replacements) {world : World} (sound : world.disk.Sound)
  (apart : Apart (world.disk.placeOf template) world.disk.temporary)
  (directory : world.disk.isDirectory (template / entry.source) = true)
  {pair : String × String} (member : pair ∈ entry.files.entries)
  (missing : world.disk.isFile (template / entry.source / pair.1) = false)

include member

theorem isEmpty_files_of_mem : entry.files.isEmpty = false := by
  cases plain : entry.files.isEmpty with
  | false => rfl
  | true =>
      rw [List.isEmpty_iff.1 plain] at member
      cases member

include template_written inner sound apart directory missing

theorem stage_of_missing {changed : Disk}
    (made : world.disk.makeDirectory (.fromRoot (stagingPlace world.disk)) = .ok changed) :
    ∃ failure between, entry.stage copier (template / entry.source)
      (inside (.fromRoot (stagingPlace world.disk)) (entry.relativeTarget replacements))
      replacements { world with disk := changed } = .error failure between := by
  have source_apart : Apart (world.disk.placeOf (template / entry.source)) world.disk.temporary := by
    rw [placeOf_div world.disk template inner.source]
    exact List.append_nil world.disk.temporary ▸ apart.append _ []
  cases ends : entry.stage copier (template / entry.source)
      (inside (.fromRoot (stagingPlace world.disk)) (entry.relativeTarget replacements))
      replacements { world with disk := changed } with
  | error failure between => exact ⟨failure, between, rfl⟩
  | ok value staged =>
      have file := isFile_of_stage (Path.isWritten_div template_written _) inner.stays sound made
        directory source_apart ends member
      rw [missing] at file
      cases file

theorem deliveries_of_missing :
    entry.deliveries copier template target replacements world = [] := by
  have renames := isEmpty_files_of_mem member
  simp only [deliveries, directory, renames, Bool.not_true, Bool.false_eq_true, ↓reduceIte]
  split
  · rfl
  · rename_i changed made
    obtain ⟨failure, between, fails⟩ :=
      stage_of_missing copier template_written inner sound apart directory member missing made
    rw [collect, fails]

variable (clean : entry.Clean replacements)
  (temporary_clean : hasNull world.disk.temporary = false)

include clean temporary_clean

theorem copyRenamed_of_missing :
    ∃ failure reached, entry.copyRenamed copier (template / entry.source) target replacements
      world = .error failure reached ∧ entry.reporting.orFile.fails failure := by
  have staging_clean : (Path.fromRoot (stagingPlace world.disk)).Clean :=
    noNull_stagingPlace temporary_clean
  have source_clean : (template / entry.source).Clean := (sound.isDirectory_iff.1 directory).1
  rw [copyRenamed_eq]
  unfold withStaging
  cases made : world.disk.makeDirectory (.fromRoot (stagingPlace world.disk)) with
  | error refused =>
      have coded := world.disk.coded_makeDirectory staging_clean
      rw [made] at coded
      cases coded with
      | code code =>
          simp only [made]
          exact ⟨_, _, rfl, Or.inl ⟨_, rfl⟩⟩
  | ok changed =>
      obtain ⟨failure, between, fails⟩ :=
        stage_of_missing copier template_written inner sound apart directory member missing made
      have copied_clean : (inside (.fromRoot (stagingPlace world.disk))
          (entry.relativeTarget replacements)).Clean := by
        rw [inside_eq]
        exact Path.clean_div staging_clean clean.target
      simp only [made, bind_error fails]
      exact ⟨failure, _, rfl, (clean.observes_stage copier copied_clean source_clean).failure fails⟩

theorem copy_of_missing (target_written : target.IsWritten) :
    ∃ cause reached, entry.copy copier template target replacements world =
      .error (.of cause (some entry.label)) reached ∧ cause.stage = .transform ∧
        Same world.disk reached.disk := by
  have renames := isEmpty_files_of_mem member
  obtain ⟨failure, reached, fails, permitted⟩ := copyRenamed_of_missing copier target
    template_written inner sound apart directory member missing clean temporary_clean
  let explain (error : FileError) : Failure :=
    .of (.notCopied (template / entry.source).toText error) (some entry.label)
  have explained : ∀ error, entry.reporting.fails (explain error) := fun error => ⟨_, rfl, rfl⟩
  obtain ⟨_, reports, cause, rfl, stage⟩ := explaining_fails fails permitted explained
  have ends : entry.copy copier template target replacements world =
      .error (.of cause (some entry.label)) reached := by
    rw [copy, disk_bind, directory, renames]
    exact reports
  have altered : Within .nothing (entry.copy copier template target replacements) world :=
    within_copy template_written target_written sound inner.stays fun delivery delivered => by
      rw [deliveries_of_missing copier target template_written inner sound apart directory member
        missing] at delivered
      cases delivered
  rw [Within, after, ends] at altered
  exact ⟨cause, reached, ends, stage, altered.same sound⟩

end Missing

theorem copyAll_append (copier : Copier) (template target : Path) (replacements : Replacements)
    (front back : List Entry) :
    copyAll copier template target replacements (front ++ back) = (do
      let first ← copyAll copier template target replacements front
      let others ← copyAll copier template target replacements back
      return first ++ others) := by
  induction front with
  | nil => simp [copyAll]
  | cons entry front ih =>
      simp only [List.cons_append, copyAll, ih, bind_assoc, pure_bind, List.append_assoc]

end Archetype.Template.Entry

namespace Archetype.Template.Descriptor

open Archetype.Action Archetype.Disk Archetype.Copier

section Run

variable {world middle : World} (sound : world.disk.Sound) {template target : Path}
  (template_written : template.IsWritten) (target_written : target.IsWritten) {copier : Copier}
  {replacements : Replacements} {front : List Entry} {written : List Path}
  (copies : Entry.copyAll copier template target replacements front world = .ok written middle)

include sound template_written target_written copies

theorem isFile_after_front (separate : world.disk.Separate template target)
    (inners : ∀ entry ∈ front, entry.Inner replacements)
    (inner : ∀ delivery ∈ Entry.allDeliveries copier template target replacements front world,
      Path.Inner delivery.relative) {source : String} (source_inner : Path.Inner source)
    (directory : world.disk.isDirectory (template / source) = true) :
    middle.disk.isDirectory (template / source) = true ∧ ∀ text, Path.Inner text →
      middle.disk.isFile (template / source / text) =
        world.disk.isFile (template / source / text) := by
  obtain ⟨runs, ran, -, -⟩ := Entry.copyAll_eq_ok template_written target_written inners sound
    separate inner copies
  have agree := (separate.preserves ran.lays sound ran.stays).agree_source source_inner directory
  refine ⟨(agree.isDirectory_eq fun _ => Or.inl).trans directory, fun text text_inner => ?_⟩
  unfold isFile
  rw [agree.find?_eq fun place onWay => ?_]
  rcases onWay_div text_inner onWay with way | within
  · exact Or.inl way
  · rw [placeOf_div world.disk template source_inner] at within
    exact Or.inr (Or.inl ((List.prefix_append _ _).trans within))

/-- A run that comes to an entry of which a listed file is then missing fails in a fault that names the
entry, and leaves the disk as the entries before it have left it. -/
theorem copyFiles_of_missing (descriptor : Descriptor) {entry : Entry} {back : List Entry}
    (whole : descriptor.entries world.disk template = front ++ entry :: back)
    (stays : ∀ earlier ∈ front, earlier.StaysBelow replacements)
    (inner : entry.Inner replacements) (clean : entry.Clean replacements)
    (apart : Apart (world.disk.placeOf template) world.disk.temporary)
    (temporary_clean : hasNull world.disk.temporary = false)
    (directory : middle.disk.isDirectory (template / entry.source) = true)
    (missing : ∃ pair ∈ entry.files.entries,
      middle.disk.isFile (template / entry.source / pair.1) = false) :
    ∃ cause reached, descriptor.copyFiles copier template target replacements world =
      .error (.of cause (some entry.label)) reached ∧ cause.stage = .transform ∧
        Same middle.disk reached.disk := by
  obtain ⟨pair, member, absent⟩ := missing
  have altered : Within .unlimited (Entry.copyAll copier template target replacements front)
      world :=
    Entry.within_copyAll template_written target_written sound stays fun _ _ =>
      ⟨fun _ _ => Or.inl trivial, Or.inl trivial, fun _ _ => Or.inl trivial⟩
  rw [Within, after_of_ok copies] at altered
  let noted : World :=
    { middle with journal := middle.journal ++ [.noted (.applying entry.label)] }
  have noted_sound : noted.disk.Sound := altered.sound
  have noted_apart : Apart (noted.disk.placeOf template) noted.disk.temporary := by
    rw [altered.placeOf, altered.temporary]
    exact apart
  obtain ⟨cause, reached, ends, stage, same⟩ := Entry.copy_of_missing copier target
    template_written inner noted_sound noted_apart directory member absent clean
    (altered.temporary ▸ temporary_clean) target_written
  refine ⟨cause, reached, ?_, stage, same⟩
  rw [copyFiles, disk_bind, whole, Entry.copyAll_append]
  refine (bind_ok copies _).trans (bind_error ?_)
  exact (bind_ok rfl _).trans (bind_error ends)

end Run

def brokenSample : Descriptor where
  transforms :=
    [{ source := "src", target? := some "out" },
      { source := "src", target? := some "lib",
        files := Table.ofList [("a.txt", "\x7b\x7bname\x7d\x7d.txt"), ("c.txt", "d.txt")] }]

theorem copyFiles_of_missing_sample :
    ∃ written middle cause reached,
      Entry.copyAll .standard (.ofText "/tmp/w/t") (.ofText "/tmp/w/p") sampleReplacements
        [{ source := "src", target? := some "out" }] sampleWorld = .ok written middle ∧
      middle.disk.isFile (.ofText "/tmp/w/p/out/a.txt") = true ∧
      brokenSample.copyFiles .standard (.ofText "/tmp/w/t") (.ofText "/tmp/w/p") sampleReplacements
        sampleWorld = .error (.of cause (some "src -> lib")) reached ∧
      cause.stage = .transform ∧ Same middle.disk reached.disk := by
  obtain ⟨written, middle, copies, checked⟩ := ok_of_check
    (Entry.copyAll .standard (.ofText "/tmp/w/t") (.ofText "/tmp/w/p") sampleReplacements
      [{ source := "src", target? := some "out" }]) sampleWorld
    (fun disk => disk.isFile (.ofText "/tmp/w/p/out/a.txt")) (by decide +kernel)
  obtain ⟨directory, still⟩ := isFile_after_front sound_sampleWorld (Path.isWritten_ofText _)
    (Path.isWritten_ofText _) copies (by decide +kernel) (by decide +kernel) (by decide +kernel)
    (by decide +kernel : Path.Inner "src") (by decide +kernel)
  have absent : middle.disk.isFile (Path.ofText "/tmp/w/t" / "src" / "c.txt") = false :=
    (still "c.txt" (by decide +kernel)).trans (by decide +kernel)
  obtain ⟨cause, reached, ends, stage, same⟩ := copyFiles_of_missing sound_sampleWorld
    (Path.isWritten_ofText _) (Path.isWritten_ofText _) copies brokenSample rfl (by decide +kernel)
    (by decide +kernel) ⟨by decide +kernel, by decide +kernel, by decide +kernel⟩
    (by decide +kernel) (by decide +kernel) directory
    ⟨("c.txt", "d.txt"), by decide +kernel, absent⟩
  exact ⟨written, middle, cause, reached, copies, checked, ends, stage, same⟩

end Archetype.Template.Descriptor
