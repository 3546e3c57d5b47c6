import Archetype.Proofs.Completions
import Archetype.Proofs.Copying
import Archetype.Proofs.Disk.Contents

namespace Archetype.Disk

structure Accepts (disk : Disk) (target : Path) : Prop where
  noNull : hasNull target.segments = false
  begins : disk.node? (disk.start target.anchor) = some .directory
  way : ∀ place, disk.OnWay target place → disk.node? place = some .directory ∨
    (disk.node? place = none ∧ place <+: disk.placeOf target)

theorem Accepts.congr {disk changed : Disk} {target : Path} (accepts : disk.Accepts target)
    (current : changed.current = disk.current)
    (same : ∀ place, disk.OnWay target place → changed.node? place = disk.node? place) :
    changed.Accepts target := by
  refine ⟨accepts.noNull, ?_, fun place onWay => ?_⟩
  · rw [start_congr current, same (disk.start target.anchor) ⟨[], List.nil_prefix, rfl⟩]
    exact accepts.begins
  · have before := (onWay_congr current).1 onWay
    rw [same place before, placeOf_congr current]
    exact accepts.way place before

theorem Accepts.directory {disk : Disk} {target : Path} (accepts : disk.Accepts target)
    (sound : disk.Sound) (there : disk.node? (disk.placeOf target) = some .directory) {place : Place}
    (onWay : disk.OnWay target place) : disk.node? place = some .directory := by
  refine (accepts.way place onWay).resolve_right ?_
  rintro ⟨absent, rest, whole⟩
  rw [← whole] at there
  by_cases last : rest = []
  · rw [last, List.append_nil, absent] at there
    cases there
  · rw [sound.directory_of_append last (by simp [there])] at absent
    cases absent

theorem Accepts.isDirectory {disk : Disk} {target : Path} (accepts : disk.Accepts target)
    (sound : disk.Sound) (there : disk.node? (disk.placeOf target) = some .directory) :
    disk.isDirectory target = true := by
  refine sound.isDirectory_iff.2 ⟨accepts.noNull, accepts.begins, ?_, there⟩
  exact passes_of_directories fun before starts _ =>
    accepts.directory sound there ⟨before, starts, rfl⟩

theorem Accepts.eq_nil_of_onWay {disk : Disk} {target : Path} (accepts : disk.Accepts target)
    {front : Place} (onWay : disk.OnWay target (disk.placeOf target ++ front))
    (blocked : disk.node? (disk.placeOf target ++ front) ≠ some .directory) : front = [] := by
  have starts := ((accepts.way _ onWay).resolve_left blocked).2
  exact List.prefix_nil.1 ((List.prefix_append_right_inj _).1 (by simpa using starts))

theorem onWay_parent_div_iff {disk : Disk} {base : Path} {text : String} (inner : Path.Inner text)
    (more : Path.segmentsOf text ≠ []) {place : Place} :
    disk.OnWay (base / text).parent place ↔ disk.OnWay base place ∨
      ∃ front, Below (Path.segmentsOf text) front ∧ place = disk.placeOf base ++ front := by
  obtain ⟨front, name, last⟩ := List.eq_nil_or_concat' (Path.segmentsOf text) |>.resolve_left more
  have parent : (base / text).parent = ⟨base.anchor, base.segments ++ front⟩ := by
    rw [Path.div_of_inner base inner, Path.parent, last, ← List.append_assoc, List.dropLast_concat]
  have below : ∀ {other : List String}, Below (Path.segmentsOf text) other ↔ other <+: front := by
    intro other
    rw [last, Below, List.prefix_concat_iff]
    constructor
    · exact fun ⟨starts, apart⟩ => starts.resolve_left apart
    · refine fun starts => ⟨Or.inr starts, fun whole => ?_⟩
      have longer := starts.length_le
      simp only [whole, List.length_append, List.length_singleton] at longer
      omega
  rw [parent, onWay_append_iff]
  refine or_congr_right (exists_congr fun other => ?_)
  rw [below]
  refine and_congr_right fun starts => ?_
  rw [walk_div inner (starts.trans (last ▸ List.prefix_append _ _))]

structure Filled (target : Path) (files : Place → Option Content) (ways : Place → Prop)
    (segments : List String) (content : Content) (before after : Disk) : Prop where
  altered : Altered (.into before target) before after
  accepts : after.Accepts target
  holds : after.Holds (before.placeOf target) (Function.update files segments (some content))
    fun front => ways front ∨ Below segments front

theorem Holds.not_directory_div {disk : Disk} {target : Path} {text : String} (names : Names text)
    {files : Place → Option Content} {ways : Place → Prop}
    (holds : disk.Holds (disk.placeOf target) files ways)
    (vacant : ¬ ways (Path.segmentsOf text)) :
    disk.node? (disk.placeOf (target / text)) ≠ some .directory := by
  rw [placeOf_div disk target names.inner]
  exact fun held => vacant (holds.directory _ names.more held)

theorem altered_into {disk made : Disk} {target : Path} {text : String} (names : Names text)
    (altered : Altered ⟨fun _ => False, fun _ => False, disk.OnWay (target / text).parent⟩ disk
      made) : Altered (.into disk target) disk made := by
  refine altered.mono (fun _ => False.elim) (fun _ => False.elim) fun place onWay => ?_
  rcases (onWay_parent_div_iff names.inner names.more).1 onWay with way | ⟨front, -, rfl⟩
  · exact Or.inr way
  · exact Or.inl (List.prefix_append _ _)

section Into

variable {disk : Disk} {target : Path} (accepts : disk.Accepts target) {text : String}
  (names : Names text)

include accepts names

theorem Accepts.noNull_div : hasNull (target / text).segments = false := by
  rw [Path.div_of_inner target names.inner]
  exact hasNull_append accepts.noNull names.noNull

theorem Accepts.begins_div :
    disk.node? (disk.start (target / text).anchor) = some .directory := by
  rw [Path.div_of_inner target names.inner]
  exact accepts.begins

variable (sound : disk.Sound) {files : Place → Option Content} {ways : Place → Prop}
  (holds : disk.Holds (disk.placeOf target) files ways)
  (clear : ∀ front, Below (Path.segmentsOf text) front → files front = none)
  (vacant : ¬ ways (Path.segmentsOf text))

include sound holds

theorem Accepts.removeFile_of_file {content : Content}
    (held : files (Path.segmentsOf text) = some content) :
    disk.removeFile (target / text) = .ok (disk.erase (disk.placeOf (target / text))) := by
  have file := contentAt_eq_some_iff.1 ((holds.file _).trans held)
  have there : disk.isDirectory target = true :=
    accepts.isDirectory sound (sound.directory_of_append names.more (by simp [file]))
  have found : disk.find? (target / text) = some (.file content.1 content.2) := by
    rw [Path.div_eq_join target names.inner]
    exact (sound.find?_join_iff there fun _ member => Path.isName_of_inner names.inner member).2
      ⟨names.noNull, file⟩
  exact sound.removeFile_of_file found

section Clear

include clear

theorem Accepts.makeable_parent : disk.Makeable (target / text).parent := by
  refine ⟨hasNull_of_subset (List.dropLast_subset _) (accepts.noNull_div names),
    accepts.begins_div names, fun other onWay => ?_⟩
  rcases (onWay_parent_div_iff names.inner names.more).1 onWay with way | ⟨front, below, rfl⟩
  · exact (accepts.way other way).imp_right And.left
  · exact sound.directory_or_absent ((holds.file front).trans (clear front below))

theorem Accepts.removeFile_of_absent
    (absent : disk.node? (disk.placeOf target ++ Path.segmentsOf text) = none) :
    disk.removeFile (target / text) = .error (.code .missing) := by
  have place := placeOf_div disk target names.inner
  have way : ∀ other, disk.OnWay (target / text) other →
      disk.node? other = some .directory ∨ disk.node? other = none := by
    intro other onWay
    rcases (onWay_div_iff names.inner).1 onWay with way | ⟨front, starts, rfl⟩
    · exact (accepts.way other way).imp_right And.left
    · by_cases last : front = Path.segmentsOf text
      · rw [last]
        exact Or.inr absent
      · exact sound.directory_or_absent ((holds.file front).trans (clear front ⟨starts, last⟩))
  rw [← place] at absent
  exact sound.removeFile_of_absent (accepts.noNull_div names) (accepts.begins_div names) way absent

end Clear

include vacant

section Made

omit sound

variable {made : Disk}
  (altered : Altered ⟨fun _ => False, fun _ => False, disk.OnWay (target / text).parent⟩ disk made)
  (directories : ∀ place, disk.OnWay (target / text).parent place →
    made.node? place = some .directory)

include altered

theorem Accepts.not_directory_made :
    made.node? (disk.placeOf (target / text)) ≠ some .directory := by
  have before := holds.not_directory_div names vacant
  have place := placeOf_div disk target names.inner
  rcases altered.node (disk.placeOf (target / text)) with
    free | kept | ⟨way, -, -⟩ | ⟨wrote, -, -⟩
  · exact free.elim
  · rwa [kept]
  · rw [place] at before way
    rcases (onWay_parent_div_iff names.inner names.more).1 way with way | ⟨front, below, inside⟩
    · exact absurd (accepts.eq_nil_of_onWay way before) names.more
    · exact absurd (List.append_cancel_left inside).symm below.2
  · exact wrote.elim

include directories

theorem Accepts.writable_made : made.Writable (target / text) := by
  have blocked := accepts.not_directory_made names holds vacant altered
  refine ⟨accepts.noNull_div names, ?_, ?_, by rwa [altered.placeOf]⟩
  · rw [start_congr altered.current]
    exact directories _ ⟨[], List.nil_prefix, rfl⟩
  · rw [start_congr altered.current]
    refine passes_of_directories fun front starts apart => directories _ ⟨front, ?_, rfl⟩
    obtain ⟨others, name, last⟩ :=
      List.eq_nil_or_concat' (target / text).segments |>.resolve_left fun empty => apart
        (by simpa [empty] using starts)
    rw [Path.parent, last, List.dropLast_concat]
    rw [last] at starts apart
    exact (List.prefix_concat_iff.1 starts).resolve_left apart

theorem Accepts.filled_made (target_written : target.IsWritten) (content : Content) :
    Filled target files ways (Path.segmentsOf text) content disk
      (made.put (made.placeOf (target / text)) (.file content.1 content.2)) := by
  have place := placeOf_div disk target names.inner
  have blocked := accepts.not_directory_made names holds vacant altered
  have writable := accepts.writable_made names holds vacant altered directories
  have into := altered_into names altered
  have file_more : disk.placeOf (target / text) ≠ [] := by simp [place, names.more]
  have kept : ∀ other, disk.OnWay target other →
      (made.put (disk.placeOf (target / text)) (.file content.1 content.2)).node? other =
        some .directory := by
    intro other way
    have directory := directories other
      ((onWay_parent_div_iff names.inner names.more).2 (Or.inl way))
    have apart : disk.placeOf (target / text) ≠ other := by
      rintro rfl
      exact blocked directory
    rw [node?_put made file_more, if_neg apart]
    exact directory
  rw [altered.placeOf]
  refine ⟨into.trans ?_, ⟨accepts.noNull, ?_, fun other way => ?_⟩, ?_⟩
  · have proper : ∀ segment ∈ (target / text).segments, segment = "." ∨ Path.IsSegment segment :=
      fun segment member => Or.inr (Path.isWritten_div target_written text segment member)
    have reachable := into.sound.reachable_walk proper writable.begins writable.passes
    rw [← placeOf, altered.placeOf] at reachable
    exact into.sound.altered_put_file reachable blocked
      (Or.inl (by rw [place]; exact List.prefix_append _ _)) _ _
  · exact kept _ ⟨[], List.nil_prefix, start_congr altered.current _⟩
  · exact Or.inl (kept _ ((onWay_congr altered.current).1 way))
  · rw [place]
    refine holds.put names.more (fun front => ?_) content
    rcases altered.node (disk.placeOf target ++ front) with
      free | same | ⟨way, absent, new⟩ | ⟨wrote, -, -⟩
    · exact free.elim
    · exact Or.inl same
    · refine Or.inr ⟨new, absent, fun inner_more => ?_⟩
      rcases (onWay_parent_div_iff names.inner names.more).1 way with way | ⟨other, below, inside⟩
      · exact absurd (accepts.eq_nil_of_onWay way (by simp [absent])) inner_more
      · rwa [List.append_cancel_left inside]
    · exact wrote.elim

end Made

end Into

end Archetype.Disk

namespace Archetype.Copier

open Archetype.Action Archetype.Disk

structure Prepared (source target : Path) (text : String) (content : Content)
    (files : Place → Option Content) (ways : Place → Prop) (before made : Disk) : Prop where
  sound : made.Sound
  file : made.find? source = some (.file content.1 content.2)
  writable : made.Writable (target / text)
  apart : made.placeOf source ≠ made.placeOf (target / text)
  filled : ∀ written : Content, Filled target files ways (Path.segmentsOf text) written before
    (made.put (made.placeOf (target / text)) (.file written.1 written.2))

section Into

variable {world : World} (sound : world.disk.Sound) {target : Path}
  (accepts : world.disk.Accepts target) {files : Place → Option Content} {ways : Place → Prop}
  (holds : world.disk.Holds (world.disk.placeOf target) files ways) {text : String}
  (names : Names text) (clear : ∀ front, Below (Path.segmentsOf text) front → files front = none)
  (vacant : ¬ ways (Path.segmentsOf text))

include sound accepts holds names clear vacant

theorem remove_from :
    ∃ removed, Action.remove (target / text) world = .ok () { world with disk := removed } ∧
      Altered (.into world.disk target) world.disk removed ∧ removed.Accepts target ∧
        removed.Holds (world.disk.placeOf target)
          (Function.update files (Path.segmentsOf text) none) ways := by
  have place := placeOf_div world.disk target names.inner
  have blocked := holds.not_directory_div names vacant
  have notDirectory : world.disk.isDirectory (target / text) = false := by
    rw [← Bool.not_eq_true, sound.isDirectory_iff]
    exact fun directory => blocked directory.2.2.2
  rw [remove, disk_bind, notDirectory]
  simp only [Bool.false_and, Bool.false_eq_true, ↓reduceIte]
  cases held : files (Path.segmentsOf text) with
  | none =>
      have absent := holds.absent sound names.more held vacant
      have same : Function.update files (Path.segmentsOf text) none = files :=
        Function.update_eq_self_iff.2 held.symm
      rw [accepts.removeFile_of_absent names sound holds clear absent, same]
      exact ⟨world.disk, rfl, Altered.refl sound, accepts, holds⟩
  | some content =>
      have file := contentAt_eq_some_iff.1 ((holds.file _).trans held)
      have there : world.disk.node? (world.disk.placeOf target) = some .directory :=
        sound.directory_of_append names.more (by simp [file])
      rw [accepts.removeFile_of_file names sound holds held]
      refine ⟨_, rfl, sound.altered_erase blocked (by rw [place]; exact List.prefix_append _ _),
        accepts.congr rfl fun other onWay => ?_, ?_⟩
      · have apart : world.disk.placeOf (target / text) ≠ other := by
          rintro rfl
          exact blocked (accepts.directory sound there onWay)
        rw [node?_erase, if_neg fun here => apart here.1]
      · rw [place]
        exact holds.erase names.more

variable (target_written : target.IsWritten) {source : Path} {content : Content}
  (file : world.disk.find? source = some (.file content.1 content.2))
  (outside : ∀ place, world.disk.OnWay source place → ¬ world.disk.placeOf target <+: place)

include target_written file outside

theorem prepare_ok :
    ∃ made, makeDirectories (target / text).parent world = .ok () { world with disk := made } ∧
      Prepared source target text content files ways world.disk made := by
  have written : (target / text).parent.IsWritten :=
    Path.isWritten_parent (Path.isWritten_div target_written text)
  obtain ⟨made, ends, directories⟩ := makeDirectories_ok sound written
    (accepts.makeable_parent names sound holds clear)
  have altered : Within ⟨fun _ => False, fun _ => False, world.disk.OnWay (target / text).parent⟩
      (makeDirectories (target / text).parent) world :=
    within_makeDirectories sound written fun _ way => Or.inr way
  rw [Within, after_of_ok ends] at altered
  have into := altered_into names altered
  refine ⟨made, ends, into.sound, ?_, ?_, ?_, ?_⟩
  · exact into.find?_eq sound (fun place way => ⟨outside place way, id⟩) file
  · exact accepts.writable_made names holds vacant altered directories
  · rw [into.placeOf, into.placeOf, placeOf_div _ _ names.inner]
    intro same
    exact outside _ ⟨_, List.prefix_refl _, rfl⟩ (same ▸ List.prefix_append _ _)
  · exact accepts.filled_made names holds vacant altered directories target_written

theorem copyFile_into :
    ∃ reached, Copier.copyFile (.path source) (target / text) world = .ok (target / text) reached ∧
      Filled target files ways (Path.segmentsOf text) content world.disk reached.disk := by
  obtain ⟨made, ends, prepared⟩ :=
    prepare_ok sound accepts holds names clear vacant target_written file outside
  have made_sound : ({ world with disk := made } : World).disk.Sound := prepared.sound
  refine ⟨{ world with
    disk := made.put (made.placeOf (target / text)) (.file content.1 content.2) }, ?_,
      prepared.filled content⟩
  rw [Copier.copyFile, bind_ok ends,
    bind_ok (copyFile_ok made_sound prepared.file prepared.writable prepared.apart)]
  rfl

end Into

end Archetype.Copier
