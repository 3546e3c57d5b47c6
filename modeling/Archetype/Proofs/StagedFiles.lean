import Archetype.Proofs.ReportedFiles
import Archetype.Proofs.UnlistedFiles

namespace Archetype.Disk

/-- All that is missing on the way to a path lies above its place. -/
def MissingAbove (disk : Disk) (path : Path) : Prop :=
  ∀ place, disk.OnWay path place → disk.node? place = none → place <+: disk.placeOf path

theorem missingAbove_of_inner (disk : Disk) {path : Path} (written : path.IsWritten)
    (inner : ".." ∉ path.segments) : disk.MissingAbove path :=
  fun _ onWay _ => prefix_of_onWay written inner onWay

theorem MissingAbove.div {disk : Disk} {path : Path} (missing : disk.MissingAbove path) {text : String}
    (inner : Path.Inner text) : disk.MissingAbove (path / text) := by
  intro place onWay absent
  rw [placeOf_div disk path inner]
  rcases (onWay_div_iff inner).1 onWay with way | ⟨front, starts, rfl⟩
  · exact (missing place way absent).trans (List.prefix_append _ _)
  · exact (List.prefix_append_right_inj _).2 starts

section Absent

variable {disk : Disk} (sound : disk.Sound) {path : Path}
  (absent : disk.node? (disk.placeOf path) = none)

include sound absent

theorem node?_div_of_absent {text : String} (inner : Path.Inner text) :
    disk.node? (disk.placeOf (path / text)) = none := by
  rw [placeOf_div disk path inner]
  exact sound.none_of_prefix absent (List.prefix_append _ _)

theorem isDirectory_join_of_absent (rest : List String) :
    disk.isDirectory (path.join ⟨.current, rest⟩) = false := by
  refine Bool.eq_false_iff.2 fun directory => ?_
  rw [Path.join_of_current path rfl] at directory
  have there := sound.directory_of_onWay directory ⟨path.segments, List.prefix_append _ _, rfl⟩
  exact nomatch absent.symm.trans there

end Absent

theorem find?_prune {disk : Disk} (sound : disk.Sound) {base : Place} (more : base ≠ []) {path : Path}
    (outside : ∀ place, disk.OnWay path place → ¬ base <+: place) :
    (disk.prune base).find? path = disk.find? path := by
  have agree : Agree (fun place => ¬ base <+: place) disk (disk.prune base) :=
    ⟨sound, sound.prune more, rfl, rfl, fun place outside => by
      rw [node?_prune disk more, if_neg outside]⟩
  exact agree.find?_eq outside

/-! ## Files at the places of their paths -/

namespace Lays

variable {laid : List (Write × Place)} {before after : Disk} (lays : Lays laid before after)
  (sound : before.Sound)

include lays sound

theorem isDirectory_before {target : Path} (stays : ∀ item ∈ laid, item.1.StaysBelow target)
    (missing : before.MissingAbove target) {item : Write × Place} (member : item ∈ laid)
    (reached : after.isDirectory item.1.path = true)
    (directory : before.node? (before.placeOf item.1.path) = some .directory) :
    before.isDirectory item.1.path = true := by
  have within : before.placeOf target <+: before.placeOf item.1.path := (stays item member).placeOf
  -- a place on the way that is not there yet lies above the directory
  have way : ∀ place, before.OnWay item.1.path.parent place →
      before.node? place = some .directory := by
    intro place onWay
    have there := lays.way member onWay
    refine (sound.directory_or_absent ?_).resolve_right fun absent => ?_
    · by_contra file
      exact lays.keepsFile file (contentAt_eq_none (Or.inr there))
    · have starts : place <+: before.placeOf item.1.path := by
        rcases (stays item member).onWay_parent onWay with same | ⟨-, onTarget | below⟩
        · rw [same] at onWay ⊢
          exact missing place (Copier.onWay_of_parent onWay) absent
        · exact (missing place onTarget absent).trans within
        · exact below.1
      rw [sound.none_of_prefix absent starts] at directory
      cases directory
  obtain ⟨noNull, -, -, -⟩ := (lays.sound sound).isDirectory_iff.1 reached
  exact sound.isDirectory_iff.2 ⟨noNull, way _ ⟨[], List.nil_prefix, rfl⟩,
    passes_of_directories fun front starts apart =>
      way _ ⟨front, segments_eq_of_parent starts apart, rfl⟩, directory⟩

theorem eq_placeOf {target : Path} (stays : ∀ item ∈ laid, item.1.StaysBelow target)
    (missing : before.MissingAbove target)
    (proper : ∀ item ∈ laid, before.placeOf item.1.path ≠ before.placeOf target)
    {item : Write × Place} (member : item ∈ laid)
    (vacant : before.isDirectory item.1.path = false)
    (free : ∀ other ∈ laid, ¬ Below (before.placeOf other.1.path) (before.placeOf item.1.path)) :
    item.2 = before.placeOf item.1.path := by
  rcases lays.isFile_or_inside member sound with ⟨-, here⟩ | ⟨name, -, -, reached, -⟩
  · exact here
  have there := ((lays.sound sound).isDirectory_iff.1 reached).2.2.2
  rw [lays.led] at there
  have blocked : before.node? (before.placeOf item.1.path) ≠ some .directory := fun directory => by
    rw [lays.isDirectory_before sound stays missing member reached directory] at vacant
    cases vacant
  obtain ⟨other, inside, onWay⟩ := ((lays.directory_iff _).1 there).resolve_left blocked
  rcases (stays other inside).onWay_parent onWay with same | ⟨-, way | below⟩
  · exact absurd (by rw [same]) (proper other inside)
  · -- nothing can be there yet, so it lies above the target
    have absent : before.node? (before.placeOf item.1.path) = none := by
      refine (sound.directory_or_absent ?_).resolve_left blocked
      by_contra file
      exact lays.keepsFile file (contentAt_eq_none (Or.inr there))
    have above := missing _ way absent
    have within : before.placeOf target <+: before.placeOf item.1.path := (stays item member).placeOf
    exact absurd (above.eq_of_length_le within.length_le) (proper item member)
  · exact absurd below (free other inside)

theorem node_elsewhere {place : Place} (apart : ∀ item ∈ laid, item.2 ≠ place) :
    after.node? place = before.node? place ∨
      before.node? place = none ∧ after.node? place = some .directory ∧
        ∃ item ∈ laid, before.OnWay item.1.path.parent place := by
  obtain kept | ⟨absent, made⟩ := lays.node_of_nowhere sound (List.forall_mem_map.2 apart)
  · exact Or.inl kept
  · refine Or.inr ⟨absent, made, ((lays.directory_iff place).1 made).resolve_left ?_⟩
    rw [absent]
    exact nofun

end Lays

end Archetype.Disk

namespace Archetype.Copier

open Archetype.Action Archetype.Disk

/-! ## Copies that keep the paths of their files -/

structure Carried (copier : Copier) (before : Disk) (source target : Path)
    (replacements? : Option Replacements) (written : List Path) (after : Disk) : Prop where
  sound : after.Sound
  current : after.current = before.current
  path : ∀ path ∈ written, ∃ relative content, copier.takes before source relative = some content ∧
    path = target.join ⟨.current, relative⟩
  file : ∀ relative content, copier.takes before source relative = some content →
    let arrived := copier.delivered (effective replacements?) (source.join ⟨.current, relative⟩) content
    after.find? (target.join ⟨.current, relative⟩) = some (.file arrived.1 arrived.2)
  other : ∀ place, (∀ path ∈ written, before.placeOf path ≠ place) →
    after.node? place = before.node? place ∨
      before.node? place = none ∧ after.node? place = some .directory ∧
        ∃ path ∈ written, before.OnWay path.parent place

section Plain

variable {copier : Copier} {before after : Disk} (sound : before.Sound) {source target : Path}
  (directory : before.isDirectory source = true) {replacements? : Option Replacements}
  (plain : ∀ relative ∈ listing before source,
    relativeText (effective replacements?) relative = "/".intercalate relative)
  {relative : List String} {content : Content}
  (takes : copier.takes before source relative = some content)

include sound directory takes

theorem placeOf_join_of_takes (target : Path) :
    before.placeOf (target.join ⟨.current, relative⟩) = before.placeOf target ++ relative := by
  rw [placeOf_join_of_current before target rfl]
  exact walk_names (fun _ =>
    isName_of_mem_listing sound (mem_listing_of_takes sound directory takes)) _

theorem file_of_takes :
    relative ≠ [] ∧
      before.node? (before.placeOf source ++ relative) = some (.file content.1 content.2) :=
  ⟨((mem_listing_iff sound directory).1 (mem_listing_of_takes sound directory takes)).1,
    (takes_eq_some_iff.1 takes).2.2⟩

include plain

theorem path_of_takes :
    (copier.write target (effective replacements?) source relative content).path =
      target.join ⟨.current, relative⟩ := by
  have listed := mem_listing_of_takes sound directory takes
  have named : ∀ name ∈ relative, Path.IsName name := fun _ => isName_of_mem_listing sound listed
  refine (destination_eq target _ relative).trans ?_
  rw [plain relative listed, Path.div_eq_join target (Path.inner_intercalate named),
    Path.segmentsOf_intercalate fun name member => (named name member).1]

omit plain takes in
theorem mem_treePlan_iff {write : Write} :
    write ∈ copier.treePlan before target replacements? source ↔ ∃ relative content,
      copier.takes before source relative = some content ∧
        write = copier.write target (effective replacements?) source relative content := by
  rw [Template.Entry.treePlan_eq sound directory, List.mem_filterMap]
  constructor
  · rintro ⟨relative, -, planned⟩
    obtain ⟨content, takes, same⟩ := Option.map_eq_some_iff.1 planned
    exact ⟨relative, content, takes, same.symm⟩
  · rintro ⟨relative, content, takes, rfl⟩
    exact ⟨relative, mem_listing_of_takes sound directory takes, by rw [takes]; rfl⟩

variable (missing : before.MissingAbove target)
  (vacant : ∀ relative content, copier.takes before source relative = some content →
    before.isDirectory (target.join ⟨.current, relative⟩) = false)
  {laid : List (Write × Place)}
  (follows : Follows laid target (copier.treePlan before target replacements? source) before after)

omit takes in
include follows in
theorem exists_takes {item : Write × Place} (member : item ∈ laid) :
    ∃ relative content, copier.takes before source relative = some content ∧
      item.1 = copier.write target (effective replacements?) source relative content ∧
        item.1.path = target.join ⟨.current, relative⟩ ∧
          before.placeOf item.1.path = before.placeOf target ++ relative := by
  obtain ⟨relative, content, takes, same⟩ := (mem_treePlan_iff sound directory).1
    (follows.writes ▸ List.mem_map_of_mem member)
  have path : (copier.write target (effective replacements?) source relative content).path =
      target.join ⟨.current, relative⟩ := path_of_takes sound directory plain takes
  rw [same, path]
  exact ⟨relative, content, takes, rfl, rfl, placeOf_join_of_takes sound directory takes target⟩

omit takes in
include missing vacant follows in
theorem eq_placeOf_of_follows {item : Write × Place} (member : item ∈ laid) :
    item.2 = before.placeOf item.1.path := by
  obtain ⟨relative, content, takes, -, path, led⟩ :=
    exists_takes sound directory plain follows member
  obtain ⟨-, file⟩ := file_of_takes sound directory takes
  refine follows.lays.eq_placeOf sound follows.stays missing (fun other inside whole => ?_) member
    (path ▸ vacant relative content takes) fun other inside below => ?_
  · obtain ⟨_, _, other_takes, -, -, other_led⟩ := exists_takes sound directory plain follows inside
    exact (file_of_takes sound directory other_takes).1
      (List.append_right_eq_self.1 (other_led.symm.trans whole))
  · obtain ⟨_, _, other_takes, -, -, other_led⟩ := exists_takes sound directory plain follows inside
    obtain ⟨-, other_file⟩ := file_of_takes sound directory other_takes
    rw [led, other_led] at below
    exact sound.not_below (before.placeOf source) (by rw [file]; exact nofun)
      (by rw [other_file]; exact nofun) ⟨(List.prefix_append_right_inj _).1 below.1,
        fun same => below.2 (congrArg _ same)⟩

include missing vacant follows in
theorem find?_of_follows :
    let arrived := copier.delivered (effective replacements?) (source.join ⟨.current, relative⟩) content
    after.find? (target.join ⟨.current, relative⟩) = some (.file arrived.1 arrived.2) := by
  have lays := follows.lays
  obtain ⟨item, member, same⟩ : ∃ item ∈ laid, item.1 =
      copier.write target (effective replacements?) source relative content :=
    List.mem_map.1 (follows.writes ▸
      (mem_treePlan_iff sound directory).2 ⟨relative, content, takes, rfl⟩)
  have path : item.1.path = target.join ⟨.current, relative⟩ :=
    same ▸ path_of_takes sound directory plain takes
  have led := placeOf_join_of_takes sound directory takes target
  have held : after.contentAt (before.placeOf item.1.path) = some item.1.content := by
    rw [lays.contentAt_eq]
    refine overlay_of_mem (List.mem_map.2 ⟨item, member, ?_⟩)
      (List.forall_mem_map.2 fun other inside landed => ?_) _
    · rw [eq_placeOf_of_follows sound directory plain missing vacant follows member]
    · obtain ⟨_, _, other_takes, other_same, -, other_led⟩ :=
        exists_takes sound directory plain follows inside
      rw [eq_placeOf_of_follows sound directory plain missing vacant follows inside, other_led, path,
        led] at landed
      obtain rfl := List.append_cancel_left landed
      obtain rfl := Option.some.inj (takes.symm.trans other_takes)
      rw [other_same, same]
  have found := lays.find?_path member sound (contentAt_eq_some_iff.1 held)
  rwa [path, same] at found

omit plain takes in
theorem Carried.contentAt_eq {written : List Path}
    (carried : Carried copier before source target replacements? written after)
    (absent : before.node? (before.placeOf target) = none) (place : Place) :
    after.contentAt (before.placeOf target ++ place) =
      (copier.takes before source place).map
        (copier.delivered (effective replacements?) (source.join ⟨.current, place⟩)) := by
  cases takes : copier.takes before source place with
  | some content =>
      have held := (carried.sound.find?_cases (carried.file place content takes)).1
      rw [placeOf_congr carried.current, placeOf_join_of_takes sound directory takes] at held
      exact contentAt_eq_some_iff.2 held
  | none =>
      have nothing : before.node? (before.placeOf target ++ place) = none :=
        sound.none_of_prefix absent (List.prefix_append _ _)
      refine contentAt_eq_none ((carried.other _ fun path member led => ?_).imp (·.trans nothing)
        fun made => made.2.1)
      obtain ⟨relative, content, taken, rfl⟩ := carried.path path member
      rw [placeOf_join_of_takes sound directory taken] at led
      rw [← List.append_cancel_left led, taken] at takes
      cases takes

end Plain

section Copy

variable {copier : Copier} {world reached : World} (sound : world.disk.Sound) {source target : Path}
  (source_written : source.IsWritten) (target_written : target.IsWritten)
  {replacements? : Option Replacements}
  (plain : ∀ relative ∈ listing world.disk source,
    relativeText (effective replacements?) relative = "/".intercalate relative)
  (outside : ∀ relative ∈ listing world.disk source,
    ¬ world.disk.placeOf target <+: world.disk.placeOf source ++ relative)
  (missing : world.disk.MissingAbove target)
  (vacant : ∀ relative content, copier.takes world.disk source relative = some content →
    world.disk.isDirectory (target.join ⟨.current, relative⟩) = false)

include sound source_written target_written plain outside missing vacant

theorem copyTree_carries {written : List Path}
    (ends : copier.copyTree target [source] replacements? world = .ok written reached) :
    Carried copier world.disk source target replacements? written reached.disk := by
  have directory := isDirectory_of_copyTree ends
  have inner : ∀ delivery ∈ copier.treeDeliveries target source replacements? world,
      Path.Inner delivery.relative := by
    intro delivery member
    obtain ⟨-, -, relative, listed, same⟩ :=
      of_mem_treeDeliveries sound source_written target_written member
    rw [same, plain relative listed]
    exact Path.inner_intercalate fun _ => isName_of_mem_listing sound listed
  obtain ⟨laid, follows, rfl, -, -⟩ :=
    copyTree_eq_ok sound source_written target_written outside inner ends
  refine ⟨follows.lays.sound sound, follows.lays.current, List.forall_mem_map.2 fun item member => ?_,
    fun relative content takes =>
      find?_of_follows sound directory plain takes missing vacant follows, fun place apart => ?_⟩
  · obtain ⟨relative, content, takes, -, path, -⟩ :=
      exists_takes sound directory plain follows member
    exact ⟨relative, content, takes, path⟩
  · refine (follows.lays.node_elsewhere sound fun item member => ?_).imp_right
      fun ⟨absent, made, item, member, onWay⟩ => ⟨absent, made, _, List.mem_map_of_mem member, onWay⟩
    rw [eq_placeOf_of_follows sound directory plain missing vacant follows member]
    exact apart _ (List.mem_map_of_mem member)

end Copy

end Archetype.Copier

namespace Archetype.Template.Entry

open Archetype.Action Archetype.Disk Archetype.Copier

/-! ## Files in a temporary directory -/

/-- A listed file that has been moved holds what a file of the directory holds: what it held itself,
unless it has been read in the temporary directory, where others may have been moved to it. -/
structure Stems (origin : Disk) (source : Path) (base : Place) (file : String) (content : Content) :
    Prop where
  somewhere : ∃ place, origin.contentAt (origin.placeOf source ++ place) = some content
  own : base <+: origin.placeOf (source / file) ∨
    origin.contentAt (origin.placeOf (source / file)) = some content

/-- Each file of a temporary directory is a copy under its own path or has been moved there, and each
directory is on the way to such a path. -/
structure Tracks (entry : Entry) (copier : Copier) (origin : Disk) (source : Path) (base front : Place)
    (replacements : Replacements) (disk : Disk) : Prop where
  agree : Agree (fun place => ¬ base <+: place) origin disk
  file : ∀ rest content, disk.contentAt (base ++ rest) = some content →
    ∃ relative, rest = front ++ relative ∧
      (entry.staged copier origin source relative = some content ∨
        ∃ pair ∈ entry.files.entries, relative ∈ newPlaces source replacements pair ∧
          Stems origin source base pair.1 content)
  way : ∀ rest, disk.node? (base ++ rest) = some .directory → rest <+: front ∨
    ∃ relative, Below (front ++ relative) rest ∧
      (entry.staged copier origin source relative ≠ none ∨
        ∃ pair ∈ entry.files.entries, Path.segmentsOf (replacements.apply pair.2) = relative)

section Tracks

variable {entry : Entry} {copier : Copier} {origin : Disk} {source : Path} {base front : Place}
  {replacements : Replacements}

theorem Starts.tracks {disk : Disk} (starts : entry.Starts copier origin source base front disk) :
    entry.Tracks copier origin source base front replacements disk where
  agree := starts.agree
  file rest content held := by
    obtain ⟨relative, whole, staged⟩ := (starts.file rest content).1 held
    exact ⟨relative, whole, Or.inl staged⟩
  way rest directory := (starts.way rest directory).imp_right
    fun ⟨relative, below, staged⟩ => ⟨relative, below, Or.inl staged⟩

theorem content_of_staged {relative : Place} {content : Content}
    (staged : entry.staged copier origin source relative = some content) :
    origin.contentAt (origin.placeOf source ++ relative) = some content :=
  contentAt_eq_some_iff.2 (takes_eq_some_iff.1 (takes_of_staged staged)).2.2

theorem Tracks.exists_origin {disk : Disk}
    (tracks : entry.Tracks copier origin source base front replacements disk) {rest : Place}
    {content : Content} (held : disk.contentAt (base ++ rest) = some content) :
    ∃ place, origin.contentAt (origin.placeOf source ++ place) = some content := by
  obtain ⟨relative, -, staged | ⟨pair, -, -, stems⟩⟩ := tracks.file rest content held
  · exact ⟨relative, content_of_staged staged⟩
  · exact stems.somewhere

theorem Tracks.stems {disk : Disk}
    (tracks : entry.Tracks copier origin source base front replacements disk) {file : String}
    (inner : Path.Inner file) {content : Content}
    (held : disk.contentAt (disk.placeOf (source / file)) = some content) :
    Stems origin source base file content := by
  rw [tracks.agree.placeOf] at held
  by_cases within : base <+: origin.placeOf (source / file)
  · obtain ⟨rest, whole⟩ := within
    rw [← whole] at held
    exact ⟨tracks.exists_origin held, Or.inl ⟨rest, whole⟩⟩
  · rw [tracks.agree.contentAt within] at held
    refine ⟨⟨Path.segmentsOf file, ?_⟩, Or.inr held⟩
    rwa [placeOf_div origin source inner] at held

theorem Tracks.after_cleared {before after : Disk}
    (tracks : entry.Tracks copier origin source base front replacements before) {place : Place}
    (cleared : Cleared place before after) (inside : base <+: place) :
    entry.Tracks copier origin source base front replacements after := by
  have kept : ∀ {other}, after.node? other ≠ none → after.node? other = before.node? other :=
    fun held => cleared.other _ fun within => held (cleared.within _ within)
  have agree := (cleared.agree_outside tracks.agree.right_sound).mono
    fun other (outside : ¬ base <+: other) within => outside (inside.trans within)
  refine ⟨tracks.agree.trans agree, fun rest content held => ?_, fun rest directory => ?_⟩
  · rw [contentAt_eq_some_iff] at held
    rw [kept (by rw [held]; exact nofun), ← contentAt_eq_some_iff] at held
    exact tracks.file rest content held
  · rw [kept (by rw [directory]; exact nofun)] at directory
    exact tracks.way rest directory

section Laying

variable (named : ∀ name ∈ base ++ front, Path.IsName name) (base_more : base ≠ [])
  (above : ∀ place, Below base place → origin.node? place = some .directory)

include named base_more above

theorem Tracks.after_laid {before after : Disk}
    (tracks : entry.Tracks copier origin source base front replacements before)
    {pair : String × String} (member : pair ∈ entry.files.entries)
    (renamed : Path.Inner (replacements.apply pair.2)) {content : Content}
    (stems : Stems origin source base pair.1 content) {landing : Place}
    (laid : Laid (renamedWrite source (base ++ front) replacements pair content) landing before
      after) :
    entry.Tracks copier origin source base front replacements after := by
  obtain ⟨new, fresh, landed⟩ := exists_newPlace named renamed laid
  have within : base <+: landing := by
    rw [landed, List.append_assoc]
    exact List.prefix_append _ _
  -- what is on the way lies above the new path
  have onWay_below : ∀ {place}, before.OnWay (renamedWrite source (base ++ front) replacements pair
      content).path.parent place →
      Below (base ++ front ++ Path.segmentsOf (replacements.apply pair.2)) place := by
    intro place onWay
    have whole_named := isName_of_mem_copied named renamed
    have starts := onWay_fromRoot
      (fun name listed => whole_named name (List.dropLast_subset _ listed)) onWay
    refine ⟨starts.trans (List.dropLast_prefix _), fun same => ?_⟩
    have short := starts.length_le
    rw [same, List.length_dropLast] at short
    have long := List.length_pos_iff.2 base_more
    simp only [List.length_append] at short
    omega
  refine ⟨⟨tracks.agree.left_sound, laid.sound, laid.current.trans tracks.agree.current,
    laid.temporary.trans tracks.agree.temporary, fun place outside => ?_⟩,
    fun rest arrived held => ?_, fun rest directory => ?_⟩
  · by_cases onWay : before.OnWay (renamedWrite source (base ++ front) replacements pair
        content).path.parent place
    · -- a directory on the way to the temporary directory
      have starts := (onWay_below onWay).1
      rw [List.append_assoc] at starts
      have less := (List.prefix_or_prefix_of_prefix starts (List.prefix_append _ _)).resolve_right
        outside
      rw [laid.way place onWay, above place ⟨less, fun same => outside (same ▸ List.prefix_refl _)⟩]
    · rw [laid.other place (fun same => outside (same ▸ within)) onWay]
      exact tracks.agree.node place outside
  · rw [laid.contentAt_eq] at held
    by_cases here : base ++ rest = landing
    · rw [here, Function.update_self] at held
      cases held
      rw [landed, List.append_assoc] at here
      exact ⟨new, List.append_cancel_left here, Or.inr ⟨pair, member, fresh, stems⟩⟩
    · rw [Function.update_of_ne here] at held
      exact tracks.file rest arrived held
  · rcases (laid.directory_iff _).1 directory with onWay | there
    · obtain ⟨starts, differ⟩ := onWay_below onWay
      rw [List.append_assoc] at starts differ
      exact Or.inr ⟨_, ⟨(List.prefix_append_right_inj _).1 starts, fun same =>
        differ (congrArg (base ++ ·) same)⟩, Or.inr ⟨pair, member, rfl⟩⟩
    · exact tracks.way rest there

theorem rename_tracks (source_written : source.IsWritten) (stays : entry.StaysBelow replacements)
    {label : String} {world reached : World}
    (tracks : entry.Tracks copier origin source base front replacements world.disk)
    (ends : rename (.fromRoot (base ++ front)) source label replacements entry.files.entries world =
      .ok () reached) :
    entry.Tracks copier origin source base front replacements reached.disk := by
  refine rename_invariant named (by simp [base_more]) source_written
    (fun _ => entry.Tracks copier origin source base front replacements)
    (fun tracks => tracks.agree.right_sound) stays.listed stays.renamed
    (fun {pair _ _ _ _ _ _} member tracks _ cleared held laid => ?_) tracks ends
  have less := tracks.after_cleared cleared (by
    rw [List.append_assoc]
    exact List.prefix_append _ _)
  exact less.after_laid named base_more above member (stays.renamed pair member)
    (less.stems (stays.listed pair member) held) laid

end Laying

end Tracks

/-! ## Copying from a temporary directory -/

theorem noNull_of_remove {place : Place} {world reached : World}
    (ends : remove (.fromRoot place) world = .ok () reached) : hasNull place = false := by
  by_contra null
  have refused : ∀ follow, world.disk.locate follow (.fromRoot place) = .error .nullCharacter := by
    intro follow
    simp [locate, locateFrom, Path.fromRoot, null]
  have missing : world.disk.isDirectory (.fromRoot place) = false := by
    simp [isDirectory, find?, refused]
  rw [remove, disk_bind, missing] at ends
  simp [removeFile, refused, bind, Except.bind] at ends
  cases ends

theorem noNull_of_stage {entry : Entry} {copier : Copier} {source : Path} {copied : Place}
    {replacements : Replacements} (stays : entry.StaysBelow replacements)
    (renames : entry.files.isEmpty = false) {world staged : World}
    (ends : entry.stage copier source (.fromRoot copied) replacements world = .ok () staged) :
    hasNull copied = false := by
  obtain ⟨between, moves⟩ : ∃ between, rename (.fromRoot copied) source entry.label replacements
      entry.files.entries between = .ok () staged := by
    unfold stage at ends
    cases only : entry.only with
    | true =>
        rw [only] at ends
        exact ⟨world, ends⟩
    | false =>
        rw [only] at ends
        obtain ⟨_, between, -, moves⟩ := bind_eq_ok_iff.1 ends
        exact ⟨between, moves⟩
  obtain ⟨pair, others, whole⟩ := List.exists_cons_of_ne_nil
    (show entry.files.entries ≠ [] by simpa [Table.isEmpty] using renames)
  rw [whole, rename_cons, Path.fromRoot_div (stays.listed pair (whole ▸ List.mem_cons_self))] at moves
  split at moves
  · obtain ⟨_, _, -, continues⟩ := bind_eq_ok_iff.1 moves
    obtain ⟨_, _, removes, -⟩ := bind_eq_ok_iff.1 continues
    exact hasNull_of_subset (List.subset_append_left _ _) (noNull_of_remove removes)
  · cases moves

section Staging

variable {world reached : World} (sound : world.disk.Sound) {template target : Path}
  (template_written : template.IsWritten) {entry : Entry} {copier : Copier}
  {replacements : Replacements} (stays : entry.StaysBelow replacements)
  (renames : entry.files.isEmpty = false)

include sound template_written stays renames

theorem copy_tracks {written : List Path}
    (ends : entry.copy copier template target replacements world = .ok written reached) :
    ∃ staged between : World,
      entry.Tracks copier world.disk (template / entry.source) (stagingPlace world.disk)
        (Path.segmentsOf (entry.relativeTarget replacements)) replacements staged.disk ∧
      copier.copyTree target [.fromRoot (stagingPlace world.disk)]
        (entry.contentReplacements replacements) staged = .ok written between ∧
      reached.disk = between.disk.prune (stagingPlace world.disk) := by
  have directory := isDirectory_of_copy entry ends
  obtain ⟨changed, staged, between, made, stages, copies, rfl, -⟩ := copy_staged ends renames
  have named : ∀ name ∈ stagingPlace world.disk ++
      Path.segmentsOf (entry.relativeTarget replacements), Path.IsName name := fun _ member =>
    isName_of_mem_staging_append sound (fun _ inside => Path.isName_of_inner stays.target inside)
      member
  have noNull : hasNull (Path.segmentsOf (entry.relativeTarget replacements)) = false := by
    have moved := stages
    rw [inside_eq, Path.fromRoot_div stays.target] at moved
    exact hasNull_of_subset (List.subset_append_right _ _) (noNull_of_stage stays renames moved)
  have above : ∀ place, Below (stagingPlace world.disk) place →
      world.disk.node? place = some .directory := by
    rintro place ⟨starts, differ⟩
    have there := directory_of_prefix_staging sound made starts
    rwa [node?_staging sound made, if_neg (Ne.symm differ)] at there
  obtain ⟨copied, starts, moves⟩ := stage_starts sound directory stays noNull made stages
  exact ⟨staged, between, rename_tracks named (by simp [stagingPlace]) above
    (Path.isWritten_div template_written _) stays starts.tracks moves, copies, rfl⟩

end Staging

section Arriving

variable {world staged between : World} (sound : world.disk.Sound) {target : Path}
  (apart : Apart (world.disk.placeOf target) world.disk.temporary)
  (missing : world.disk.MissingAbove target)

include sound apart missing

theorem not_staging_of_missing {place : Place} (onWay : world.disk.OnWay target place) :
    ¬ stagingPlace world.disk <+: place := by
  intro within
  have absent : world.disk.node? place = none := by
    by_contra held
    exact outside_of_held sound held within
  exact (apart_stagingPlace apart).2 (within.trans (missing place onWay absent))

theorem not_staging_of_join {rest : List String} (named : ∀ name ∈ rest, Path.IsName name)
    {place : Place} (onWay : world.disk.OnWay (target.join ⟨.current, rest⟩) place) :
    ¬ stagingPlace world.disk <+: place := by
  rw [Path.join_of_current target rfl] at onWay
  rcases onWay_append_iff.1 onWay with way | ⟨front, starts, rfl⟩
  · exact not_staging_of_missing sound apart missing way
  · rw [walk_names fun name member => named name (starts.subset member)]
    exact not_prefix_of_apart (apart_stagingPlace apart) (List.prefix_append _ _)

variable (target_written : target.IsWritten)
  (agree : Agree (fun place => ¬ stagingPlace world.disk <+: place) world.disk staged.disk)
  {copier : Copier} {replacements? : Option Replacements}

include target_written agree

theorem copyTree_arrives
    (plain : ∀ rest ∈ listing staged.disk (.fromRoot (stagingPlace world.disk)),
      relativeText (effective replacements?) rest = "/".intercalate rest)
    (vacant : ∀ rest content,
      staged.disk.contentAt (stagingPlace world.disk ++ rest) = some content →
        world.disk.isDirectory (target.join ⟨.current, rest⟩) = false)
    {written : List Path}
    (ends : copier.copyTree target [.fromRoot (stagingPlace world.disk)] replacements? staged =
      .ok written between) :
    let reached := between.disk.prune (stagingPlace world.disk)
    (∀ path ∈ written, ∃ rest content,
      staged.disk.contentAt (stagingPlace world.disk ++ rest) = some content ∧
      path = target.join ⟨.current, rest⟩ ∧
      let arrived := copier.delivered (effective replacements?) path content
      reached.find? path = some (.file arrived.1 arrived.2)) ∧
    ∀ place, (∀ path ∈ written, world.disk.placeOf path ≠ place) →
      reached.node? place = world.disk.node? place ∨
        world.disk.node? place = none ∧ reached.node? place = some .directory ∧
          ∃ path ∈ written, world.disk.OnWay path.parent place := by
  have staged_sound := agree.right_sound
  have more : stagingPlace world.disk ≠ [] := by simp [stagingPlace]
  have staging_named := fun name (member : name ∈ stagingPlace world.disk) =>
    isName_of_mem_stagingPlace sound member
  have directory := isDirectory_of_copyTree ends
  have base := staged.disk.placeOf_fromRoot staging_named
  have file_there : ∀ {rest content},
      copier.takes staged.disk (.fromRoot (stagingPlace world.disk)) rest = some content →
        rest ≠ [] ∧ (∀ name ∈ rest, Path.IsName name) ∧
          staged.disk.contentAt (stagingPlace world.disk ++ rest) = some content := by
    intro rest content takes
    obtain ⟨some, file⟩ := file_of_takes staged_sound directory takes
    rw [base, ← contentAt_eq_some_iff] at file
    exact ⟨some, fun _ => isName_of_mem_listing staged_sound
      (mem_listing_of_takes staged_sound directory takes), file⟩
  have carried : Carried copier staged.disk (.fromRoot (stagingPlace world.disk)) target replacements?
      written between.disk := by
    refine copyTree_carries staged_sound (fun name member => (staging_named name member).1)
      target_written plain (fun rest _ => ?_) (fun place onWay absent => ?_)
      (fun rest content takes => ?_) ends
    · rw [base, agree.placeOf]
      exact not_prefix_of_apart (apart_stagingPlace apart).symm (List.prefix_append _ _)
    · have way := agree.onWay_iff.1 onWay
      rw [agree.node place (not_staging_of_missing sound apart missing way)] at absent
      rw [agree.placeOf]
      exact missing place way absent
    · obtain ⟨-, named, file⟩ := file_there takes
      rw [agree.isDirectory_eq fun place => not_staging_of_join sound apart missing named]
      exact vacant rest content file
  refine ⟨fun path member => ?_, fun place elsewhere => ?_⟩
  · obtain ⟨rest, content, takes, rfl⟩ := carried.path path member
    obtain ⟨some, named, file⟩ := file_there takes
    have same_name : (target.join ⟨.current, rest⟩).name =
        ((Path.fromRoot (stagingPlace world.disk)).join ⟨.current, rest⟩).name := by
      rw [Path.name_join _ some, Path.name_join _ some]
    refine ⟨rest, content, file, rfl, ?_⟩
    rw [find?_prune carried.sound more fun place onWay => not_staging_of_join sound apart missing named
        ((onWay_congr (carried.current.trans agree.current)).1 onWay),
      delivered_congr copier _ same_name]
    exact carried.file rest content takes
  · rw [node?_prune _ more]
    by_cases within : stagingPlace world.disk <+: place
    · rw [if_pos within]
      refine Or.inl (Eq.symm ?_)
      by_contra held
      exact outside_of_held sound held within
    · rw [if_neg within, ← agree.node place within]
      simp only [← agree.placeOf, ← agree.onWay_iff] at elsewhere ⊢
      exact carried.other place elsewhere

end Arriving

/-! ## A template with a placeholder -/

def markedWorld : World where
  disk := .holding
    [(["tmp"], .directory), (["tmp", "w"], .directory), (["tmp", "w", "tmp"], .directory),
      (["tmp", "w", "t"], .directory), (["tmp", "w", "t", "src"], .directory),
      (["tmp", "w", "t", "src", "x"], .file "A".toUTF8 false),
      (["tmp", "w", "t", "src", "\x7b\x7bname\x7d\x7d.txt"],
        .file "I am \x7b\x7bname\x7d\x7d".toUTF8 true)]
    ["tmp", "w"] ["tmp", "w", "tmp"]

theorem sound_markedWorld : markedWorld.disk.Sound :=
  sound_of_lists (by decide +kernel) (by decide +kernel)

end Archetype.Template.Entry
