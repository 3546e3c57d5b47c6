import Archetype.Proofs.Stages
import Mathlib.Data.List.Infix

namespace Archetype.Disk

theorem Apart.append {place other : Place} (apart : Apart place other) (inner deeper : Place) :
    Apart (place ++ inner) (other ++ deeper) :=
  ⟨fun within => not_prefix_of_apart apart ((List.prefix_append _ _).trans within)
      (List.prefix_append _ _),
    fun within => not_prefix_of_apart apart.symm ((List.prefix_append _ _).trans within)
      (List.prefix_append _ _)⟩

/-- The template, the project and the directory for temporary files lie apart, and what is missing on
the way to the project lies in neither of the others. -/
structure Separate (disk : Disk) (template target : Path) : Prop where
  template_target : Apart (disk.placeOf template) (disk.placeOf target)
  template_temporary : Apart (disk.placeOf template) disk.temporary
  target_temporary : Apart (disk.placeOf target) disk.temporary
  way : ∀ place, disk.OnWay target place → disk.node? place = none →
    ¬ disk.placeOf template <+: place ∧ ¬ disk.temporary <+: place

theorem forall_onWay_iff {disk : Disk} {path : Path} {holds : Place → Prop} :
    (∀ place, disk.OnWay path place → holds place) ↔
      ∀ before ∈ path.segments.inits, holds (disk.placeOf ⟨path.anchor, before⟩) := by
  constructor
  · exact fun all before member => all _ ⟨before, (List.mem_inits _ _).1 member, rfl⟩
  · rintro all place ⟨before, starts, rfl⟩
    exact all before ((List.mem_inits _ _).2 starts)

instance (disk : Disk) (template target : Path) : Decidable (disk.Separate template target) :=
  decidable_of_iff
    (Apart (disk.placeOf template) (disk.placeOf target) ∧
      Apart (disk.placeOf template) disk.temporary ∧ Apart (disk.placeOf target) disk.temporary ∧
      ∀ before ∈ target.segments.inits,
        disk.node? (disk.placeOf ⟨target.anchor, before⟩) = none →
          ¬ disk.placeOf template <+: disk.placeOf ⟨target.anchor, before⟩ ∧
            ¬ disk.temporary <+: disk.placeOf ⟨target.anchor, before⟩)
    ⟨fun ⟨template_target, template_temporary, target_temporary, way⟩ =>
        ⟨template_target, template_temporary, target_temporary, forall_onWay_iff.2 way⟩,
      fun separate => ⟨separate.template_target, separate.template_temporary,
        separate.target_temporary, forall_onWay_iff.1 separate.way⟩⟩

structure Preserves (template : Path) (left right : Disk) : Prop where
  agree : Agree (fun place => left.placeOf template <+: place ∨ left.temporary <+: place) left right
  way : ∀ place, left.OnWay template place → left.node? place = some .directory →
    right.node? place = some .directory

section Separate

variable {before after : Disk} {template target : Path}
  (separate : before.Separate template target) {laid : List (Write × Place)}
  (lays : Lays laid before after) (sound : before.Sound)
  (stays : ∀ item ∈ laid, item.1.StaysBelow target)

include separate lays sound stays

theorem Separate.after_lays : after.Separate template target := by
  have same : ∀ path, after.placeOf path = before.placeOf path := placeOf_congr lays.current
  have altered := lays.altered sound stays
  refine ⟨?_, ?_, ?_, fun place onWay absent => ?_⟩
  · rw [same, same]
    exact separate.template_target
  · rw [same, altered.temporary]
    exact separate.template_temporary
  · rw [same, altered.temporary]
    exact separate.target_temporary
  · rw [same, altered.temporary]
    rcases altered.node place with within | kept | ⟨-, -, directory⟩ | ⟨wrote, -, -⟩
    · exact ⟨not_prefix_of_apart separate.template_target.symm within,
        not_prefix_of_apart separate.target_temporary within⟩
    · exact separate.way place ((onWay_congr lays.current).1 onWay) (kept.symm.trans absent)
    · rw [directory] at absent
      cases absent
    · exact wrote.elim

theorem Separate.preserves : Preserves template before after := by
  have altered := lays.altered sound stays
  refine ⟨⟨sound, altered.sound, altered.current, altered.temporary, fun place inside => ?_⟩,
    fun place _ => lays.grows⟩
  rcases altered.node place with within | kept | ⟨onWay, absent, -⟩ | ⟨wrote, -, -⟩
  · rcases inside with below | below
    · exact absurd below (not_prefix_of_apart separate.template_target.symm within)
    · exact absurd below (not_prefix_of_apart separate.target_temporary within)
  · exact kept
  · obtain ⟨template_clear, temporary_clear⟩ := separate.way place onWay absent
    exact (inside.elim template_clear temporary_clear).elim
  · exact wrote.elim

end Separate

theorem Preserves.laid {template : Path} {left right left_after right_after : Disk}
    (preserves : Preserves template left right) {write : Write} {landing : Place}
    (left_laid : Laid write landing left left_after)
    (right_laid : Laid write landing right right_after) :
    Preserves template left_after right_after := by
  refine ⟨?_, fun place onWay directory => ?_⟩
  · rw [placeOf_congr left_laid.current, left_laid.temporary]
    exact left_laid.agree right_laid preserves.agree
  · rw [right_laid.directory_iff, Paves, preserves.agree.onWay_iff]
    exact ((left_laid.directory_iff place).1 directory).imp_right fun held =>
      preserves.way place ((onWay_congr left_laid.current).1 onWay) held

theorem Preserves.congr {template : Path} {left right left_other right_other : Disk}
    (preserves : Preserves template left right) (left_same : Same left left_other)
    (right_same : Same right right_other) : Preserves template left_other right_other := by
  refine ⟨?_, fun place onWay directory => ?_⟩
  · rw [placeOf_congr left_same.current, left_same.temporary]
    exact ((left_same.symm.mono fun _ _ => trivial).trans preserves.agree).trans
      (right_same.mono fun _ _ => trivial)
  · rw [right_same.node place trivial]
    exact preserves.way place (left_same.onWay_iff.1 onWay)
      ((left_same.node place trivial).symm.trans directory)

theorem Preserves.lays {template : Path} {left right left_after right_after : Disk}
    (preserves : Preserves template left right) {laid : List (Write × Place)}
    (left_lays : Lays laid left left_after) (right_lays : Lays laid right right_after) :
    Preserves template left_after right_after := by
  induction left_lays generalizing right with
  | nil same =>
      cases right_lays with
      | nil other_same => exact preserves.congr same other_same
  | cons laid rest ih =>
      cases right_lays with
      | cons other_laid others => exact ih (preserves.laid laid other_laid) others

theorem Preserves.of_same {template : Path} {left right : Disk} (same : Same left right) :
    Preserves template left right :=
  ⟨same.mono fun _ _ => trivial, fun place _ directory => (same.node place trivial).trans directory⟩

theorem Preserves.trans {template : Path} {left middle right : Disk}
    (first : Preserves template left middle) (second : Preserves template middle right) :
    Preserves template left right := by
  refine ⟨first.agree.trans ?_, fun place onWay directory => ?_⟩
  · have agree := second.agree
    rwa [first.agree.placeOf, first.agree.temporary] at agree
  · exact second.way place (first.agree.onWay_iff.2 onWay) (first.way place onWay directory)

theorem Preserves.agree_source {template : Path} {left right : Disk}
    (preserves : Preserves template left right) {text : String} (inner : Path.Inner text)
    (directory : left.isDirectory (template / text) = true) :
    Agree (fun place => left.OnWay (template / text) place ∨ left.placeOf template <+: place ∨
      left.temporary <+: place) left right := by
  refine ⟨preserves.agree.left_sound, preserves.agree.right_sound, preserves.agree.current,
    preserves.agree.temporary, fun place inside => ?_⟩
  rcases inside with onWay | inside
  · rcases Copier.onWay_div inner onWay with way | within
    · have held := preserves.agree.left_sound.directory_of_onWay directory onWay
      rw [held, preserves.way place way held]
    · exact preserves.agree.node place (Or.inl within)
  · exact preserves.agree.node place inside

end Archetype.Disk

namespace Archetype.Action

open Archetype.Disk

theorem withStaging_eq_ok {α : Type} {work : Path → Action α} {world reached : World} {value : α}
    (ends : withStaging work world = .ok value reached) :
    ∃ changed between, world.disk.makeDirectory (.fromRoot (stagingPlace world.disk)) = .ok changed ∧
      work (.fromRoot (stagingPlace world.disk)) { world with disk := changed } =
        .ok value between ∧
      reached = { between with disk := between.disk.prune (stagingPlace world.disk) } := by
  unfold withStaging at ends
  cases made : world.disk.makeDirectory (.fromRoot (stagingPlace world.disk)) with
  | error refused => simp only [made] at ends; cases ends
  | ok changed =>
      simp only [made] at ends
      cases worked : work (.fromRoot (stagingPlace world.disk)) { world with disk := changed } with
      | error failure between => simp only [worked] at ends; cases ends
      | ok result between =>
          simp only [worked] at ends
          cases ends
          exact ⟨changed, between, rfl, worked, rfl⟩

section Staging

theorem makeDirectory_staging {disk : Disk} (sound : disk.Sound)
    (noNull : hasNull (stagingPlace disk) = false)
    (temporary : disk.node? disk.temporary = some .directory) :
    disk.makeDirectory (.fromRoot (stagingPlace disk)) =
      .ok (disk.put (stagingPlace disk) .directory) := by
  have named := fun name (member : name ∈ stagingPlace disk) =>
    isName_of_mem_stagingPlace sound member
  have passes : disk.Passes (disk.start .root) (stagingPlace disk) := by
    refine passes_of_directories fun front starts apart => ?_
    change disk.node? (walk [] front) = some .directory
    rw [walk_names fun name member => named name (starts.subset member)]
    obtain ⟨rest, whole⟩ := (List.prefix_concat_iff.1 starts).resolve_left apart
    by_cases last : rest = []
    · rwa [← whole, last, List.append_nil] at temporary
    · exact sound.directory_of_append last (by simp [List.nil_append, whole, temporary])
  have located : disk.locate false (.fromRoot (stagingPlace disk)) = .ok (stagingPlace disk) :=
    sound.locate_eq_ok_iff.2 ⟨noNull, disk.node?_root, passes, (disk.placeOf_fromRoot named).symm⟩
  simp only [Disk.makeDirectory, located, bind, Except.bind, node?_stagingPlace]
  rfl

theorem directory_of_makeDirectory_staging {disk changed : Disk} (sound : disk.Sound)
    (made : disk.makeDirectory (.fromRoot (stagingPlace disk)) = .ok changed) :
    disk.node? disk.temporary = some .directory := by
  obtain ⟨parent, name, same, -, directory⟩ := (altered_staging sound made .unlimited).1.resolve_left
    (by simp [node?_stagingPlace])
  rwa [(List.append_inj' same rfl).1]

variable {left right : Disk} {region : Place → Prop} (agree : Agree region left right)
  (within : ∀ place, left.temporary <+: place → region place)

include agree within

theorem stagingPlace_agree : stagingPlace right = stagingPlace left := by
  have below : right.below left.temporary = left.below left.temporary :=
    agree.below_eq fun place lower =>
      within place (isWithin_iff.1 ((Bool.and_eq_true _ _).mp lower).1)
  rw [stagingPlace, stagingPlace, agree.temporary, names, names, below]

variable {changed : Disk}
  (made : left.makeDirectory (.fromRoot (stagingPlace left)) = .ok changed)

include made

theorem makeDirectory_agree :
    ∃ other, right.makeDirectory (.fromRoot (stagingPlace right)) = .ok other ∧
      Agree (fun place => region place ∨ place <+: stagingPlace left ∨ stagingPlace left <+: place)
        changed other := by
  have same := stagingPlace_agree agree within
  have left_sound := agree.left_sound
  have temporary : right.node? right.temporary = some .directory := by
    rw [agree.temporary, agree.node _ (within _ (List.prefix_refl _))]
    exact directory_of_makeDirectory_staging left_sound made
  have other_made := makeDirectory_staging agree.right_sound
    (by rw [same]; exact noNull_staging left_sound made) temporary
  have left_altered := (altered_staging left_sound made .unlimited).2
  have right_altered := (altered_staging agree.right_sound other_made .unlimited).2
  refine ⟨_, other_made, left_altered.sound, right_altered.sound, ?_, ?_, fun place inside => ?_⟩
  · rw [right_altered.current, left_altered.current, agree.current]
  · rw [right_altered.temporary, left_altered.temporary, agree.temporary]
  · rcases inside with inside | above | below
    · rw [node?_staging left_sound made, node?_staging agree.right_sound other_made, same,
        agree.node place inside]
    · rw [directory_of_prefix_staging left_sound made above,
        directory_of_prefix_staging agree.right_sound other_made (same ▸ above)]
    · rw [node?_staging left_sound made, node?_staging agree.right_sound other_made, same,
        agree.node place (within place ((List.prefix_append _ _).trans below))]

end Staging

end Archetype.Action

namespace Archetype.Template.Entry

open Archetype.Action Archetype.Disk Archetype.Copier

inductive Plans (entry : Entry) (copier : Copier) (template target : Path)
    (replacements : Replacements) (disk : Disk) : List Write → Prop
  | nothing (directory : disk.isDirectory (template / entry.source) = true)
      (plain : entry.files.isEmpty = true) (only : entry.only = true) :
      Plans entry copier template target replacements disk []
  | direct (directory : disk.isDirectory (template / entry.source) = true)
      (plain : entry.files.isEmpty = true) (all : entry.only = false) :
      Plans entry copier template target replacements disk
        (copier.treePlan disk (target / entry.relativeTarget replacements)
          (entry.contentReplacements replacements) (template / entry.source))
  | staged {changed staged : Disk} (directory : disk.isDirectory (template / entry.source) = true)
      (renames : entry.files.isEmpty = false)
      (made : disk.makeDirectory (.fromRoot (stagingPlace disk)) = .ok changed)
      (stages : entry.Stages copier (template / entry.source)
        (stagingPlace disk ++ Path.segmentsOf (entry.relativeTarget replacements)) replacements
        changed staged)
      (there : staged.isDirectory (.fromRoot (stagingPlace disk)) = true) :
      Plans entry copier template target replacements disk
        (copier.treePlan staged target (entry.contentReplacements replacements)
          (.fromRoot (stagingPlace disk)))

theorem Plans.directory {entry : Entry} {copier : Copier} {template target : Path}
    {replacements : Replacements} {disk : Disk} {writes : List Write}
    (plans : entry.Plans copier template target replacements disk writes) :
    disk.isDirectory (template / entry.source) = true := by
  cases plans with
  | nothing directory => exact directory
  | direct directory => exact directory
  | staged directory => exact directory

section Plans

variable {entry : Entry} {copier : Copier} {template target : Path} {replacements : Replacements}
  (stays : entry.StaysBelow replacements) (source_inner : Path.Inner entry.source)

include stays source_inner

/-- What is staged for an entry depends on the template and the directory for temporary files alone, and
so does the temporary directory. -/
theorem exists_staged_agree {left right changed staged : Disk} (preserves : Preserves template left right)
    (apart : Apart (left.placeOf template) left.temporary)
    (directory : left.isDirectory (template / entry.source) = true)
    (made : left.makeDirectory (.fromRoot (stagingPlace left)) = .ok changed)
    (stages : entry.Stages copier (template / entry.source)
      (stagingPlace left ++ Path.segmentsOf (entry.relativeTarget replacements)) replacements changed
      staged) :
    ∃ other last, right.makeDirectory (.fromRoot (stagingPlace right)) = .ok other ∧
      entry.Stages copier (template / entry.source)
        (stagingPlace right ++ Path.segmentsOf (entry.relativeTarget replacements)) replacements other
        last ∧
      Agree (fun place => place <+: stagingPlace left ∨ stagingPlace left <+: place) staged last := by
  have left_sound := preserves.agree.left_sound
  have source_place := placeOf_div left template source_inner
  have agree := preserves.agree_source source_inner directory
  have same := stagingPlace_agree agree fun _ within => Or.inr (Or.inr within)
  obtain ⟨other, other_made, changed_agree⟩ :=
    makeDirectory_agree agree (fun _ within => Or.inr (Or.inr within)) made
  rw [same] at other_made ⊢
  have current := (altered_staging left_sound made .unlimited).2.current
  have target_named : ∀ name ∈ Path.segmentsOf (entry.relativeTarget replacements),
      Path.IsName name := fun _ member => Path.isName_of_inner stays.target member
  have named : ∀ name ∈ stagingPlace left ++ Path.segmentsOf (entry.relativeTarget replacements),
      Path.IsName name := fun _ member => isName_of_mem_staging_append left_sound target_named member
  have stands := stands_staging left_sound made target_named directory
  obtain ⟨last, other_stages, staged_agree⟩ := stages.transfer named
    (by simp [stagingPlace]) stays stands.directory
    (by
      rw [placeOf_congr current, source_place]
      exact (apart_stagingPlace apart).append _ _)
    (fun place onWay => by
      have outside := stands.apart place onWay
      rwa [changed.placeOf_fromRoot named] at outside)
    changed_agree (fun place onWay => Or.inl (Or.inl ((onWay_congr current).1 onWay)))
    (fun place within => by
      rw [placeOf_congr current, source_place] at within
      exact Or.inl (Or.inr (Or.inl ((List.prefix_append _ _).trans within))))
    fun place inside => by
      rcases inside with above | below
      · exact Or.inr (List.prefix_or_prefix_of_prefix above (List.prefix_append _ _))
      · exact Or.inr (Or.inr ((List.prefix_append _ _).trans below))
  exact ⟨other, last, other_made, other_stages, staged_agree.mono fun _ => Or.inr⟩

theorem Plans.transfer {left right : Disk} {writes : List Write}
    (plans : entry.Plans copier template target replacements left writes)
    (preserves : Preserves template left right)
    (apart : Apart (left.placeOf template) left.temporary) :
    entry.Plans copier template target replacements right writes := by
  have agree := preserves.agree_source source_inner plans.directory
  have right_directory : right.isDirectory (template / entry.source) = true :=
    (agree.isDirectory_eq fun _ => Or.inl).trans plans.directory
  cases plans with
  | nothing directory plain only => exact .nothing right_directory plain only
  | direct directory plain all =>
      rw [← treePlan_agree agree directory (fun _ => Or.inl) fun place within => by
        rw [placeOf_div left template source_inner] at within
        exact Or.inr (Or.inl ((List.prefix_append _ _).trans within))]
      exact .direct right_directory plain all
  | @staged changed staged directory renames made stages there =>
      obtain ⟨other, last, other_made, other_stages, staged_agree⟩ :=
        exists_staged_agree stays source_inner preserves apart directory made stages
      have same := stagingPlace_agree agree fun _ within => Or.inr (Or.inr within)
      have staging_named := fun name (member : name ∈ stagingPlace left) =>
        isName_of_mem_stagingPlace preserves.agree.left_sound member
      have staged_way : ∀ place, staged.OnWay (.fromRoot (stagingPlace left)) place →
          place <+: stagingPlace left ∨ stagingPlace left <+: place := fun place onWay =>
        Or.inl (onWay_fromRoot staging_named onWay)
      rw [← treePlan_agree staged_agree there staged_way fun place within => by
        rw [staged.placeOf_fromRoot staging_named] at within
        exact Or.inr within, ← same]
      refine .staged right_directory renames other_made other_stages ?_
      rw [same, staged_agree.isDirectory_eq staged_way]
      exact there

end Plans

section Unstage

variable {disk staged reached after : Disk} {template target : Path}
  (separate : disk.Separate template target) (sound : disk.Sound) {laid : List (Write × Place)}
  (stays : ∀ item ∈ laid, item.1.StaysBelow target)

include separate

theorem not_staging_of_within {place : Place} (within : disk.placeOf target <+: place) :
    ¬ stagingPlace disk <+: place :=
  not_prefix_of_apart (apart_stagingPlace separate.target_temporary) within

include sound

theorem not_staging_of_onWay {place : Place} (onWay : disk.OnWay target place) :
    ¬ stagingPlace disk <+: place := fun within => by
  have absent : disk.node? place = none := by
    by_contra held
    exact outside_of_held sound held within
  exact (separate.way place onWay absent).2 ((List.prefix_append _ _).trans within)

include stays

theorem same_of_unstaged (lays : Lays laid disk after) (staged_lays : Lays laid staged reached)
    (agree : Agree (fun place => ¬ stagingPlace disk <+: place) disk staged) :
    Same after (reached.prune (stagingPlace disk)) := by
  have more : stagingPlace disk ≠ [] := by simp [stagingPlace]
  have ends := lays.agree staged_lays agree
  refine ⟨ends.left_sound, ends.right_sound.prune more, ends.current, ends.temporary,
    fun place _ => ?_⟩
  rw [node?_prune reached more]
  split
  · rename_i within
    have absent : disk.node? place = none := by
      by_contra held
      exact outside_of_held sound held within
    rcases (lays.altered sound stays).node place with below | kept | ⟨onWay, -, -⟩ | ⟨wrote, -, -⟩
    · exact absurd within (not_staging_of_within separate below)
    · exact (kept.trans absent).symm
    · exact absurd within (not_staging_of_onWay separate sound onWay)
    · exact wrote.elim
  · rename_i outside
    exact ends.node place outside

theorem outside_staging_of_stays (current : staged.current = disk.current)
    {item : Write × Place} (member : item ∈ laid) {place : Place}
    (inside : staged.OnWay item.1.path.parent place ∨ staged.placeOf item.1.path <+: place) :
    ¬ stagingPlace disk <+: place := by
  rcases inside with onWay | below
  · rcases (stays item member).onWay (onWay_of_parent onWay) with way | within
    · exact not_staging_of_onWay separate sound ((onWay_congr current).1 way)
    · exact not_staging_of_within separate (by rwa [placeOf_congr current] at within)
  · have within : staged.placeOf target <+: place := (stays item member).placeOf.trans below
    exact not_staging_of_within separate (by rwa [placeOf_congr current] at within)

end Unstage

section Frame

variable {entry : Entry} {copier : Copier} {source : Path} (source_written : source.IsWritten)
  {replacements : Replacements} (stays : entry.StaysBelow replacements) {world staged : World}
  (sound : world.disk.Sound) {changed : Disk}
  (made : world.disk.makeDirectory (.fromRoot (stagingPlace world.disk)) = .ok changed)
  (ends : entry.stage copier source
    (inside (.fromRoot (stagingPlace world.disk)) (entry.relativeTarget replacements))
    replacements { world with disk := changed } = .ok () staged)

include source_written stays sound made ends

theorem agree_outside_staging :
    Agree (fun place => ¬ stagingPlace world.disk <+: place) world.disk staged.disk := by
  obtain ⟨-, before⟩ := altered_staging sound made .nothing
  have stages : Within (Allowance.nothing.freeing (stagingPlace world.disk))
      (entry.stage copier source
        (inside (.fromRoot (stagingPlace world.disk)) (entry.relativeTarget replacements))
        replacements) { world with disk := changed } :=
    within_stage (fun name member => isName_of_mem_stagingPlace sound member)
      (by simp [stagingPlace]) (fun _ starts => Or.inr (Or.inr starts)) (fun _ => Or.inr)
      source_written stays copier before.sound
  rw [Within, after_of_ok ends] at stages
  have altered := before.trans stages
  refine ⟨sound, altered.sound, altered.current, altered.temporary, fun place outside => ?_⟩
  rcases altered.node place with (free | within) | kept | ⟨free | above, absent, -⟩ | ⟨wrote, -, -⟩
  · exact free.elim
  · exact absurd within outside
  · exact kept
  · exact free.elim
  · have held := directory_of_prefix_staging sound made above
    rw [node?_staging sound made, if_neg fun same : stagingPlace world.disk = place =>
      outside (same ▸ List.prefix_refl _),
      absent] at held
    cases held
  · exact wrote.elim

end Frame

section Ways

variable {entry : Entry} {copier : Copier} {template target : Path} {replacements : Replacements}
  {world reached : World} {written : List Path}
  (ends : entry.copy copier template target replacements world = .ok written reached)

include ends

theorem copy_nothing (plain : entry.files.isEmpty = true) (only : entry.only = true) :
    written = [] ∧ reached.disk = world.disk := by
  rw [copy, disk_bind, isDirectory_of_copy entry ends, plain] at ends
  have works := explaining_eq_ok_iff.1 ends
  rw [if_pos rfl, copyNamed, only, if_pos rfl] at works
  cases works
  exact ⟨rfl, rfl⟩

theorem copy_direct (plain : entry.files.isEmpty = true) (all : entry.only = false) :
    ∃ noted : World, noted.disk = world.disk ∧
      copier.copyTree (target / entry.relativeTarget replacements) [template / entry.source]
        (entry.contentReplacements replacements) noted = .ok written reached ∧
      entry.deliveries copier template target replacements world =
        copier.treeDeliveries (target / entry.relativeTarget replacements)
          (template / entry.source) (entry.contentReplacements replacements) noted := by
  have directory := isDirectory_of_copy entry ends
  rw [copy, disk_bind, directory, plain] at ends
  have works := explaining_eq_ok_iff.1 ends
  rw [if_pos rfl, copyNamed, all, if_neg Bool.false_ne_true, inside_eq] at works
  obtain ⟨_, noted, notes, copies⟩ := bind_eq_ok_iff.1 works
  refine ⟨noted, ?_, copies, ?_⟩
  · cases notes
    rfl
  · simp only [deliveries, directory, plain, all, Bool.not_true, Bool.false_eq_true, ↓reduceIte,
      inside_eq]
    exact collect_of_ok notes _

theorem copy_staged (renames : entry.files.isEmpty = false) :
    ∃ (changed : Disk) (staged between : World),
      world.disk.makeDirectory (.fromRoot (stagingPlace world.disk)) = .ok changed ∧
      entry.stage copier (template / entry.source)
        (inside (.fromRoot (stagingPlace world.disk)) (entry.relativeTarget replacements))
        replacements { world with disk := changed } = .ok () staged ∧
      copier.copyTree target [.fromRoot (stagingPlace world.disk)]
        (entry.contentReplacements replacements) staged = .ok written between ∧
      reached = { between with disk := between.disk.prune (stagingPlace world.disk) } ∧
      entry.deliveries copier template target replacements world =
        copier.treeDeliveries target (.fromRoot (stagingPlace world.disk))
          (entry.contentReplacements replacements) staged := by
  have directory := isDirectory_of_copy entry ends
  rw [copy, disk_bind, directory, renames] at ends
  have works := explaining_eq_ok_iff.1 ends
  rw [if_neg Bool.false_ne_true, copyRenamed_eq] at works
  obtain ⟨changed, between, made, runs, unstaged⟩ := withStaging_eq_ok works
  obtain ⟨_, staged, stages, copies⟩ := bind_eq_ok_iff.1 runs
  refine ⟨changed, staged, between, made, stages, copies, unstaged, ?_⟩
  simp only [deliveries, directory, renames, Bool.not_true, Bool.false_eq_true, ↓reduceIte, made]
  exact collect_of_ok stages _

end Ways

section Copy

variable {entry : Entry} {copier : Copier} {template target : Path}
  (template_written : template.IsWritten) (target_written : target.IsWritten)
  {replacements : Replacements} (stays : entry.StaysBelow replacements)
  (source_inner : Path.Inner entry.source) {world reached : World} (sound : world.disk.Sound)
  (separate : world.disk.Separate template target)

include template_written target_written stays source_inner sound separate

section Staged

variable {changed : Disk} (directory : world.disk.isDirectory (template / entry.source) = true)
  (made : world.disk.makeDirectory (.fromRoot (stagingPlace world.disk)) = .ok changed)

include made

omit template_written target_written stays in
theorem apart_staged :
    Apart (changed.placeOf (template / entry.source))
      (stagingPlace world.disk ++ Path.segmentsOf (entry.relativeTarget replacements)) := by
  rw [placeOf_congr (altered_staging sound made .unlimited).2.current,
    placeOf_div world.disk template source_inner]
  exact (apart_stagingPlace separate.template_temporary).append _ _

include directory

omit template_written target_written source_inner separate in
theorem outside_staged : changed.isDirectory (template / entry.source) = true ∧
    ∀ place, changed.OnWay (template / entry.source) place →
      ¬ stagingPlace world.disk ++ Path.segmentsOf (entry.relativeTarget replacements) <+:
        place := by
  have target_named : ∀ name ∈ Path.segmentsOf (entry.relativeTarget replacements),
      Path.IsName name := fun _ member => Path.isName_of_inner stays.target member
  have stands := stands_staging sound made target_named directory
  refine ⟨stands.directory, fun place onWay => ?_⟩
  have outside := stands.apart place onWay
  rwa [changed.placeOf_fromRoot fun name member =>
    isName_of_mem_staging_append sound target_named member] at outside

theorem staged_eq_ok {written : List Path} {staged between : World}
    (renames : entry.files.isEmpty = false)
    (stage_ends : entry.stage copier (template / entry.source)
      (inside (.fromRoot (stagingPlace world.disk)) (entry.relativeTarget replacements))
      replacements { world with disk := changed } = .ok () staged)
    (inner : ∀ delivery ∈ copier.treeDeliveries target (.fromRoot (stagingPlace world.disk))
      (entry.contentReplacements replacements) staged, Path.Inner delivery.relative)
    (copies : copier.copyTree target [.fromRoot (stagingPlace world.disk)]
      (entry.contentReplacements replacements) staged = .ok written between) :
    ∃ writes laid, entry.Plans copier template target replacements world.disk writes ∧
      Follows laid target writes world.disk (between.disk.prune (stagingPlace world.disk)) ∧
        (written = laid.map fun item => item.1.path) ∧
          ∀ item ∈ laid, ∃ delivery ∈ copier.treeDeliveries target
            (.fromRoot (stagingPlace world.disk)) (entry.contentReplacements replacements) staged,
              LandsAt delivery item := by
  have source_written : (template / entry.source).IsWritten := Path.isWritten_div template_written _
  have agree := agree_outside_staging source_written stays sound made stage_ends
  have staging_named := fun name (member : name ∈ stagingPlace world.disk) =>
    isName_of_mem_stagingPlace sound member
  have named : ∀ name ∈ stagingPlace world.disk ++
      Path.segmentsOf (entry.relativeTarget replacements), Path.IsName name := fun name member =>
    isName_of_mem_staging_append sound (fun _ inside => Path.isName_of_inner stays.target inside)
      member
  rw [inside_eq, Path.fromRoot_div stays.target] at stage_ends
  obtain ⟨-, outside⟩ := outside_staged stays sound directory made
  have stages := stage_eq_ok source_written named (by simp [stagingPlace]) stays
    (sound_staging sound made) (apart_staged source_inner sound separate made) outside stage_ends
  have there : staged.disk.isDirectory (.fromRoot (stagingPlace world.disk)) = true :=
    isDirectory_of_copyTree copies
  obtain ⟨laid, follows, same, lands, -⟩ := copyTree_eq_ok agree.right_sound
    (fun name member => (staging_named name member).1) target_written
    (fun _ _ => by
      rw [staged.disk.placeOf_fromRoot staging_named, placeOf_congr agree.current]
      exact not_prefix_of_apart (apart_stagingPlace separate.target_temporary).symm
        (List.prefix_append _ _)) inner copies
  obtain ⟨last, lays, -⟩ := follows.lays.transfer agree.symm fun item member place =>
    outside_staging_of_stays separate sound follows.stays agree.current member
  exact ⟨_, laid, .staged directory renames made stages there, ⟨follows.writes,
    lays.congr (same_of_unstaged separate sound follows.stays lays follows.lays agree),
    follows.stays⟩, same, lands⟩

theorem staged_lays {staged after : Disk} {laid : List (Write × Place)}
    (renames : entry.files.isEmpty = false)
    (stages : entry.Stages copier (template / entry.source)
      (stagingPlace world.disk ++ Path.segmentsOf (entry.relativeTarget replacements)) replacements
      changed staged)
    (there : staged.isDirectory (.fromRoot (stagingPlace world.disk)) = true)
    (follows : Follows laid target (copier.treePlan staged target
      (entry.contentReplacements replacements) (.fromRoot (stagingPlace world.disk))) world.disk
      after) :
    ∃ reached, entry.copy copier template target replacements world =
      .ok (laid.map fun item => item.1.path) reached ∧ Same after reached.disk := by
  have source_written : (template / entry.source).IsWritten := Path.isWritten_div template_written _
  have staging_named := fun name (member : name ∈ stagingPlace world.disk) =>
    isName_of_mem_stagingPlace sound member
  have named : ∀ name ∈ stagingPlace world.disk ++
      Path.segmentsOf (entry.relativeTarget replacements), Path.IsName name :=
    fun name member => isName_of_mem_staging_append sound
      (fun _ inside => Path.isName_of_inner stays.target inside) member
  obtain ⟨still, outside⟩ := outside_staged stays sound directory made
  let staging : World := { world with disk := changed }
  have staging_sound : staging.disk.Sound := sound_staging sound made
  -- the stage of this world holds what the given one holds
  obtain ⟨other, stage_ends, same⟩ := stage_stages source_written named
    (by simp [stagingPlace]) stays staging_sound still
    (apart_staged source_inner sound separate made) outside stages
  have copied : inside (.fromRoot (stagingPlace world.disk)) (entry.relativeTarget replacements) =
      .fromRoot (stagingPlace world.disk ++
        Path.segmentsOf (entry.relativeTarget replacements)) :=
    (inside_eq _ _).trans (Path.fromRoot_div stays.target)
  rw [← copied] at stage_ends
  have agree := agree_outside_staging source_written stays sound made stage_ends
  -- nothing of the project lies in the temporary directory
  obtain ⟨last, lays, -⟩ := follows.lays.transfer agree fun item member place =>
    outside_staging_of_stays separate sound follows.stays rfl member
  have plan : copier.treePlan other.disk target (entry.contentReplacements replacements)
      (.fromRoot (stagingPlace world.disk)) = copier.treePlan staged target
        (entry.contentReplacements replacements) (.fromRoot (stagingPlace world.disk)) :=
    treePlan_agree same there (fun _ _ => trivial) (fun _ _ => trivial) copier target _
  have parted : Parted other.disk (.fromRoot (stagingPlace world.disk)) target
      (listing other.disk (.fromRoot (stagingPlace world.disk))) := by
    refine parted_of_apart ((same.isDirectory_eq fun _ _ => trivial).trans there) ?_ _
    rw [other.disk.placeOf_fromRoot staging_named, placeOf_congr agree.current]
    exact (apart_stagingPlace separate.target_temporary).symm
  obtain ⟨reached, copies, ends⟩ := copyTree_lays agree.right_sound
    (fun name member => (staging_named name member).1) target_written parted
    ⟨follows.writes.trans plan.symm, lays, follows.stays⟩
  refine ⟨{ reached with disk := reached.disk.prune (stagingPlace world.disk) }, ?_,
    same_of_unstaged separate sound follows.stays follows.lays (lays.congr ends) agree⟩
  rw [copy, disk_bind, directory, renames]
  simp only [Bool.not_true, Bool.false_eq_true, ↓reduceIte]
  refine explaining_eq_ok_iff.2 ?_
  rw [copyRenamed_eq]
  exact withStaging_ok made ((bind_ok stage_ends _).trans copies)

end Staged

theorem copy_eq_ok {written : List Path}
    (inner : ∀ delivery ∈ entry.deliveries copier template target replacements world,
      Path.Inner delivery.relative)
    (ends : entry.copy copier template target replacements world = .ok written reached) :
    ∃ writes laid, entry.Plans copier template target replacements world.disk writes ∧
      Follows laid target writes world.disk reached.disk ∧
        (written = laid.map fun item => item.1.path) ∧
          ∀ item ∈ laid, ∃ delivery ∈ entry.deliveries copier template target replacements world,
            LandsAt delivery item := by
  have source_written : (template / entry.source).IsWritten := Path.isWritten_div template_written _
  have directory := isDirectory_of_copy entry ends
  cases plain : entry.files.isEmpty with
  | true =>
      cases only : entry.only with
      | true =>
          obtain ⟨rfl, same⟩ := copy_nothing ends plain only
          rw [same]
          exact ⟨[], [], .nothing directory plain only,
            ⟨rfl, .nil (Agree.refl sound), List.forall_mem_nil _⟩, rfl, List.forall_mem_nil _⟩
      | false =>
          obtain ⟨noted, same, copies, delivers⟩ := copy_direct ends plain only
          rw [delivers] at inner ⊢
          rw [← same] at sound separate directory ⊢
          obtain ⟨laid, follows, paths, lands, -⟩ := copyTree_eq_ok sound source_written
            (Path.isWritten_div target_written _)
            (fun _ _ => by
              rw [placeOf_div _ target stays.target, placeOf_div _ template source_inner]
              exact not_prefix_of_apart (separate.template_target.append _ _)
                (List.prefix_append _ _)) inner copies
          exact ⟨_, laid, .direct directory plain only, ⟨follows.writes, follows.lays,
            fun item member => (follows.stays item member).of_div stays.target⟩, paths, lands⟩
  | false =>
      obtain ⟨changed, staged, between, made, stages, copies, rfl, delivers⟩ :=
        copy_staged ends plain
      rw [delivers] at inner ⊢
      exact staged_eq_ok template_written target_written stays source_inner sound separate
        directory made plain stages inner copies

theorem copy_plans {writes : List Write} {laid : List (Write × Place)} {after : Disk}
    (plans : entry.Plans copier template target replacements world.disk writes)
    (follows : Follows laid target writes world.disk after) :
    ∃ reached, entry.copy copier template target replacements world =
      .ok (laid.map fun item => item.1.path) reached ∧ Same after reached.disk := by
  have source_written : (template / entry.source).IsWritten := Path.isWritten_div template_written _
  have source_apart : Apart (world.disk.placeOf (template / entry.source))
      (world.disk.placeOf target) := by
    rw [placeOf_div world.disk template source_inner]
    exact List.append_nil (world.disk.placeOf target) ▸ separate.template_target.append _ []
  cases plans with
  | nothing directory plain only =>
      obtain ⟨writes, lays, -⟩ := follows
      obtain rfl := List.map_eq_nil_iff.1 writes
      cases lays with
      | nil same =>
          refine ⟨{ world with
            journal := world.journal ++ [.noted (.nothingCopied entry.label)] }, ?_, same.symm⟩
          rw [copy, disk_bind, directory, plain]
          simp only [Bool.not_true, Bool.false_eq_true, ↓reduceIte]
          refine explaining_eq_ok_iff.2 ?_
          rw [copyNamed, only, if_pos rfl]
          rfl
  | direct directory plain all =>
      let noted : World := { world with journal := world.journal ++ [.noted (.copying
        (template / entry.source).toText
        (inside target (entry.relativeTarget replacements)).toText)] }
      have noted_sound : noted.disk.Sound := sound
      obtain ⟨reached, copies, ends⟩ := copyTree_lays noted_sound source_written
        (Path.isWritten_div target_written _) (parted_of_apart directory source_apart _) follows
      refine ⟨reached, ?_, ends⟩
      rw [copy, disk_bind, directory, plain]
      simp only [Bool.not_true, Bool.false_eq_true, ↓reduceIte]
      refine explaining_eq_ok_iff.2 ?_
      rw [copyNamed, all, if_neg Bool.false_ne_true]
      refine (bind_ok rfl _).trans ?_
      rw [← inside_eq] at copies
      exact copies
  | staged directory renames made stages there =>
      exact staged_lays template_written target_written stays source_inner sound separate directory
        made renames stages there follows

end Copy

end Archetype.Template.Entry
