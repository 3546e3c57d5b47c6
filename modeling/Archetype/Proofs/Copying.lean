import Archetype.Copier
import Archetype.Proofs.Actions

namespace Archetype.Action

variable {α β γ : Type}

def collect (work : Action α) (world : World) (rest : α → World → List β) : List β :=
  match work world with
  | .ok value reached => rest value reached
  | .error _ _ => []

theorem collect_of_ok {work : Action α} {world reached : World} {value : α}
    (ends : work world = .ok value reached) (rest : α → World → List β) :
    work.collect world rest = rest value reached := by
  rw [collect, ends]

end Archetype.Action

namespace Archetype.Copier

open Archetype.Action Archetype.Disk

structure Delivery where
  disk : Disk
  directory : Path
  relative : String

def Delivery.path (delivery : Delivery) : Path :=
  delivery.directory / delivery.relative

def relativeText (replacements? : Option Replacements) (relative : List String) : String :=
  match replacements? with
  | some replacements => replacements.apply ("/".intercalate relative)
  | none => "/".intercalate relative

def deliveries (copier : Copier) (target : Path) (replacements? : Option Replacements)
    (source : Path) : List (List String) → World → List Delivery
  | [], _ => []
  | relative :: others, world =>
    if world.disk.isFile (source.join ⟨.current, relative⟩) && !copier.isIgnored relative then
      { disk := ((makeDirectories (destination target replacements? relative).parent).after world).disk
        directory := target
        relative := relativeText replacements? relative } ::
        (copier.copyOne target replacements? source relative).collect world fun _ reached =>
          deliveries copier target replacements? source others reached
    else deliveries copier target replacements? source others world

def treeDeliveries (copier : Copier) (target source : Path) (replacements? : Option Replacements)
    (world : World) : List Delivery :=
  if world.disk.isDirectory source then
    deliveries copier target (effective replacements?) source (listing world.disk source) world
  else []

structure Delivery.Permits (allowed : Allowance) (delivery : Delivery) : Prop where
  directories : ∀ place, delivery.disk.OnWay delivery.path.parent place → allowed.Makes place
  file : allowed.Writes (delivery.disk.placeOf delivery.path)
  inside : delivery.disk.isDirectory delivery.path = true →
    ∀ name, allowed.Writes (delivery.disk.placeOf delivery.path ++ [name])

theorem destination_eq (target : Path) (replacements? : Option Replacements)
    (relative : List String) :
    destination target replacements? relative = target / relativeText replacements? relative := by
  cases replacements? <;> rfl

theorem isWritten_destination {target : Path} (written : target.IsWritten)
    (replacements? : Option Replacements) (relative : List String) :
    (destination target replacements? relative).IsWritten := by
  rw [destination_eq]
  exact Path.isWritten_div written _

theorem mem_listing_iff {disk : Disk} (sound : disk.Sound) {source : Path}
    (directory : disk.isDirectory source = true) {relative : List String} :
    relative ∈ listing disk source ↔
      relative ≠ [] ∧ disk.node? (disk.placeOf source ++ relative) ≠ none := by
  obtain ⟨noNull, begins, passes, -⟩ := sound.isDirectory_iff.1 directory
  have located : disk.locate true source = .ok (disk.placeOf source) :=
    sound.locate_eq_ok_iff.2 ⟨noNull, begins, passes, rfl⟩
  rw [listing, located]
  constructor
  · intro listed
    obtain ⟨⟨place, node⟩, below, rfl⟩ := List.mem_map.1 listed
    obtain ⟨held, within⟩ := List.mem_filter.1 below
    obtain ⟨starts, apart⟩ := (Bool.and_eq_true _ _).mp within
    obtain ⟨rest, rfl⟩ := isWithin_iff.1 starts
    have more : rest ≠ [] := by
      rintro rfl
      simp at apart
    rw [List.drop_left, node?_of_ne_root _ (by simp [more]),
      Std.ExtTreeMap.mem_toList_iff_getElem?_eq_some.1 held]
    exact ⟨more, by simp⟩
  · rintro ⟨more, held⟩
    rw [node?_of_ne_root _ (by simp [more])] at held
    obtain ⟨node, there⟩ := Option.ne_none_iff_exists'.1 held
    refine List.mem_map.2 ⟨(disk.placeOf source ++ relative, node), List.mem_filter.2
      ⟨Std.ExtTreeMap.mem_toList_iff_getElem?_eq_some.2 there, ?_⟩, List.drop_left⟩
    simp [isBelow, isWithin, more]

theorem isName_of_mem_listing {disk : Disk} (sound : disk.Sound) {source : Path}
    {relative : List String} (listed : relative ∈ listing disk source) {name : String}
    (member : name ∈ relative) : Path.IsName name := by
  unfold listing at listed
  split at listed
  · obtain ⟨⟨place, node⟩, below, rfl⟩ := List.mem_map.1 listed
    have held := Std.ExtTreeMap.mem_toList_iff_getElem?_eq_some.1 (List.mem_filter.1 below).1
    have there : disk.node? place ≠ none := by
      by_cases root : place = []
      · simp [root]
      · simp [node?_of_ne_root disk root, held]
    exact sound.named place there name (List.drop_subset _ _ member)
  · cases listed

section Within

variable {allowed : Allowance} {world : World} (sound : world.disk.Sound) {copier : Copier}
  {target source : Path} {replacements? : Option Replacements}

include sound

theorem within_copyRendered {replacements : Replacements} (source_written : source.IsWritten)
    (target_written : target.IsWritten) (writes : allowed.Writes (world.disk.placeOf target))
    (inside : world.disk.isDirectory target = true →
      ∀ name, allowed.Writes (world.disk.placeOf target ++ [name])) :
    Within allowed (copier.copyRendered replacements source target) world := by
  unfold copyRendered
  split
  · exact within_copyFile sound source_written target_written writes inside
  · refine within_bind (within_readFile sound _) ?_
    rintro ⟨content, executable⟩ reached reads kept
    obtain ⟨-, rfl⟩ := granted_eq_ok reads
    dsimp only
    split
    · have denoted : (FileName.path target).toPath.IsWritten := target_written
      exact within_writeFile sound denoted writes _ _
    · exact within_copyFile sound source_written target_written writes inside

theorem within_copyOne {relative : List String} (source_written : source.IsWritten)
    (relative_written : ∀ segment ∈ relative, Path.IsSegment segment)
    (target_written : target.IsWritten)
    (permits : Delivery.Permits allowed
      { disk := ((makeDirectories (destination target replacements? relative).parent).after world).disk
        directory := target
        relative := relativeText replacements? relative }) :
    Within allowed (copier.copyOne target replacements? source relative) world := by
  have file_written : (source.join ⟨.current, relative⟩).IsWritten :=
    Path.isWritten_join source_written relative_written
  have written := isWritten_destination target_written replacements? relative
  obtain ⟨directories, file, inside⟩ := permits
  rw [Delivery.path, ← destination_eq] at directories file inside
  -- whatever is allowed, making directories keeps the current directory, so places stay the same
  have unlimited : Within .unlimited
      (makeDirectories (destination target replacements? relative).parent) world :=
    within_makeDirectories sound (Path.isWritten_parent written) fun _ _ => Or.inl trivial
  have way : Within allowed (makeDirectories (destination target replacements? relative).parent)
      world := by
    refine within_makeDirectories sound (Path.isWritten_parent written) fun place onWay => ?_
    obtain ⟨before, starts, rfl⟩ := onWay
    exact directories _ ⟨before, starts, (unlimited.placeOf _).symm⟩
  refine within_bind way ?_
  intro _ reached ends altered
  rw [after_of_ok ends] at file inside
  dsimp only
  split
  · refine within_bind (within_copyRendered altered.sound file_written written file inside) ?_
    intro _ copied _ kept
    refine within_bind (within_record kept.sound _) fun _ _ _ noted => within_pure noted.sound _
  · refine within_bind (within_copyFile altered.sound file_written written file inside) ?_
    intro _ copied _ kept
    refine within_bind (within_record kept.sound _) fun _ _ _ noted => within_pure noted.sound _

theorem within_copyEach (source_written : source.IsWritten) (target_written : target.IsWritten)
    {relatives : List (List String)}
    (relatives_written : ∀ relative ∈ relatives, ∀ segment ∈ relative, Path.IsSegment segment)
    (permits : ∀ delivery ∈ copier.deliveries target replacements? source relatives world,
      delivery.Permits allowed) :
    Within allowed (copier.copyEach target replacements? source relatives) world := by
  induction relatives generalizing world with
  | nil => exact within_pure sound _
  | cons relative others ih =>
      obtain ⟨relative_written, others_written⟩ := List.forall_mem_cons.1 relatives_written
      rw [deliveries] at permits
      refine within_disk ?_
      split
      · rename_i copied
        rw [if_pos copied] at permits
        obtain ⟨own, later⟩ := List.forall_mem_cons.1 permits
        refine within_bind
          (within_copyOne sound source_written relative_written target_written own) ?_
        intro path reached ends altered
        rw [collect_of_ok ends] at later
        exact within_bind (ih altered.sound others_written later)
          fun _ _ _ kept => within_pure kept.sound _
      · rename_i skipped
        rw [if_neg skipped] at permits
        exact ih sound others_written permits

theorem within_copyTree (source_written : source.IsWritten) (target_written : target.IsWritten)
    (permits : ∀ delivery ∈ copier.treeDeliveries target source replacements? world,
      delivery.Permits allowed) :
    Within allowed (copier.copyTree target [source] replacements?) world := by
  have directory : Within allowed
      (copier.copyDirectory target (effective replacements?) source) world := by
    refine within_disk ?_
    split
    · exact within_throw sound _
    · rename_i there
      have directory : world.disk.isDirectory source = true := by simpa using there
      rw [treeDeliveries, if_pos directory] at permits
      exact within_copyEach sound source_written target_written
        (fun relative listed segment member => (isName_of_mem_listing sound listed member).1) permits
  have sources : Within allowed
      (copier.copySources target (effective replacements?) [source]) world :=
    within_bind directory fun _ _ _ altered => within_bind (within_pure altered.sound _)
      fun _ _ _ kept => within_pure kept.sound _
  exact within_bind sources fun _ _ _ altered => within_bind (within_record altered.sound _)
    fun _ _ _ kept => within_pure kept.sound _

theorem of_mem_deliveries (source_written : source.IsWritten) (target_written : target.IsWritten)
    {relatives : List (List String)}
    (relatives_written : ∀ relative ∈ relatives, ∀ segment ∈ relative, Path.IsSegment segment)
    {delivery : Delivery}
    (member : delivery ∈ copier.deliveries target replacements? source relatives world) :
    delivery.disk.current = world.disk.current ∧ delivery.directory = target ∧
      ∃ relative ∈ relatives, delivery.relative = relativeText replacements? relative := by
  induction relatives generalizing world with
  | nil => cases member
  | cons relative others ih =>
      obtain ⟨relative_written, others_written⟩ := List.forall_mem_cons.1 relatives_written
      have later : ∀ reached : World, reached.disk.Sound →
          reached.disk.current = world.disk.current →
            delivery ∈ copier.deliveries target replacements? source others reached →
              delivery.disk.current = world.disk.current ∧ delivery.directory = target ∧
                ∃ listed ∈ relative :: others,
                  delivery.relative = relativeText replacements? listed := by
        intro reached reached_sound same inside
        obtain ⟨current, directory, listed, among, text⟩ := ih reached_sound others_written inside
        exact ⟨current.trans same, directory, listed, List.mem_cons_of_mem _ among, text⟩
      rw [deliveries] at member
      split at member
      · rcases List.mem_cons.1 member with rfl | inside
        · have made : Within .unlimited
              (makeDirectories (destination target replacements? relative).parent) world :=
            within_makeDirectories sound
              (Path.isWritten_parent (isWritten_destination target_written _ _))
              fun _ _ => Or.inl trivial
          exact ⟨made.current, rfl, relative, List.mem_cons_self, rfl⟩
        · rw [collect] at inside
          split at inside
          · rename_i path reached ends
            have altered : Within .unlimited
                (copier.copyOne target replacements? source relative) world :=
              within_copyOne sound source_written relative_written target_written
                ⟨fun _ _ => Or.inl trivial, Or.inl trivial, fun _ _ => Or.inl trivial⟩
            rw [Within, after_of_ok ends] at altered
            exact later reached altered.sound altered.current inside
          · cases inside
      · exact later world sound rfl member

theorem of_mem_treeDeliveries (source_written : source.IsWritten)
    (target_written : target.IsWritten) {delivery : Delivery}
    (member : delivery ∈ copier.treeDeliveries target source replacements? world) :
    delivery.disk.current = world.disk.current ∧ delivery.directory = target ∧
      ∃ relative ∈ listing world.disk source,
        delivery.relative = relativeText (effective replacements?) relative := by
  rw [treeDeliveries] at member
  split at member
  · exact of_mem_deliveries sound source_written target_written
      (fun relative listed segment inside => (isName_of_mem_listing sound listed inside).1) member
  · cases member

theorem inner_of_mem_treeDeliveries_none (source_written : source.IsWritten)
    (target_written : target.IsWritten) {delivery : Delivery}
    (member : delivery ∈ copier.treeDeliveries target source none world) :
    Path.Inner delivery.relative := by
  obtain ⟨-, -, relative, listed, text⟩ :=
    of_mem_treeDeliveries sound source_written target_written member
  rw [text]
  exact Path.inner_intercalate fun name inside => isName_of_mem_listing sound listed inside

end Within

theorem onWay_of_parent {disk : Disk} {path : Path} {place : Place}
    (onWay : disk.OnWay path.parent place) : disk.OnWay path place := by
  obtain ⟨before, starts, rfl⟩ := onWay
  exact ⟨before, starts.trans (List.dropLast_prefix _), rfl⟩

theorem onWay_div {disk : Disk} {base : Path} {text : String} (inner : Path.Inner text)
    {place : Place} (onWay : disk.OnWay (base / text) place) :
    disk.OnWay base place ∨ disk.placeOf base <+: place := by
  refine ((onWay_div_iff inner).1 onWay).imp_right ?_
  rintro ⟨front, -, rfl⟩
  exact List.prefix_append _ _

theorem Delivery.permits_of_inner {allowed : Allowance} {delivery : Delivery}
    (inner : Path.Inner delivery.relative)
    (way : ∀ place, delivery.disk.OnWay delivery.directory place → allowed.Makes place)
    (below : ∀ place, delivery.disk.placeOf delivery.directory <+: place → allowed.Makes place)
    (file : allowed.Writes (delivery.disk.placeOf delivery.path))
    (inside : delivery.disk.isDirectory delivery.path = true →
      ∀ name, allowed.Writes (delivery.disk.placeOf delivery.path ++ [name])) :
    delivery.Permits allowed where
  directories place onWay :=
    (onWay_div inner (onWay_of_parent onWay)).elim (way place) (below place)
  file := file
  inside := inside

theorem Delivery.Permits.freeing {allowed : Allowance} {delivery : Delivery}
    (permits : delivery.Permits allowed) (base : Place) : delivery.Permits (allowed.freeing base) where
  directories place onWay := (permits.directories place onWay).imp Or.inl Or.inl
  file := permits.file.imp_left Or.inl
  inside directory name := (permits.inside directory name).imp_left Or.inl

end Archetype.Copier
