import Archetype.Proofs.Placements
import Archetype.Proofs.Runs
import Mathlib.Data.List.Forall2

namespace Archetype.Template

open Archetype.Action Archetype.Disk Archetype.Copier

def emptied (world : World) (target : Path) : World :=
  { world with disk := world.disk.clear (world.disk.placeOf target) }

/-- A run has laid the files of some runs, each on its own, over what was there: at each place lies the
file of the last run that has written there. -/
structure Overlaid (world reached : World) (written : List Path)
    (alone : List (List Path × World)) : Prop where
  written : written = (alone.map Prod.fst).flatten
  last : ∀ front run later, alone = front ++ run :: later → ∀ path ∈ run.1,
    (∀ other ∈ later, ∀ named ∈ other.1, world.disk.placeOf named ≠ world.disk.placeOf path) →
      ∃ content, run.2.disk.contentAt (world.disk.placeOf path) = some content ∧
        reached.disk.contentAt (world.disk.placeOf path) = some content
  rest : ∀ place, (∀ run ∈ alone, ∀ path ∈ run.1, world.disk.placeOf path ≠ place) →
    reached.disk.node? place = world.disk.node? place ∨
      (world.disk.node? place = none ∧ reached.disk.node? place = some .directory)

namespace Entry

structure Writes (disk : Disk) (files : Place → Option Content) (laid : List (Write × Place))
    (run : List Path × World) : Prop where
  paths : run.1 = laid.map fun item => item.1.path
  places : laid = disk.atPaths (laid.map Prod.fst)
  content : run.2.disk.contentAt = overlay files (contents laid)

section Writes

variable {disk : Disk} {files : Place → Option Content} {laid : List (Write × Place)}
  {run : List Path × World} (writes : Writes disk files laid run)

include writes

theorem Writes.exists_content {path : Path} (member : path ∈ run.1) :
    ∃ write ∈ contents laid, write.1 = disk.placeOf path := by
  rw [writes.paths] at member
  obtain ⟨item, inside, rfl⟩ := List.mem_map.1 member
  refine ⟨_, List.mem_map_of_mem inside, ?_⟩
  rw [writes.places] at inside
  obtain ⟨write, -, rfl⟩ := List.mem_map.1 inside
  rfl

theorem Writes.exists_path {write : Place × Content} (member : write ∈ contents laid) :
    ∃ path ∈ run.1, write.1 = disk.placeOf path := by
  obtain ⟨item, inside, rfl⟩ := List.mem_map.1 member
  refine ⟨item.1.path, writes.paths ▸ List.mem_map_of_mem inside, ?_⟩
  rw [writes.places] at inside
  obtain ⟨write, -, rfl⟩ := List.mem_map.1 inside
  rfl

end Writes

theorem contents_flatten_cons (laid : List (Write × Place)) (runs : List (List (Write × Place))) :
    contents (laid :: runs).flatten = contents laid ++ contents runs.flatten := by
  rw [List.flatten_cons, contents, List.map_append]
  rfl

section Overlaid

variable {disk : Disk} {files : Place → Option Content} {runs : List (List (Write × Place))}
  {alone : List (List Path × World)} (writes : List.Forall₂ (Writes disk files) runs alone)

include writes

theorem paths_flatten :
    (runs.flatten.map fun item => item.1.path) = (alone.map Prod.fst).flatten := by
  induction writes with
  | nil => rfl
  | cons first _ ih => rw [List.flatten_cons, List.map_append, ih, ← first.paths]; rfl

theorem nowhere_of_paths {place : Place}
    (apart : ∀ run ∈ alone, ∀ path ∈ run.1, disk.placeOf path ≠ place) :
    ∀ write ∈ contents runs.flatten, write.1 ≠ place := by
  induction writes with
  | nil => exact nofun
  | cons first _ ih =>
      obtain ⟨own, later⟩ := List.forall_mem_cons.1 apart
      rw [contents_flatten_cons]
      refine List.forall_mem_append.2 ⟨fun write member => ?_, ih later⟩
      obtain ⟨path, inside, same⟩ := first.exists_path member
      rw [same]
      exact own path inside

theorem overlay_last {front later : List (List Path × World)} {run : List Path × World}
    (whole : alone = front ++ run :: later) {path : Path} (member : path ∈ run.1)
    (apart : ∀ other ∈ later, ∀ named ∈ other.1, disk.placeOf named ≠ disk.placeOf path)
    (before : Place → Option Content) :
    ∃ content, run.2.disk.contentAt (disk.placeOf path) = some content ∧
      overlay before (contents runs.flatten) (disk.placeOf path) = some content := by
  induction front generalizing runs alone before with
  | nil =>
      subst whole
      cases writes with
      | @cons laid _ others _ first rest =>
          have wrote := first.exists_content member
          have same : overlay before (contents (laid :: others).flatten) (disk.placeOf path) =
              run.2.disk.contentAt (disk.placeOf path) := by
            rw [contents_flatten_cons, overlay_append, overlay_other (nowhere_of_paths rest apart),
              first.content]
            exact overlay_congr wrote _ _
          have there : overlay files (contents laid) (disk.placeOf path) ≠ none :=
            overlay_ne_none (Or.inl wrote)
          rw [← first.content] at there
          obtain ⟨content, held⟩ := Option.ne_none_iff_exists'.1 there
          exact ⟨content, held, same.trans held⟩
  | cons earlier front ih =>
      subst whole
      cases writes with
      | cons first rest =>
          rw [contents_flatten_cons, overlay_append]
          exact ih rest rfl _

end Overlaid

theorem exists_append_of_forall₂ {α β : Type} {related : α → β → Prop} {front back : List α}
    {all : List β} (holds : List.Forall₂ related (front ++ back) all) :
    ∃ first second, all = first ++ second ∧ List.Forall₂ related front first ∧
      List.Forall₂ related back second := by
  induction front generalizing all with
  | nil => exact ⟨[], all, rfl, .nil, holds⟩
  | cons item front ih =>
      cases holds with
      | cons here later =>
          obtain ⟨first, second, rfl, holds, others⟩ := ih later
          exact ⟨_ :: first, second, rfl, .cons here holds, others⟩

structure Spreads (copier : Copier) (template target : Path) (replacements : Replacements)
    (entries : List Entry) (runs : List (List (Write × Place))) (before after : Disk) : Prop where
  lays : Lays runs.flatten before after
  stays : ∀ item ∈ runs.flatten, item.1.StaysBelow target
  places : ∀ item ∈ runs.flatten, item.2 = before.placeOf item.1.path
  layable : before.Layable (runs.flatten.map Prod.fst)
  planned : ∀ origin, Preserves template before origin →
    List.Forall₂ (fun entry laid => entry.Plans copier template target replacements origin
      (laid.map Prod.fst)) entries runs

section Alone

variable {world : World} (sound : world.disk.Sound) {template target : Path}
  (template_written : template.IsWritten) (target_written : target.IsWritten) {copier : Copier}
  {replacements : Replacements} (separate : world.disk.Separate template target)

include sound template_written target_written separate

theorem copy_of_layable {entry : Entry} (inner : entry.Inner replacements) {writes : List Write}
    (plans : entry.Plans copier template target replacements world.disk writes)
    (stays : ∀ write ∈ writes, write.StaysBelow target) (layable : world.disk.Layable writes) :
    ∃ run : List Path × World,
      entry.copy copier template target replacements world = .ok run.1 run.2 ∧
        Writes world.disk world.disk.contentAt (world.disk.atPaths writes) run := by
  have paired := map_fst_atPaths world.disk writes
  obtain ⟨after, lays⟩ := layable.lays sound
  have follows : Follows (world.disk.atPaths writes) target writes world.disk after := by
    refine ⟨paired, lays, fun item member => ?_⟩
    obtain ⟨write, inside, rfl⟩ := List.mem_map.1 member
    exact stays write inside
  obtain ⟨reached, ends, same⟩ := copy_plans template_written target_written inner.stays inner.source
    sound separate plans follows
  refine ⟨⟨_, reached⟩, ends, rfl, by rw [paired], ?_⟩
  rw [← lays.contentAt_eq]
  exact funext fun place => same.contentAt trivial

theorem exists_alone {entries : List Entry} (inners : ∀ entry ∈ entries, entry.Inner replacements)
    {runs : List (List (Write × Place))}
    (planned : List.Forall₂ (fun entry laid => entry.Plans copier template target replacements
      world.disk (laid.map Prod.fst)) entries runs)
    (stays : ∀ item ∈ runs.flatten, item.1.StaysBelow target)
    (layable : world.disk.Layable (runs.flatten.map Prod.fst))
    (places : ∀ item ∈ runs.flatten, item.2 = world.disk.placeOf item.1.path) :
    ∃ alone : List (List Path × World),
      List.Forall₂ (fun entry run => entry.copy copier template target replacements world =
        .ok run.1 run.2) entries alone ∧
        List.Forall₂ (Writes world.disk world.disk.contentAt) runs alone := by
  induction planned with
  | nil => exact ⟨[], .nil, .nil⟩
  | @cons entry laid entries runs plans planned ih =>
      obtain ⟨inner, others_inner⟩ := List.forall_mem_cons.1 inners
      obtain ⟨own, later⟩ := List.forall_mem_append.1 stays
      obtain ⟨own_places, later_places⟩ := List.forall_mem_append.1 places
      rw [List.flatten_cons, List.map_append] at layable
      obtain ⟨alone, copies, writes⟩ :=
        ih others_inner later (layable.mono (List.subset_append_right _ _)) later_places
      obtain ⟨run, copied, wrote⟩ := copy_of_layable sound template_written target_written separate
        inner plans (by simpa only [List.forall_mem_map] using own)
        (layable.mono (List.subset_append_left _ _))
      rw [atPaths_of_places own_places] at wrote
      exact ⟨run :: alone, .cons copied copies, .cons wrote writes⟩

theorem copyAll_swapped {front back : List Entry} {first second : Entry}
    (inners : ∀ entry ∈ front ++ first :: second :: back, entry.Inner replacements)
    {earlier later : List (List (Write × Place))} {laid others : List (Write × Place)}
    (planned : List.Forall₂ (fun entry laid => entry.Plans copier template target replacements
      world.disk (laid.map Prod.fst)) (front ++ second :: first :: back)
        (earlier ++ others :: laid :: later))
    (stays : ∀ item ∈ (earlier ++ laid :: others :: later).flatten, item.1.StaysBelow target)
    (layable : world.disk.Layable ((earlier ++ laid :: others :: later).flatten.map Prod.fst))
    (places : ∀ item ∈ (earlier ++ laid :: others :: later).flatten,
      item.2 = world.disk.placeOf item.1.path)
    (apart : ∀ item ∈ laid, ∀ other ∈ others, item.2 ≠ other.2) {after : Disk}
    (lays : Lays (earlier ++ laid :: others :: later).flatten world.disk after) :
    ∃ written reached, copyAll copier template target replacements
      (front ++ second :: first :: back) world = .ok written reached ∧ Same after reached.disk := by
  have among : ∀ item, item ∈ (earlier ++ others :: laid :: later).flatten ↔
      item ∈ (earlier ++ laid :: others :: later).flatten := fun item => by
    simp only [List.flatten_append, List.flatten_cons, List.mem_append]
    tauto
  -- the same files are laid, only in another order
  have other_layable : world.disk.Layable
      ((earlier ++ others :: laid :: later).flatten.map Prod.fst) :=
    layable.mono (List.map_subset _ fun item member => (among item).1 member)
  obtain ⟨last, other_lays⟩ := other_layable.lays sound
  rw [atPaths_of_places fun item member => places item ((among item).1 member)] at other_lays
  have other_inners : ∀ entry ∈ front ++ second :: first :: back, entry.Inner replacements :=
    fun entry member => inners entry (by
      simp only [List.mem_append, List.mem_cons] at member ⊢
      tauto)
  have ran := runs_of_lays planned other_inners
    (fun item member => stays item ((among item).1 member)) (.of_same (Agree.refl sound)) separate
    sound other_lays
  obtain ⟨reached, ends, same⟩ := copyAll_runs template_written target_written other_inners sound
    separate ran
  -- the two entries write to different places, so their order does not count
  refine ⟨_, reached, ends, Agree.trans (same_of_contents (lays.sound sound) (other_lays.sound sound)
    ?_ ?_ ?_ fun place => ?_) same⟩
  · rw [other_lays.current, lays.current]
  · rw [(other_lays.altered sound fun item member => stays item ((among item).1 member)).temporary,
      (lays.altered sound stays).temporary]
  · have swapped : ∀ files, overlay files (contents others ++ contents laid) =
        overlay files (contents laid ++ contents others) := fun files => by
      refine (overlay_swap (fun write member other inside => ?_) files).symm
      obtain ⟨item, among, rfl⟩ := List.mem_map.1 member
      obtain ⟨another, within, rfl⟩ := List.mem_map.1 inside
      exact apart item among another within
    have listed : ∀ first second : List (Write × Place),
        contents (earlier ++ first :: second :: later).flatten =
          contents earlier.flatten ++ ((contents first ++ contents second) ++
            contents later.flatten) := fun first second => by
      simp only [contents, List.flatten_append, List.flatten_cons, List.map_append,
        List.append_assoc]
    rw [other_lays.contentAt_eq, lays.contentAt_eq, listed, listed, overlay_append, overlay_append,
      swapped, ← overlay_append, ← overlay_append]
  · rw [other_lays.directory_iff, lays.directory_iff]
    simp only [among]

variable (straight : world.disk.Straight template target)

include straight

omit template_written target_written sound in
theorem separate_emptied : (emptied world target).disk.Separate template target :=
  separate.clear fun place onWay => straight place (Or.inr onWay)

omit template_written target_written in
theorem preserves_emptied : Preserves template world.disk (emptied world target).disk := by
  refine ⟨separate.agree_clear sound, fun place onWay directory => ?_⟩
  rw [emptied, node?_clear, if_neg (straight place (Or.inl onWay))]
  exact directory

omit template_written target_written sound separate in
theorem layable_emptied {writes : List Write} (layable : world.disk.Layable writes)
    (stays : ∀ write ∈ writes, write.StaysBelow target) :
    (emptied world target).disk.Layable writes := by
  refine layable.clear fun write member => straight _ (Or.inr ⟨[], List.nil_prefix, ?_⟩)
  rw [(stays write member).anchor]
  rfl

variable {entries : List Entry} {runs : List (List (Write × Place))} {after : Disk}

theorem Spreads.exists_alone
    (spreads : Spreads copier template target replacements entries runs world.disk after)
    (inners : ∀ entry ∈ entries, entry.Inner replacements) :
    ∃ alone : List (List Path × World),
      List.Forall₂ (fun entry run => entry.copy copier template target replacements
        (emptied world target) = .ok run.1 run.2) entries alone ∧
      List.Forall₂ (Writes (emptied world target).disk (emptied world target).disk.contentAt) runs
        alone :=
  Entry.exists_alone (sound.clear _) template_written target_written
    (separate_emptied separate straight) inners
    (spreads.planned _ (preserves_emptied sound separate straight)) spreads.stays
    (layable_emptied straight spreads.layable (List.forall_mem_map.2 spreads.stays)) spreads.places

theorem Spreads.copy_alone
    (spreads : Spreads copier template target replacements entries runs world.disk after)
    {entry : Entry} (inner : entry.Inner replacements) {own : List (Write × Place)}
    (plans : entry.Plans copier template target replacements world.disk (own.map Prod.fst))
    (among : own ⊆ runs.flatten) :
    ∃ run : List Path × World, entry.copy copier template target replacements
      (emptied world target) = .ok run.1 run.2 ∧ run.1 = own.map fun item => item.1.path := by
  have stays := List.forall_mem_map.2 spreads.stays
  have within := List.map_subset Prod.fst among
  obtain ⟨run, copied, wrote⟩ := copy_of_layable (sound.clear _) template_written target_written
    (separate_emptied separate straight) inner
    (plans.transfer inner.stays inner.source (preserves_emptied sound separate straight)
      separate.template_temporary)
    (fun write member => stays write (within member))
    ((layable_emptied straight spreads.layable stays).mono within)
  have same : (emptied world target).disk.atPaths (own.map Prod.fst) = own :=
    atPaths_of_places fun item inside => spreads.places item (among inside)
  exact ⟨run, copied, same ▸ wrote.paths⟩

theorem Spreads.swapped {front back : List Entry} {first second : Entry}
    (spreads : Spreads copier template target replacements (front ++ first :: second :: back) runs
      world.disk after)
    (inners : ∀ entry ∈ front ++ first :: second :: back, entry.Inner replacements)
    (disjoint : ∀ run other : List Path × World,
      first.copy copier template target replacements (emptied world target) = .ok run.1 run.2 →
      second.copy copier template target replacements (emptied world target) =
        .ok other.1 other.2 →
      ∀ path ∈ run.1, ∀ named ∈ other.1, world.disk.placeOf path ≠ world.disk.placeOf named) :
    ∃ written reached, copyAll copier template target replacements
      (front ++ second :: first :: back) world = .ok written reached ∧ Same after reached.disk := by
  obtain ⟨earlier, rest, rfl, planned_before, planned_rest⟩ :=
    exists_append_of_forall₂ (spreads.planned _ (.of_same (Agree.refl sound)))
  cases planned_rest with
  | @cons _ laid _ _ first_plans planned_rest =>
  cases planned_rest with
  | @cons _ others _ later second_plans planned_back =>
  have among : laid ++ others ⊆ (earlier ++ laid :: others :: later).flatten := by
    rw [List.flatten_append, List.flatten_cons, List.flatten_cons, ← List.append_assoc laid]
    exact List.Subset.trans (List.subset_append_left _ _) (List.subset_append_right _ _)
  obtain ⟨first_among, second_among⟩ := List.append_subset.1 among
  obtain ⟨run, first_copies, run_paths⟩ := spreads.copy_alone sound template_written target_written
    separate straight (inners first (by simp)) first_plans first_among
  obtain ⟨other, second_copies, other_paths⟩ := spreads.copy_alone sound template_written
    target_written separate straight (inners second (by simp)) second_plans second_among
  refine copyAll_swapped sound template_written target_written separate inners
    (List.rel_append planned_before (.cons second_plans (.cons first_plans planned_back)))
    spreads.stays spreads.layable spreads.places (fun item member another inside => ?_) spreads.lays
  rw [spreads.places item (first_among member), spreads.places another (second_among inside)]
  exact disjoint run other first_copies second_copies _ (run_paths ▸ List.mem_map_of_mem member) _
    (other_paths ▸ List.mem_map_of_mem inside)

end Alone

end Entry

namespace Descriptor

theorem exists_entries (descriptor : Descriptor) (disk : Disk) (template : Path)
    {front back : List Entry} {first second : Entry}
    (whole : descriptor.transforms = front ++ first :: second :: back) :
    ∃ before, descriptor.entries disk template = before ++ first :: second :: back ∧
      { descriptor with transforms := front ++ second :: first :: back }.entries disk template =
        before ++ second :: first :: back := by
  have same : { descriptor with transforms := front ++ second :: first :: back }.root =
      descriptor.root := rfl
  unfold entries
  rw [same, whole]
  have isEmpty : ∀ (entry : Entry) (others : List Entry),
      (front ++ entry :: others).isEmpty = false := by simp
  rw [isEmpty, isEmpty]
  split
  · exact ⟨{ source := descriptor.root } :: front, rfl, rfl⟩
  · exact ⟨front, rfl, rfl⟩

section Overlays

variable {world reached : World} (sound : world.disk.Sound) {template target : Path}
  (template_written : template.IsWritten) (target_written : target.IsWritten)
  (descriptor : Descriptor) (copier : Copier) (replacements : Replacements)
  (separate : world.disk.Separate template target)
  (straight : world.disk.Straight template target)
  (inners : ∀ entry ∈ descriptor.entries world.disk template, entry.Inner replacements)
  (inner : ∀ delivery ∈ descriptor.deliveries copier template target replacements world,
    Path.Inner delivery.relative)
  (vacant : ∀ delivery ∈ descriptor.deliveries copier template target replacements world,
    delivery.disk.isDirectory delivery.path = false)
  (apart : ∀ delivery ∈ descriptor.deliveries copier template target replacements world,
    ∀ other ∈ descriptor.deliveries copier template target replacements world,
      ¬ Below (world.disk.placeOf delivery.path) (world.disk.placeOf other.path))

include sound template_written target_written separate straight inners inner vacant apart

theorem copyFiles_spreads {written : List Path}
    (ends : descriptor.copyFiles copier template target replacements world =
      .ok written reached) :
    ∃ runs, (written = runs.flatten.map fun item => item.1.path) ∧
      Entry.Spreads copier template target replacements (descriptor.entries world.disk template) runs
        world.disk reached.disk := by
  obtain ⟨runs, ran, rfl, lands⟩ := Entry.copyAll_eq_ok template_written target_written inners sound
    separate inner ends
  have placed : ∀ item ∈ runs.flatten, ∃ delivery ∈
      descriptor.deliveries copier template target replacements world,
        item.1.path = delivery.path ∧ item.2 = world.disk.placeOf item.1.path := by
    intro item member
    obtain ⟨delivery, inside, path, lands⟩ := lands item member
    obtain ⟨current, -⟩ := Entry.of_mem_allDeliveries template_written target_written sound
      (fun entry among => (inners entry among).stays) inside
    refine ⟨delivery, inside, path, ?_⟩
    rw [lands (vacant delivery inside), path, placeOf_congr current]
  have places : ∀ item ∈ runs.flatten, item.2 = world.disk.placeOf item.1.path :=
    fun item member => by
      obtain ⟨-, -, -, place⟩ := placed item member
      exact place
  have template_way : ∀ place, world.disk.OnWay template place →
      world.disk.node? place = some .directory := by
    obtain ⟨entry, others, whole⟩ :=
      List.exists_cons_of_ne_nil (descriptor.entries_ne_nil world.disk template)
    rw [whole] at ran inners
    cases ran with
    | cons plans =>
        exact fun place onWay => sound.directory_of_onWay plans.directory
          ((onWay_div_iff (inners entry List.mem_cons_self).source).2 (Or.inl onWay))
  refine ⟨runs, rfl, ran.lays, ran.stays, places, ?_, fun origin preserves =>
    ran.plans_at inners separate sound preserves.agree
      fun place onWay => preserves.way place onWay (template_way place onWay)⟩
  refine layable_of_lays ran.lays sound ran.stays (fun place onWay => straight place (Or.inr onWay))
    places fun item member other inside => ?_
  obtain ⟨delivery, among, path, -⟩ := placed item member
  obtain ⟨another, within, named, -⟩ := placed other inside
  rw [path, named]
  exact apart delivery among another within

/-- A run lays the files of its entries, each run alone, over one another: the last one counts. The
target is `Straight`, which leaves out paths that lead back through what lies below their own place,
such as `p/x/..`; every path without `..` is straight. -/
theorem copyFiles_overlays {written : List Path}
    (ends : descriptor.copyFiles copier template target replacements world =
      .ok written reached) :
    (∃ alone : List (List Path × World),
      List.Forall₂ (fun entry run => entry.copy copier template target replacements
        (emptied world target) = .ok run.1 run.2) (descriptor.entries world.disk template) alone ∧
      Overlaid world reached written alone) ∧
    ∀ front first second back, descriptor.transforms = front ++ first :: second :: back →
      (∀ run other : List Path × World,
        first.copy copier template target replacements (emptied world target) = .ok run.1 run.2 →
        second.copy copier template target replacements (emptied world target) =
          .ok other.1 other.2 →
        ∀ path ∈ run.1, ∀ named ∈ other.1, world.disk.placeOf path ≠ world.disk.placeOf named) →
      ∃ swapped_written swapped,
        { descriptor with transforms := front ++ second :: first :: back }.copyFiles copier template
          target replacements world = .ok swapped_written swapped ∧
        Same reached.disk swapped.disk := by
  obtain ⟨runs, rfl, spreads⟩ := copyFiles_spreads sound template_written target_written descriptor
    copier replacements separate straight inners inner vacant apart ends
  obtain ⟨alone, copies, writes⟩ := spreads.exists_alone sound template_written target_written
    separate straight inners
  refine ⟨⟨alone, copies, Entry.paths_flatten writes, ?_, ?_⟩, ?_⟩
  · intro front run later whole path member elsewhere
    rw [spreads.lays.contentAt_eq]
    exact Entry.overlay_last writes whole member elsewhere _
  · exact fun place nowhere =>
      spreads.lays.node_of_nowhere sound (Entry.nowhere_of_paths writes nowhere)
  · intro front first second back whole disjoint
    obtain ⟨before, listed, swapped⟩ := descriptor.exists_entries world.disk template whole
    rw [listed] at spreads inners
    rw [copyFiles, disk_bind, swapped]
    exact spreads.swapped sound template_written target_written separate straight inners disjoint

end Overlays

def sampleLayers : Descriptor where
  transforms :=
    [{ source := "src", target? := some "out",
       files := Table.ofList [("a.txt", "\x7b\x7bname\x7d\x7d.txt")] },
      { source := "src", target? := some "out" }]

theorem copyFiles_overlays_sample :
    ∃ written reached alone,
      sampleLayers.copyFiles .standard (.ofText "/tmp/w/t") (.ofText "/tmp/w/p") sampleReplacements
        sampleWorld = .ok written reached ∧
      written = ["b.txt", "x.txt", "a.txt", "b.txt"].map (.ofText <| "/tmp/w/p/out/" ++ ·) ∧
      List.Forall₂ (fun entry run => entry.copy .standard (.ofText "/tmp/w/t") (.ofText "/tmp/w/p")
        sampleReplacements (emptied sampleWorld (.ofText "/tmp/w/p")) = .ok run.1 run.2)
          (sampleLayers.entries sampleWorld.disk (.ofText "/tmp/w/t")) alone ∧
      Overlaid sampleWorld reached written alone := by
  obtain ⟨written, reached, ends, paths⟩ : Yields (sampleLayers.copyFiles .standard
      (.ofText "/tmp/w/t") (.ofText "/tmp/w/p") sampleReplacements) sampleWorld
      (· = ["b.txt", "x.txt", "a.txt", "b.txt"].map (.ofText <| "/tmp/w/p/out/" ++ ·)) := by
    decide +kernel
  have separate : sampleWorld.disk.Separate (.ofText "/tmp/w/t") (.ofText "/tmp/w/p") := by
    decide +kernel
  have straight := separate.straight (Path.isWritten_ofText _) (Path.isWritten_ofText _) (by decide)
    (by decide)
  obtain ⟨⟨alone, copies, overlaid⟩, -⟩ := copyFiles_overlays sound_sampleWorld
    (Path.isWritten_ofText _) (Path.isWritten_ofText _) _ _ _ separate straight (by decide +kernel)
    (by decide +kernel) (by decide +kernel) (by decide +kernel) ends
  exact ⟨written, reached, alone, ends, paths, copies, overlaid⟩

end Descriptor

end Archetype.Template
