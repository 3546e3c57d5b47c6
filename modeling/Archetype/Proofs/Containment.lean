import Archetype.Proofs.Completions
import Archetype.Proofs.Copying
import Archetype.Template.Transform

namespace Archetype.Template

open Archetype.Action Archetype.Disk Archetype.Copier

namespace Entry

def stage (entry : Entry) (copier : Copier) (source staged : Path) (replacements : Replacements) :
    Action Unit := do
  if !entry.only then
    let _ ← copier.copyTree staged [source] none
  rename staged source entry.label replacements entry.files.entries

def deliveries (entry : Entry) (copier : Copier) (template target : Path)
    (replacements : Replacements) (world : World) : List Delivery :=
  let source := template / entry.source
  let content := entry.contentReplacements replacements
  let relative := entry.relativeTarget replacements
  if !world.disk.isDirectory source then []
  else if entry.files.isEmpty then
    if entry.only then []
    else
      let destination := inside target relative
      (note (.copying source.toText destination.toText)).collect world fun _ reached =>
        copier.treeDeliveries destination source content reached
  else
    let staging := Path.fromRoot (stagingPlace world.disk)
    match world.disk.makeDirectory staging with
    | .error _ => []
    | .ok disk =>
      (entry.stage copier source (inside staging relative) replacements).collect { world with disk }
        fun _ reached => copier.treeDeliveries target staging content reached

def allDeliveries (copier : Copier) (template target : Path) (replacements : Replacements) :
    List Entry → World → List Delivery
  | [], _ => []
  | entry :: entries, world =>
    (note (.applying entry.label)).collect world fun _ noted =>
      entry.deliveries copier template target replacements noted ++
        (entry.copy copier template target replacements).collect noted fun _ reached =>
          allDeliveries copier template target replacements entries reached

/-- The paths that an entry names stay below the directories that they are read from. -/
structure StaysBelow (entry : Entry) (replacements : Replacements) : Prop where
  target : Path.Inner (entry.relativeTarget replacements)
  listed : ∀ pair ∈ entry.files.entries, Path.Inner pair.1
  renamed : ∀ pair ∈ entry.files.entries, Path.Inner (replacements.apply pair.2)

instance (entry : Entry) (replacements : Replacements) :
    Decidable (entry.StaysBelow replacements) :=
  decidable_of_iff (Path.Inner (entry.relativeTarget replacements) ∧
      (∀ pair ∈ entry.files.entries, Path.Inner pair.1) ∧
      ∀ pair ∈ entry.files.entries, Path.Inner (replacements.apply pair.2))
    ⟨fun ⟨target, listed, renamed⟩ => ⟨target, listed, renamed⟩,
      fun stays => ⟨stays.target, stays.listed, stays.renamed⟩⟩

theorem inside_eq (directory : Path) (relative : String) :
    inside directory relative = directory / relative := by
  unfold inside
  split
  · rename_i empty
    obtain rfl : relative = "" := by simpa using empty
    change directory = directory.join ⟨.current, []⟩
    simp [Path.join]
  · rfl

theorem isDirectory_of_copy (entry : Entry) {copier : Copier} {template target : Path}
    {replacements : Replacements} {world after : World} {written : List Path}
    (copied : entry.copy copier template target replacements world = .ok written after) :
    world.disk.isDirectory (template / entry.source) = true := by
  by_contra missing
  rw [Bool.not_eq_true] at missing
  rw [copy, disk_bind, missing] at copied
  cases copied

theorem copyRenamed_eq (entry : Entry) (copier : Copier) (source target : Path)
    (replacements : Replacements) :
    entry.copyRenamed copier source target replacements = (withStaging fun staging => do
      entry.stage copier source (inside staging (entry.relativeTarget replacements)) replacements
      copier.copyTree target [staging] (entry.contentReplacements replacements)) := by
  unfold copyRenamed stage
  congr 1
  funext staging
  cases entry.only <;> simp

section Staging

variable {allowed : Allowance} {staged : Place} (named : ∀ name ∈ staged, Path.IsName name)
  (way : ∀ place, place <+: staged → allowed.Makes place)
  (free : ∀ place, staged <+: place → allowed.free place)
  {source : Path} (source_written : source.IsWritten)
  {replacements : Replacements}

include named way free source_written

theorem within_rename {world : World} (sound : world.disk.Sound) (more : staged ≠ [])
    {label : String} {pairs : List (String × String)}
    (listed : ∀ pair ∈ pairs, Path.Inner pair.1)
    (renamed : ∀ pair ∈ pairs, Path.Inner (replacements.apply pair.2)) :
    Within allowed (rename (.fromRoot staged) source label replacements pairs) world := by
  induction pairs generalizing world with
  | nil => exact within_pure sound _
  | cons pair others ih =>
      obtain ⟨file, pattern⟩ := pair
      obtain ⟨file_inner, others_listed⟩ := List.forall_mem_cons.1 listed
      obtain ⟨target_inner, others_renamed⟩ := List.forall_mem_cons.1 renamed
      have extended : ∀ {text : String}, Path.Inner text →
          ∀ name ∈ staged ++ Path.segmentsOf text, Path.IsName name := fun inner name member =>
        (List.mem_append.1 member).elim (named name) (Path.isName_of_inner inner)
      have below : ∀ {text : String} {place : Place}, staged ++ Path.segmentsOf text <+: place →
          allowed.free place :=
        fun starts => free _ ((List.prefix_append _ _).trans starts)
      -- the old file is removed and the new one laid, both below what is free
      refine within_disk ?_
      split
      · exact within_fault sound _ _
      refine within_bind (within_record sound _) fun _ noted _ kept => ?_
      refine within_bind ?_ fun _ removed _ less => ?_
      · rw [Path.fromRoot_div file_inner]
        obtain ⟨front, name, last⟩ := List.eq_nil_or_concat' (staged ++ Path.segmentsOf file)
          |>.resolve_left (by simp [more])
        have led := noted.disk.placeOf_fromRoot (extended file_inner)
        refine within_remove kept.sound (fun name member => (extended file_inner name member).1)
          last (extended file_inner name (by simp [last])).2 (by rw [led]; simp [more]) ?_
        rw [led]
        exact fun place => below
      · refine within_bind ?_ fun _ copied _ more => ih more.sound others_listed others_renamed
        rw [Path.fromRoot_div target_inner]
        have target_written :
            (Path.fromRoot (staged ++ Path.segmentsOf (replacements.apply pattern))).IsWritten :=
          fun name member => (extended target_inner name member).1
        refine within_bind (within_makeDirectories less.sound (Path.isWritten_parent target_written)
          fun place onWay => ?_) fun _ made _ there => ?_
        · have starts := onWay_fromRoot (extended target_inner) (onWay_of_parent onWay)
          rcases List.prefix_or_prefix_of_prefix starts (List.prefix_append _ _) with before | within
          · exact way place before
          · exact Or.inl (free place within)
        · refine within_bind (within_copyFile there.sound (Path.isWritten_div source_written file)
            target_written ?_ ?_) fun _ _ _ kept => within_pure kept.sound _
          · rw [Disk.placeOf_fromRoot _ (extended target_inner)]
            exact Or.inl (below (List.prefix_refl _))
          · intro _ name
            rw [Disk.placeOf_fromRoot _ (extended target_inner)]
            exact Or.inl (below (List.prefix_append _ _))

end Staging

theorem within_stage {allowed : Allowance} {base : Place}
    (named : ∀ name ∈ base, Path.IsName name) (more : base ≠ [])
    (way : ∀ place, place <+: base → allowed.Makes place)
    (free : ∀ place, base <+: place → allowed.free place) {source : Path}
    (source_written : source.IsWritten) {replacements : Replacements} {entry : Entry}
    (stays : entry.StaysBelow replacements) (copier : Copier) {world : World}
    (sound : world.disk.Sound) :
    Within allowed (entry.stage copier source
      (inside (.fromRoot base) (entry.relativeTarget replacements)) replacements) world := by
  rw [inside_eq, Path.fromRoot_div stays.target]
  generalize held : base ++ Path.segmentsOf (entry.relativeTarget replacements) = staged
  have staged_more : staged ≠ [] := by simp [← held, more]
  have staged_named : ∀ name ∈ staged, Path.IsName name := by
    rw [← held]
    exact fun name member => (List.mem_append.1 member).elim (named name)
      (Path.isName_of_inner stays.target)
  have staged_free : ∀ place, staged <+: place → allowed.free place := by
    rw [← held]
    exact fun place starts => free place ((List.prefix_append _ _).trans starts)
  have staged_way : ∀ place, place <+: staged → allowed.Makes place := by
    rw [← held]
    intro place starts
    rcases List.prefix_or_prefix_of_prefix starts (List.prefix_append _ _) with before | within
    · exact way place before
    · exact Or.inl (free place within)
  have staged_written : (Path.fromRoot staged).IsWritten :=
    fun name member => (staged_named name member).1
  -- the files are renamed in whatever world the copying leaves
  have renames : ∀ reached : World, reached.disk.Sound →
      Within allowed (rename (.fromRoot staged) source entry.label replacements
        entry.files.entries) reached := fun _ reached_sound =>
    within_rename staged_named staged_way staged_free source_written reached_sound staged_more
      stays.listed stays.renamed
  have copies : Within allowed (copier.copyTree (.fromRoot staged) [source] none) world := by
    refine within_copyTree sound source_written staged_written fun delivery member => ?_
    obtain ⟨-, directory, -⟩ := of_mem_treeDeliveries sound source_written staged_written member
    have inner := inner_of_mem_treeDeliveries_none sound source_written staged_written member
    have place : delivery.disk.placeOf delivery.directory = staged := by
      rw [directory, Disk.placeOf_fromRoot _ staged_named]
    have below : staged <+: delivery.disk.placeOf delivery.path := by
      rw [Delivery.path, placeOf_div _ _ inner, place]
      exact List.prefix_append _ _
    refine Delivery.permits_of_inner inner ?_ ?_ (Or.inl (staged_free _ below)) ?_
    · rw [directory]
      exact fun place onWay => staged_way place (onWay_fromRoot staged_named onWay)
    · rw [place]
      exact fun place within => Or.inl (staged_free place within)
    · exact fun _ name => Or.inl (staged_free _ (below.trans (List.prefix_append _ _)))
  unfold stage
  cases entry.only with
  | true => exact renames world sound
  | false =>
      refine within_bind copies fun _ reached _ altered => ?_
      exact renames reached altered.sound

section Copies

variable {allowed : Allowance} {copier : Copier} {template target : Path}
  (template_written : template.IsWritten) (target_written : target.IsWritten)
  {replacements : Replacements}

include template_written target_written

theorem within_copy {world : World} (sound : world.disk.Sound) {entry : Entry}
    (stays : entry.StaysBelow replacements)
    (permits : ∀ delivery ∈ entry.deliveries copier template target replacements world,
      delivery.Permits allowed) :
    Within allowed (entry.copy copier template target replacements) world := by
  have source_written : (template / entry.source).IsWritten := Path.isWritten_div template_written _
  -- the deliveries follow the run, so each case of the copy leaves its own in `permits`
  rw [deliveries] at permits
  refine within_disk ?_
  cases there : world.disk.isDirectory (template / entry.source) with
  | false => exact within_bind (within_fault sound _ _) fun _ _ ends => nomatch ends
  | true =>
      rw [there, Bool.not_true, if_neg Bool.false_ne_true] at permits
      refine within_explaining ?_
      split
      · rename_i plain
        rw [if_pos plain] at permits
        unfold copyNamed
        split
        · rename_i only
          exact within_bind (within_record sound _) fun _ _ _ kept => within_pure kept.sound _
        · rename_i all
          rw [if_neg all] at permits
          refine within_bind (within_record sound _) fun _ noted ends kept => ?_
          rw [collect_of_ok ends] at permits
          refine within_copyTree kept.sound source_written ?_ permits
          rw [inside_eq]
          exact Path.isWritten_div target_written _
      · rename_i renames
        rw [if_neg renames] at permits
        rw [copyRenamed_eq]
        refine within_withStaging sound fun changed made altered => ?_
        simp only [made] at permits
        have named := fun name (member : name ∈ stagingPlace world.disk) =>
          isName_of_mem_stagingPlace sound member
        have staging_written : (Path.fromRoot (stagingPlace world.disk)).IsWritten :=
          fun name member => (named name member).1
        refine within_bind (within_stage named (by simp [stagingPlace])
          (fun place starts => Or.inr (Or.inr starts)) (fun place starts => Or.inr starts)
          source_written stays copier altered.sound) fun _ reached ends kept => ?_
        rw [collect_of_ok ends] at permits
        exact within_copyTree kept.sound staging_written target_written
          fun delivery member => (permits delivery member).freeing _

theorem of_mem_deliveries {world : World} (sound : world.disk.Sound) {entry : Entry}
    (stays : entry.StaysBelow replacements) {delivery : Delivery}
    (member : delivery ∈ entry.deliveries copier template target replacements world) :
    delivery.disk.current = world.disk.current ∧
      ∃ text, Path.Inner text ∧ delivery.directory = target / text := by
  have source_written : (template / entry.source).IsWritten := Path.isWritten_div template_written _
  rw [deliveries] at member
  split at member
  · cases member
  split at member
  · split at member
    · cases member
    · rw [inside_eq] at member
      change delivery ∈ copier.treeDeliveries (target / entry.relativeTarget replacements)
        (template / entry.source) (entry.contentReplacements replacements)
        { world with journal := _ } at member
      obtain ⟨current, directory, -⟩ :=
        of_mem_treeDeliveries (by exact sound) source_written (Path.isWritten_div target_written _)
          member
      exact ⟨current, _, stays.target, directory⟩
  · dsimp only at member
    split at member
    · cases member
    · rename_i changed made
      obtain ⟨-, altered⟩ := altered_staging sound made .unlimited
      have named := fun name (member : name ∈ stagingPlace world.disk) =>
        isName_of_mem_stagingPlace sound member
      have stages : Within .unlimited (entry.stage copier (template / entry.source)
          (inside (.fromRoot (stagingPlace world.disk)) (entry.relativeTarget replacements))
          replacements) { world with disk := changed } :=
        within_stage named (by simp [stagingPlace]) (fun _ _ => Or.inl trivial)
          (fun _ _ => trivial) source_written stays copier altered.sound
      rw [collect] at member
      split at member
      · rename_i reached ends
        rw [Within, after_of_ok ends] at stages
        obtain ⟨current, directory, -⟩ := of_mem_treeDeliveries stages.sound
          (fun name inside => (named name inside).1) target_written member
        refine ⟨(current.trans stages.current).trans altered.current, "", by decide, ?_⟩
        rw [directory]
        exact inside_eq target ""
      · cases member

theorem within_copyAll {world : World} (sound : world.disk.Sound) {entries : List Entry}
    (stays : ∀ entry ∈ entries, entry.StaysBelow replacements)
    (permits : ∀ delivery ∈ allDeliveries copier template target replacements entries world,
      delivery.Permits allowed) :
    Within allowed (copyAll copier template target replacements entries) world := by
  induction entries generalizing world with
  | nil => exact within_pure sound _
  | cons entry others ih =>
      obtain ⟨entry_stays, others_stay⟩ := List.forall_mem_cons.1 stays
      refine within_bind (within_record sound _) fun _ noted notes kept => ?_
      rw [allDeliveries, collect_of_ok notes] at permits
      obtain ⟨own, later⟩ := List.forall_mem_append.1 permits
      refine within_bind (within_copy template_written target_written kept.sound entry_stays own)
        fun _ reached ends altered => ?_
      rw [collect_of_ok ends] at later
      exact within_bind (ih altered.sound others_stay later)
        fun _ _ _ finished => within_pure finished.sound _

theorem of_mem_allDeliveries {world : World} (sound : world.disk.Sound) {entries : List Entry}
    (stays : ∀ entry ∈ entries, entry.StaysBelow replacements) {delivery : Delivery}
    (member : delivery ∈ allDeliveries copier template target replacements entries world) :
    delivery.disk.current = world.disk.current ∧
      ∃ text, Path.Inner text ∧ delivery.directory = target / text := by
  induction entries generalizing world with
  | nil => cases member
  | cons entry others ih =>
      obtain ⟨entry_stays, others_stay⟩ := List.forall_mem_cons.1 stays
      rcases List.mem_append.1 member with own | later
      · obtain ⟨current, directory⟩ :=
          of_mem_deliveries template_written target_written (by exact sound) entry_stays own
        exact ⟨current, directory⟩
      · rw [collect] at later
        split at later
        · rename_i written reached ends
          have copied : Within .unlimited (entry.copy copier template target replacements)
              { world with journal := world.journal ++ [.noted (.applying entry.label)] } :=
            within_copy template_written target_written (by exact sound) entry_stays fun _ _ =>
              ⟨fun _ _ => Or.inl trivial, Or.inl trivial, fun _ _ => Or.inl trivial⟩
          rw [Within, after_of_ok ends] at copied
          obtain ⟨current, directory⟩ := ih copied.sound others_stay later
          exact ⟨current.trans copied.current, directory⟩
        · cases later

end Copies

end Entry

namespace Descriptor

def deliveries (descriptor : Descriptor) (copier : Copier) (template target : Path)
    (replacements : Replacements) (world : World) : List Delivery :=
  Entry.allDeliveries copier template target replacements (descriptor.entries world.disk template)
    world

/-- All that has changed between two disks is in the project, but for directories on the way to it. No
file is gone, and files have come or changed only where some were written. -/
structure Contained (target : Path) (written : Place → Prop) (before after : Disk) : Prop where
  outside : ∀ place, ¬ before.placeOf target <+: place →
    after.node? place = before.node? place ∨
      (before.OnWay target place ∧ before.node? place = none ∧
        after.node? place = some .directory)
  kept : ∀ place content executable, before.node? place = some (.file content executable) →
    ∃ content executable, after.node? place = some (.file content executable)
  changed : ∀ place content executable, after.node? place = some (.file content executable) →
    before.node? place = some (.file content executable) ∨ written place

section Copies

variable {world : World} (sound : world.disk.Sound) {template target : Path}
  (template_written : template.IsWritten) (target_written : target.IsWritten)
  (descriptor : Descriptor) (copier : Copier) (replacements : Replacements)
  (stays : ∀ entry ∈ descriptor.entries world.disk template, entry.StaysBelow replacements)

include sound template_written target_written stays

theorem within_copyFiles {allowed : Allowance}
    (permits : ∀ delivery ∈ descriptor.deliveries copier template target replacements world,
      delivery.Permits allowed) :
    Within allowed (descriptor.copyFiles copier template target replacements) world :=
  within_disk (Entry.within_copyAll template_written target_written sound stays permits)

theorem permits_of_mem_deliveries {allowed : Allowance} {delivery : Delivery}
    (member : delivery ∈ descriptor.deliveries copier template target replacements world)
    (inner : Path.Inner delivery.relative)
    (way : ∀ place, world.disk.OnWay target place ∨ world.disk.placeOf target <+: place →
      allowed.Makes place)
    (file : allowed.Writes (world.disk.placeOf delivery.path))
    (inside : delivery.disk.isDirectory delivery.path = true →
      ∀ name, allowed.Writes (world.disk.placeOf delivery.path ++ [name])) :
    delivery.Permits allowed := by
  obtain ⟨current, text, text_inner, directory⟩ :=
    Entry.of_mem_allDeliveries template_written target_written sound stays member
  have same : ∀ path, delivery.disk.placeOf path = world.disk.placeOf path := placeOf_congr current
  have below : world.disk.placeOf target <+: delivery.disk.placeOf delivery.directory := by
    rw [same, directory, placeOf_div _ _ text_inner]
    exact List.prefix_append _ _
  refine Delivery.permits_of_inner inner ?_ ?_ (by rwa [same]) (by rwa [same])
  · intro place onWay
    rw [directory] at onWay
    rcases onWay_div text_inner onWay with ⟨before, starts, rfl⟩ | within
    · exact way _ (Or.inl ⟨before, starts, same _⟩)
    · exact way place (Or.inr (by rwa [same] at within))
  · exact fun place within => way place (Or.inr (below.trans within))

theorem placeOf_of_mem_deliveries {delivery : Delivery}
    (member : delivery ∈ descriptor.deliveries copier template target replacements world)
    (inner : Path.Inner delivery.relative) :
    world.disk.placeOf target <+: world.disk.placeOf delivery.path := by
  obtain ⟨-, text, text_inner, directory⟩ :=
    Entry.of_mem_allDeliveries template_written target_written sound stays member
  rw [Delivery.path, placeOf_div _ _ inner, directory, placeOf_div _ _ text_inner,
    List.append_assoc]
  exact List.prefix_append _ _

variable (inner : ∀ delivery ∈ descriptor.deliveries copier template target replacements world,
  Path.Inner delivery.relative)

include inner

/-- However a run ends, it has changed nothing outside the project but for directories on the way to
it, and inside the project it has taken no file away and written those files only that it copies. -/
theorem copyFiles_contained
    (vacant : ∀ delivery ∈ descriptor.deliveries copier template target replacements world,
      delivery.disk.isDirectory delivery.path = false) :
    Contained target
      (fun place => ∃ delivery ∈ descriptor.deliveries copier template target replacements world,
        place = world.disk.placeOf delivery.path)
      world.disk ((descriptor.copyFiles copier template target replacements).after world).disk := by
  generalize delivered : descriptor.deliveries copier template target replacements world = all at *
  let allowed : Allowance :=
    { free := fun _ => False
      files := fun place => ∃ delivery ∈ all, place = world.disk.placeOf delivery.path
      directories := fun place =>
        world.disk.OnWay target place ∨ world.disk.placeOf target <+: place }
  have within : Within allowed (descriptor.copyFiles copier template target replacements) world := by
    refine within_copyFiles sound template_written target_written descriptor copier replacements stays
      fun delivery member => ?_
    have listed : delivery ∈ all := delivered ▸ member
    refine permits_of_mem_deliveries sound template_written target_written descriptor copier
      replacements stays member (inner delivery listed) (fun place way => Or.inr way)
      (Or.inr ⟨delivery, listed, rfl⟩) fun directory => ?_
    rw [vacant delivery listed] at directory
    cases directory
  have below : ∀ delivery ∈ all, world.disk.placeOf target <+: world.disk.placeOf delivery.path :=
    fun delivery listed => placeOf_of_mem_deliveries sound template_written target_written descriptor
      copier replacements stays (delivered ▸ listed) (inner delivery listed)
  refine ⟨fun place outside => ?_, fun place content executable held => ?_,
    fun place content executable held => ?_⟩
  · rcases within.node place with free | same | ⟨onWay | under, absent, new⟩ | ⟨wrote, -, -⟩
    · exact free.elim
    · exact Or.inl same
    · exact Or.inr ⟨onWay, absent, new⟩
    · exact absurd under outside
    · obtain ⟨delivery, listed, rfl⟩ := wrote
      exact absurd (below delivery listed) outside
  · rcases within.node place with free | same | ⟨-, absent, -⟩ | ⟨-, -, wrote⟩
    · exact free.elim
    · exact ⟨content, executable, same.trans held⟩
    · rw [absent] at held
      cases held
    · exact wrote
  · rcases within.node place with free | same | ⟨-, -, new⟩ | ⟨wrote, -, -⟩
    · exact free.elim
    · exact Or.inl (same ▸ held)
    · rw [new] at held
      cases held
    · exact Or.inr wrote

/-- The files of the template stay as they are, and no others come to it. -/
theorem copyFiles_keeps_template
    (apart : Apart (world.disk.placeOf template) (world.disk.placeOf target))
    {place : Place} (within_template : world.disk.placeOf template <+: place) (content : ByteArray)
    (executable : Bool) :
    ((descriptor.copyFiles copier template target replacements).after world).disk.node? place =
        some (.file content executable) ↔
      world.disk.node? place = some (.file content executable) := by
  let allowed : Allowance :=
    { free := fun place => world.disk.placeOf target <+: place
      files := fun _ => False
      directories := fun _ => True }
  have within : Within allowed (descriptor.copyFiles copier template target replacements) world := by
    refine within_copyFiles sound template_written target_written descriptor copier replacements stays
      fun delivery member => ?_
    have below := placeOf_of_mem_deliveries sound template_written target_written descriptor copier
      replacements stays member (inner delivery member)
    exact permits_of_mem_deliveries sound template_written target_written descriptor copier
      replacements stays member (inner delivery member) (fun _ _ => Or.inr trivial) (Or.inl below)
      fun _ name => Or.inl (below.trans (List.prefix_append _ _))
  rcases within.node place with free | same | ⟨-, absent, new⟩ | ⟨wrote, -, -⟩
  · exact absurd free (not_prefix_of_apart apart within_template)
  · rw [same]
  · simp [absent, new]
  · exact wrote.elim

end Copies

def sampleWorld : World where
  disk := .holding
    [(["tmp"], .directory), (["tmp", "w"], .directory), (["tmp", "w", "tmp"], .directory),
      (["tmp", "w", "p"], .directory), (["tmp", "w", "p", "notes.txt"], .file "mine".toUTF8 false),
      (["tmp", "w", "t"], .directory), (["tmp", "w", "t", "src"], .directory),
      (["tmp", "w", "t", "src", "a.txt"], .file "A".toUTF8 false),
      (["tmp", "w", "t", "src", "b.txt"], .file "B".toUTF8 true)]
    ["tmp", "w"] ["tmp", "w", "tmp"]

theorem sound_sampleWorld : sampleWorld.disk.Sound :=
  sound_of_lists (by decide +kernel) (by decide +kernel)

def sample (file pattern : String) : Descriptor where
  transforms :=
    [{ source := "src", target? := some "out", files := Table.ofList [(file, pattern)] }]

def sampleReplacements : Replacements :=
  Table.ofList [("\x7b\x7bname\x7d\x7d", "x")]

theorem copyFiles_contained_sample :
    Contained (.ofText "/tmp/w/p")
      (fun place => ∃ delivery ∈ (sample "a.txt" "\x7b\x7bname\x7d\x7d.txt").deliveries .standard
        (.ofText "/tmp/w/t") (.ofText "/tmp/w/p") sampleReplacements sampleWorld,
        place = sampleWorld.disk.placeOf delivery.path)
      sampleWorld.disk
      (((sample "a.txt" "\x7b\x7bname\x7d\x7d.txt").copyFiles .standard (.ofText "/tmp/w/t")
        (.ofText "/tmp/w/p") sampleReplacements).after sampleWorld).disk :=
  copyFiles_contained sound_sampleWorld (Path.isWritten_ofText _) (Path.isWritten_ofText _) _ _ _
    (by decide +kernel) (by decide +kernel) (by decide +kernel)

theorem copyFiles_keeps_template_sample :
    (((sample "a.txt" "\x7b\x7bname\x7d\x7d.txt").copyFiles .standard (.ofText "/tmp/w/t")
      (.ofText "/tmp/w/p") sampleReplacements).after sampleWorld).disk.node?
        ["tmp", "w", "t", "src", "a.txt"] = some (.file "A".toUTF8 false) :=
  (copyFiles_keeps_template sound_sampleWorld (Path.isWritten_ofText "/tmp/w/t")
    (Path.isWritten_ofText "/tmp/w/p") (sample "a.txt" "\x7b\x7bname\x7d\x7d.txt") .standard
    sampleReplacements (by decide +kernel) (by decide +kernel) (by decide +kernel)
    (by decide +kernel) "A".toUTF8 false).2 (by decide +kernel)

/-- The new path of a file may lead back into the template, where another file, which is not listed,
is then overwritten. -/
theorem copyFiles_overwrites_template :
    sampleWorld.disk.Sound ∧
      Apart (sampleWorld.disk.placeOf (.ofText "/tmp/w/t"))
        (sampleWorld.disk.placeOf (.ofText "/tmp/w/p")) ∧
      Apart (sampleWorld.disk.placeOf (.ofText "/tmp/w/t")) sampleWorld.disk.temporary ∧
      ofValue (.map [(.text "transform", .list [.map [(.text "src", .text "src"),
        (.text "target", .text "out"),
        (.text "files", .map [(.text "a.txt", .text "/tmp/w/t/src/b.txt")])]])]) =
          .ok (sample "a.txt" "/tmp/w/t/src/b.txt") ∧
      sampleWorld.disk.node? ["tmp", "w", "t", "src", "b.txt"] = some (.file "B".toUTF8 true) ∧
      (((sample "a.txt" "/tmp/w/t/src/b.txt").copyFiles .standard (.ofText "/tmp/w/t")
        (.ofText "/tmp/w/p") sampleReplacements).after sampleWorld).disk.node?
          ["tmp", "w", "t", "src", "b.txt"] = some (.file "A".toUTF8 false) :=
  ⟨sound_sampleWorld, by decide +kernel, by decide +kernel, rfl, by decide +kernel,
    by decide +kernel⟩

end Descriptor

end Archetype.Template
