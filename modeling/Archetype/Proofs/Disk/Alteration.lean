import Archetype.Proofs.Disk.Places

namespace Archetype.Disk

/-- What may be changed: anything at a free place, a file at a place for files unless a directory is
there, and a directory at a place for directories unless something is there. -/
structure Allowance where
  free : Place → Prop
  files : Place → Prop
  directories : Place → Prop

namespace Allowance

variable (allowed : Allowance)

def Writes (place : Place) : Prop :=
  allowed.free place ∨ allowed.files place

def Makes (place : Place) : Prop :=
  allowed.free place ∨ allowed.directories place

def unlimited : Allowance :=
  ⟨fun _ => True, fun _ => True, fun _ => True⟩

def nothing : Allowance :=
  ⟨fun _ => False, fun _ => False, fun _ => False⟩

def into (disk : Disk) (directory : Path) : Allowance :=
  ⟨fun place => disk.placeOf directory <+: place, fun _ => False, disk.OnWay directory⟩

def freeing (base : Place) : Allowance :=
  { allowed with
    free := fun place => allowed.free place ∨ base <+: place
    directories := fun place => allowed.directories place ∨ place <+: base }

end Allowance

structure Altered (allowed : Allowance) (before after : Disk) : Prop where
  sound : after.Sound
  current : after.current = before.current
  temporary : after.temporary = before.temporary
  node : ∀ place, allowed.free place ∨ after.node? place = before.node? place ∨
    (allowed.directories place ∧ before.node? place = none ∧
      after.node? place = some .directory) ∨
    (allowed.files place ∧ before.node? place ≠ some .directory ∧
      ∃ content executable, after.node? place = some (.file content executable))

namespace Altered

variable {allowed : Allowance} {before middle after : Disk}

theorem refl (sound : before.Sound) : Altered allowed before before :=
  ⟨sound, rfl, rfl, fun _ => Or.inr (Or.inl rfl)⟩

theorem trans (first : Altered allowed before middle) (second : Altered allowed middle after) :
    Altered allowed before after where
  sound := second.sound
  current := second.current.trans first.current
  temporary := second.temporary.trans first.temporary
  node place := by
    rcases second.node place with free | same | ⟨made, absent, directory⟩ | ⟨wrote, blocked, file⟩
    · exact Or.inl free
    · rw [same]
      exact first.node place
    · rcases first.node place with free | same | ⟨-, -, there⟩ | ⟨-, -, _, _, there⟩
      · exact Or.inl free
      · rw [same] at absent
        exact Or.inr (Or.inr (Or.inl ⟨made, absent, directory⟩))
      · rw [absent] at there
        cases there
      · rw [absent] at there
        cases there
    · rcases first.node place with free | same | ⟨-, -, directory⟩ | ⟨-, earlier, -⟩
      · exact Or.inl free
      · rw [same] at blocked
        exact Or.inr (Or.inr (Or.inr ⟨wrote, blocked, file⟩))
      · exact absurd directory blocked
      · exact Or.inr (Or.inr (Or.inr ⟨wrote, earlier, file⟩))

theorem mono {more : Allowance} (altered : Altered allowed before after)
    (free : ∀ place, allowed.free place → more.free place)
    (files : ∀ place, allowed.files place → more.Writes place)
    (directories : ∀ place, allowed.directories place → more.Makes place) :
    Altered more before after := by
  refine ⟨altered.sound, altered.current, altered.temporary, fun place => ?_⟩
  rcases altered.node place with here | kept | ⟨made, absent, new⟩ | ⟨wrote, blocked, file⟩
  · exact Or.inl (free place here)
  · exact Or.inr (Or.inl kept)
  · exact (directories place made).imp_right fun makes => Or.inr (Or.inl ⟨makes, absent, new⟩)
  · exact (files place wrote).imp_right fun writes => Or.inr (Or.inr ⟨writes, blocked, file⟩)

theorem placeOf (altered : Altered allowed before after) (path : Path) :
    after.placeOf path = before.placeOf path :=
  placeOf_congr altered.current path

theorem find?_eq (altered : Altered allowed before after) (sound : before.Sound) {path : Path}
    (apart : ∀ place, before.OnWay path place → ¬ allowed.free place ∧ ¬ allowed.files place)
    {node : Node} (found : before.find? path = some node) : after.find? path = some node := by
  have kept : ∀ place, before.OnWay path place → ∀ held, before.node? place = some held →
      after.node? place = some held := by
    intro place onWay held there
    rcases altered.node place with free | same | ⟨-, absent, -⟩ | ⟨wrote, -, -⟩
    · exact absurd free (apart place onWay).1
    · rwa [same]
    · rw [absent] at there
      cases there
    · exact absurd wrote (apart place onWay).2
  obtain ⟨noNull, begins, passes, held⟩ := sound.find?_eq_some_iff.1 found
  refine altered.sound.find?_eq_some_iff.2 ⟨noNull, ?_, ?_, ?_⟩
  · rw [start_congr altered.current]
    exact kept _ ⟨[], List.nil_prefix, rfl⟩ _ begins
  · rw [start_congr altered.current]
    exact passes_of_directories fun front starts whole =>
      kept _ ⟨front, starts, rfl⟩ _ (directory_of_passes passes starts whole)
  · rw [altered.placeOf]
    exact kept _ ⟨path.segments, List.prefix_refl _, rfl⟩ _ held

end Altered

theorem Allowance.into_congr {disk other : Disk} (current : other.current = disk.current)
    (directory : Path) : Allowance.into other directory = Allowance.into disk directory := by
  rw [into, into, placeOf_congr current]
  congr 1
  funext place
  exact propext (onWay_congr current)

theorem isWithin_iff {base place : Place} : isWithin base place = true ↔ base <+: place :=
  List.isPrefixOf_iff_prefix

theorem node?_prune (disk : Disk) {base : Place} (more : base ≠ []) (place : Place) :
    (disk.prune base).node? place = if base <+: place then none else disk.node? place := by
  by_cases root : place = []
  · subst root
    simp [more]
  · rw [node?_of_ne_root _ root, node?_of_ne_root _ root, prune,
      Std.ExtTreeMap.getElem?_filter']
    by_cases within : base <+: place
    · simp [within, isWithin_iff.2 within]
    · have outside : isWithin base place = false := by
        rw [← Bool.not_eq_true, isWithin_iff]
        exact within
      cases disk.nodes[place]? <;> simp [within, outside]

theorem WellFormed.put {disk : Disk} (wellFormed : disk.WellFormed) {parent : Place} {name : String}
    (directory : disk.node? parent = some .directory)
    (blocked : disk.node? (parent ++ [name]) ≠ some .directory) (node : Node) :
    (disk.put (parent ++ [name]) node).WellFormed := by
  intro base inner held
  rw [← node?_of_ne_root _ (by simp), node?_put disk (by simp)] at held
  rw [node?_put disk (by simp)]
  have base_directory : disk.node? base = some .directory := by
    split at held
    · rename_i same
      rw [← (List.append_inj' same rfl).1]
      exact directory
    · exact wellFormed.directory_of_concat held
  rw [if_neg fun same : parent ++ [name] = base => blocked (same ▸ base_directory)]
  exact base_directory

theorem WellFormed.prune {disk : Disk} (wellFormed : disk.WellFormed) {base : Place} (more : base ≠ []) :
    (disk.prune base).WellFormed := by
  intro parent inner held
  rw [← node?_of_ne_root _ (by simp), node?_prune disk more] at held
  split at held
  · exact absurd rfl held
  · rename_i outside
    rw [node?_prune disk more, if_neg fun within : base <+: parent =>
      outside (within.trans (List.prefix_append parent [inner]))]
    exact wellFormed.directory_of_concat held

section Sound

variable {disk : Disk} (sound : disk.Sound)

include sound

theorem Sound.put {place : Place} (reachable : disk.Reachable place)
    (blocked : disk.node? place ≠ some .directory) {node : Node}
    (noLink : ∀ target, node ≠ .link target) : (disk.put place node).Sound := by
  obtain ⟨parent, name, rfl, isName, directory⟩ := reachable.resolve_left blocked
  have more : parent ++ [name] ≠ [] := by simp
  refine ⟨?_, sound.wellFormed.put directory blocked node, ?_, sound.temporary⟩
  · intro other target
    rw [node?_put disk more]
    split
    · exact fun same => noLink target (Option.some.inj same)
    · exact sound.linkFree other target
  · intro other held
    rw [node?_put disk more] at held
    split at held
    · rename_i same
      subst same
      intro inner member
      rcases List.mem_append.1 member with inside | inside
      · exact sound.named parent (by simp [directory]) inner inside
      · rw [List.mem_singleton.1 inside]
        exact isName
    · exact sound.named other held

theorem Sound.erase {place : Place} (blocked : disk.node? place ≠ some .directory) :
    (disk.erase place).Sound := by
  refine ⟨?_, ?_, ?_, sound.temporary⟩
  · intro other target
    rw [node?_erase]
    split
    · simp
    · exact sound.linkFree other target
  · intro base inner held
    rw [← node?_of_ne_root _ (by simp), node?_erase] at held
    split at held
    · exact absurd rfl held
    · have directory := sound.directory_of_concat held
      rw [node?_erase, if_neg fun same : place = base ∧ base ≠ [] =>
        blocked (same.1 ▸ directory)]
      exact directory
  · intro other held
    rw [node?_erase] at held
    split at held
    · exact absurd rfl held
    · exact sound.named other held

theorem Sound.prune {base : Place} (more : base ≠ []) : (disk.prune base).Sound := by
  refine ⟨?_, sound.wellFormed.prune more, ?_, sound.temporary⟩
  · intro other target
    rw [node?_prune disk more]
    split
    · simp
    · exact sound.linkFree other target
  · intro other held
    rw [node?_prune disk more] at held
    split at held
    · exact absurd rfl held
    · exact sound.named other held

variable {allowed : Allowance}

theorem Sound.altered_put_directory {place : Place} (reachable : disk.Reachable place)
    (absent : disk.node? place = none) (makes : allowed.Makes place) :
    Altered allowed disk (disk.put place .directory) := by
  have blocked : disk.node? place ≠ some .directory := by simp [absent]
  obtain ⟨parent, name, rfl, -, -⟩ := reachable.resolve_left blocked
  refine ⟨sound.put reachable blocked (by simp), rfl, rfl, fun other => ?_⟩
  rw [node?_put disk (by simp)]
  split
  · rename_i same
    subst same
    exact makes.imp_right fun made => Or.inr (Or.inl ⟨made, absent, rfl⟩)
  · exact Or.inr (Or.inl rfl)

theorem Sound.altered_put_file {place : Place} (reachable : disk.Reachable place)
    (blocked : disk.node? place ≠ some .directory) (writes : allowed.Writes place)
    (content : ByteArray) (executable : Bool) :
    Altered allowed disk (disk.put place (.file content executable)) := by
  obtain ⟨parent, name, rfl, -, -⟩ := reachable.resolve_left blocked
  refine ⟨sound.put reachable blocked (by simp), rfl, rfl, fun other => ?_⟩
  rw [node?_put disk (by simp)]
  split
  · rename_i same
    subst same
    exact writes.imp_right fun wrote => Or.inr (Or.inr ⟨wrote, blocked, _, _, rfl⟩)
  · exact Or.inr (Or.inl rfl)

theorem Sound.altered_erase {place : Place} (blocked : disk.node? place ≠ some .directory)
    (free : allowed.free place) : Altered allowed disk (disk.erase place) := by
  refine ⟨sound.erase blocked, rfl, rfl, fun other => ?_⟩
  rw [node?_erase]
  split
  · rename_i same
    exact Or.inl (same.1 ▸ free)
  · exact Or.inr (Or.inl rfl)

theorem Sound.altered_prune {base : Place} (more : base ≠ [])
    (free : ∀ place, base <+: place → allowed.free place) :
    Altered allowed disk (disk.prune base) := by
  refine ⟨sound.prune more, rfl, rfl, fun other => ?_⟩
  rw [node?_prune disk more]
  split
  · rename_i within
    exact Or.inl (free other within)
  · exact Or.inr (Or.inl rfl)

end Sound

theorem Altered.prune_freeing {allowed : Allowance} {before after : Disk} {base : Place}
    (altered : Altered (allowed.freeing base) before after) (sound : before.Sound)
    (reachable : before.Reachable base) (fresh : before.node? base = none) :
    Altered allowed before (after.prune base) := by
  obtain ⟨parent, name, rfl, -, directory⟩ := reachable.resolve_left (by simp [fresh])
  have more : parent ++ [name] ≠ [] := by simp
  have onWay : ∀ place, place <+: parent ++ [name] → place ≠ parent ++ [name] →
      before.node? place = some .directory := by
    intro place way apart
    obtain ⟨rest, rfl⟩ := (List.prefix_concat_iff.1 way).resolve_left apart
    by_cases here : rest = []
    · rwa [here, List.append_nil] at directory
    · exact sound.directory_of_append here (by simp [directory])
  refine ⟨altered.sound.prune more, altered.current, altered.temporary, fun place => ?_⟩
  rw [node?_prune after more]
  split
  · rename_i within
    obtain ⟨rest, rfl⟩ := within
    by_cases here : rest = []
    · subst here
      rw [List.append_nil, fresh]
      exact Or.inr (Or.inl rfl)
    · rw [sound.none_of_append here (by simp [fresh])]
      exact Or.inr (Or.inl rfl)
  · rename_i outside
    rcases altered.node place with (free | within) | same | ⟨made | way, absent, new⟩ | wrote
    · exact Or.inl free
    · exact absurd within outside
    · exact Or.inr (Or.inl same)
    · exact Or.inr (Or.inr (Or.inl ⟨made, absent, new⟩))
    · rw [onWay place way fun same => outside (same ▸ List.prefix_refl _)] at absent
      cases absent
    · exact Or.inr (Or.inr (Or.inr wrote))

end Archetype.Disk
