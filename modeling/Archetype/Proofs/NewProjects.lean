import Archetype.Proofs.Placements
import Archetype.Proofs.Runs
import Mathlib.Data.List.Forall2
import Mathlib.Data.List.Pairwise

namespace Archetype.Disk

structure Vacant (disk : Disk) (goal : Place) : Prop where
  named : ∀ name ∈ goal, Path.IsName name
  noNull : hasNull goal = false
  absent : disk.node? goal = none
  way : ∀ place, place <+: goal →
    disk.node? place = some .directory ∨ disk.node? place = none

structure Write.LiesAt (goal rest : Place) (write : Write) : Prop where
  path : write.path = .fromRoot (goal ++ rest)
  named : ∀ name ∈ rest, Path.IsName name
  more : rest ≠ []
  noNull : hasNull rest = false
  inside : ∀ name, write.name? = some name → Path.IsName name ∧ hasNull [name] = false

section LiesAt

variable {goal rest : Place} {write : Write} (lies : write.LiesAt goal rest)

include lies

theorem Write.LiesAt.staysBelow : write.StaysBelow (.fromRoot goal) :=
  ⟨rest, lies.named, lies.path⟩

theorem Write.LiesAt.parent : write.path.parent = .fromRoot (goal ++ rest.dropLast) := by
  rw [lies.path, Path.parent, Path.fromRoot, List.dropLast_append_of_ne_nil lies.more]
  rfl

end LiesAt

section Vacant

variable {disk : Disk} {goal : Place} (vacant : disk.Vacant goal)

include vacant

theorem Vacant.isName {rest : Place} (named : ∀ name ∈ rest, Path.IsName name) :
    ∀ name ∈ goal ++ rest, Path.IsName name :=
  fun name member => (List.mem_append.1 member).elim (vacant.named name) (named name)

theorem Vacant.placeOf {rest : Place} {write : Write} (lies : write.LiesAt goal rest) :
    disk.placeOf write.path = goal ++ rest := by
  rw [lies.path, placeOf_fromRoot disk (vacant.isName lies.named)]

theorem Vacant.prefix_of_onWay {rest : Place} {write : Write} (lies : write.LiesAt goal rest)
    {place : Place} (onWay : disk.OnWay write.path.parent place) :
    place <+: goal ++ rest.dropLast := by
  rw [lies.parent] at onWay
  exact onWay_fromRoot
    (vacant.isName fun name member => lies.named name (List.dropLast_subset _ member)) onWay

section Items

variable {items : List (Place × Write)} (lie : ∀ item ∈ items, item.2.LiesAt goal item.1)
  (apart : (items.map Prod.fst).Pairwise Apart)

include lie

theorem Vacant.layable (sound : disk.Sound) (apart : (items.map Prod.fst).Pairwise Apart) :
    disk.Layable (items.map Prod.snd) := by
  have absent : ∀ rest, disk.node? (goal ++ rest) = none := fun rest =>
    sound.wellFormed.none_of_prefix vacant.absent (List.prefix_append _ _)
  refine ⟨?_, ?_, ?_, ?_, ?_, ?_⟩ <;> refine List.forall_mem_map.2 fun item member => ?_ <;>
    have lies := lie item member
  · refine ⟨?_, lies.inside⟩
    rw [lies.path]
    exact fun name member => (vacant.isName lies.named name member).1
  · rw [lies.path]
    exact hasNull_append vacant.noNull lies.noNull
  · rw [lies.path]
    exact disk.node?_root
  · intro place onWay
    rcases List.prefix_or_prefix_of_prefix (vacant.prefix_of_onWay lies onWay)
      (List.prefix_append _ _) with above | within
    · exact vacant.way place above
    · exact Or.inr (sound.wellFormed.none_of_prefix vacant.absent within)
  · rw [vacant.placeOf lies, absent]
    exact nofun
  · refine List.forall_mem_map.2 fun other inside onWay => ?_
    have starts := vacant.prefix_of_onWay lies onWay
    rw [vacant.placeOf (lie other inside), List.prefix_append_right_inj] at starts
    by_cases same : other.1 = item.1
    · have short := starts.length_le
      rw [same, List.length_dropLast] at short
      have more := List.length_pos_iff.2 lies.more
      omega
    · exact (apart.forall (List.mem_map_of_mem inside) (List.mem_map_of_mem member) same).1
        (starts.trans (List.dropLast_prefix _))

theorem Vacant.contents_atPaths : contents (disk.atPaths (items.map Prod.snd)) =
    items.map fun item => (goal ++ item.1, item.2.content) := by
  rw [contents, atPaths, List.map_map, List.map_map]
  refine List.map_congr_left fun item member => ?_
  simp only [Function.comp_apply, vacant.placeOf (lie item member)]

end Items

end Vacant

structure Gained (goal : Place) (files : List (Place × Content)) (before after : Disk) : Prop where
  sound : after.Sound
  inside : ∀ file ∈ files, after.contentAt (goal ++ file.1) = some file.2
  outside : ∀ place, (∀ file ∈ files, place ≠ goal ++ file.1) →
    after.contentAt place = before.contentAt place

section Gained

variable {goal : Place} {files : List (Place × Content)} {before after : Disk}
  (gained : Gained goal files before after)

include gained

theorem Gained.isSome_iff (sound : before.Sound) (vacant : before.Vacant goal) {place : Place} :
    (after.contentAt (goal ++ place)).isSome = true ↔ place ∈ files.map Prod.fst := by
  constructor
  · intro held
    by_contra nowhere
    rw [gained.outside _ fun file member same =>
      nowhere (List.mem_map.2 ⟨file, member, (List.append_cancel_left same).symm⟩)] at held
    have absent := sound.wellFormed.none_of_append vacant.absent place
    rw [contentAt, absent] at held
    cases held
  · intro member
    obtain ⟨file, inside, rfl⟩ := List.mem_map.1 member
    rw [gained.inside file inside]
    rfl

theorem Gained.contentAt_of_not_below {place : Place} (elsewhere : ¬ goal <+: place) :
    after.contentAt place = before.contentAt place :=
  gained.outside place fun _ _ same => elsewhere (same ▸ List.prefix_append _ _)

end Gained

theorem gained_of_overlay {before after : Disk} (sound : after.Sound) {goal : Place}
    {files : List (Place × Content)} (apart : (files.map Prod.fst).Pairwise Apart)
    (holds : after.contentAt =
      overlay before.contentAt (files.map fun file => (goal ++ file.1, file.2))) :
    Gained goal files before after := by
  refine ⟨sound, fun file member => ?_, fun place nowhere => ?_⟩ <;> rw [holds]
  · refine overlay_of_mem (List.mem_map.2 ⟨file, member, rfl⟩) (List.forall_mem_map.2 ?_) _
    intro other inside same
    by_cases once : other = file
    · rw [once]
    · have distinct : files.Pairwise fun file other => Apart file.1 other.1 :=
        List.pairwise_map.1 apart
      have : Std.Symm fun file other : Place × Content => Apart file.1 other.1 :=
        ⟨fun _ _ => Apart.symm⟩
      have parted := distinct.forall inside member once
      rw [List.append_cancel_left same] at parted
      exact absurd (List.prefix_refl _) parted.1
  · exact overlay_other (List.forall_mem_map.2 fun file member => (nowhere file member).symm) _

end Archetype.Disk

namespace Archetype.Template.Entry

open Archetype.Action Archetype.Disk Archetype.Copier

section Vacant

variable {world : World} (sound : world.disk.Sound) {template : Path}
  (template_written : template.IsWritten) {goal : Place} (vacant : world.disk.Vacant goal)
  (separate : world.disk.Separate template (.fromRoot goal)) {copier : Copier}
  {replacements : Replacements} {entries : List Entry}
  (inners : ∀ entry ∈ entries, entry.Inner replacements) {parts : List (List (Place × Write))}
  (planned : List.Forall₂ (fun entry items => entry.Plans copier template (.fromRoot goal)
    replacements world.disk (items.map Prod.snd)) entries parts)
  (lie : ∀ item ∈ parts.flatten, item.2.LiesAt goal item.1)
  (apart : (parts.flatten.map Prod.fst).Pairwise Apart)

include sound template_written vacant separate inners planned lie apart

theorem copyAll_vacant :
    ∃ reached, copyAll copier template (.fromRoot goal) replacements entries world =
        .ok (parts.flatten.map fun item => .fromRoot (goal ++ item.1)) reached ∧
      Gained goal (parts.flatten.map fun item => (item.1, item.2.content)) world.disk
        reached.disk := by
  have layable := vacant.layable lie sound apart
  obtain ⟨after, lays⟩ := layable.lays sound
  let runs := parts.map fun items => world.disk.atPaths (items.map Prod.snd)
  have whole : runs.flatten = world.disk.atPaths (parts.flatten.map Prod.snd) := by
    simp only [runs, atPaths, List.map_flatten, List.map_map, Function.comp_def]
  have stays : ∀ item ∈ runs.flatten, item.1.StaysBelow (.fromRoot goal) := by
    rw [whole, atPaths, List.map_map]
    exact List.forall_mem_map.2 fun item member => (lie item member).staysBelow
  rw [← whole] at lays
  have ran : Runs copier template (.fromRoot goal) replacements entries runs world.disk after := by
    refine runs_of_lays ?_ inners stays (.of_same (Agree.refl sound)) separate sound lays
    refine List.forall₂_map_right_iff.2 (planned.imp fun entry items plans => ?_)
    rwa [map_fst_atPaths]
  have goal_written : (Path.fromRoot goal).IsWritten := fun name member =>
    (vacant.named name member).1
  obtain ⟨reached, ends, same⟩ := copyAll_runs template_written goal_written inners sound separate ran
  refine ⟨reached, ?_, gained_of_overlay same.right_sound ?_ ?_⟩
  · rw [ends, whole, atPaths, List.map_map, List.map_map]
    congr 1
    exact List.map_congr_left fun item member => (lie item member).path
  · rwa [List.map_map]
  · rw [show reached.disk.contentAt = after.contentAt from
      funext fun place => same.contentAt trivial, lays.contentAt_eq, whole,
      vacant.contents_atPaths lie, List.map_map]
    rfl

end Vacant

end Archetype.Template.Entry
