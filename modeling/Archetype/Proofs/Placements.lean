import Archetype.Proofs.Plans

namespace Archetype.Disk

section Clear

variable {disk : Disk} (base : Place)

theorem isBelow_iff {base place : Place} : isBelow base place = true ↔ Below place base := by
  rw [isBelow, Bool.and_eq_true, isWithin_iff, bne_iff_ne]
  exact Iff.rfl

theorem node?_clear (disk : Disk) (place : Place) :
    (disk.clear base).node? place = if Below place base then none else disk.node? place := by
  by_cases root : place = []
  · subst root
    have outside : ¬ Below [] base := fun below => below.2 (List.prefix_nil.1 below.1)
    simp [outside]
  · rw [node?_of_ne_root _ root, node?_of_ne_root _ root, clear, Std.ExtTreeMap.getElem?_filter']
    by_cases below : Below place base
    · simp [below, isBelow_iff.2 below]
    · have outside : isBelow base place = false := by
        rw [← Bool.not_eq_true, isBelow_iff]
        exact below
      cases disk.nodes[place]? <;> simp [below, outside]

theorem Sound.clear (sound : disk.Sound) : (disk.clear base).Sound := by
  refine ⟨?_, ?_, ?_, sound.temporary⟩
  · intro place target
    rw [node?_clear]
    split
    · simp
    · exact sound.linkFree place target
  · intro parent name held
    rw [← node?_of_ne_root _ (by simp), node?_clear] at held
    split at held
    · exact absurd rfl held
    · rename_i outside
      rw [node?_clear, if_neg fun below : Below parent base => outside
        ⟨below.1.trans (List.prefix_append _ _), fun same => below.2
          (below.1.eq_of_length_le (by simp [same]))⟩]
      exact sound.directory_of_concat held
  · intro place held
    rw [node?_clear] at held
    split at held
    · exact absurd rfl held
    · exact sound.named place held

end Clear

/-- The ways to the template and to the project lead through nothing below the project: neither path
leads back out of a directory there, as `p/x/..` does. -/
def Straight (disk : Disk) (template target : Path) : Prop :=
  ∀ place, disk.OnWay template place ∨ disk.OnWay target place →
    ¬ Below place (disk.placeOf target)

section Emptied

variable {disk : Disk} {template target : Path} (separate : disk.Separate template target)

include separate

theorem Separate.straight (template_written : template.IsWritten) (target_written : target.IsWritten)
    (template_inner : ".." ∉ template.segments) (target_inner : ".." ∉ target.segments) :
    disk.Straight template target := by
  rintro place (onWay | onWay) below
  · exact separate.template_target.2
      (below.1.trans (prefix_of_onWay template_written template_inner onWay))
  · have above := prefix_of_onWay target_written target_inner onWay
    exact below.2 (below.1.eq_of_length_le above.length_le)

theorem Separate.agree_clear (sound : disk.Sound) :
    Agree (fun place => disk.placeOf template <+: place ∨ disk.temporary <+: place) disk
      (disk.clear (disk.placeOf target)) := by
  refine ⟨sound, sound.clear _, rfl, rfl, fun place inside => ?_⟩
  rw [node?_clear, if_neg fun below : Below place (disk.placeOf target) => ?_]
  exact inside.elim (not_prefix_of_apart separate.template_target.symm below.1)
    (not_prefix_of_apart separate.target_temporary below.1)

theorem Separate.clear
    (straight : ∀ place, disk.OnWay target place → ¬ Below place (disk.placeOf target)) :
    (disk.clear (disk.placeOf target)).Separate template target := by
  refine ⟨separate.template_target, separate.template_temporary, separate.target_temporary,
    fun place onWay absent => separate.way place onWay ?_⟩
  rwa [node?_clear, if_neg (straight place onWay)] at absent

end Emptied

structure Layable (disk : Disk) (writes : List Write) : Prop where
  proper : ∀ write ∈ writes, write.Proper
  noNull : ∀ write ∈ writes, hasNull write.path.segments = false
  begins : ∀ write ∈ writes, disk.node? (disk.start write.path.anchor) = some .directory
  way : ∀ write ∈ writes, ∀ place, disk.OnWay write.path.parent place →
    disk.node? place = some .directory ∨ disk.node? place = none
  vacant : ∀ write ∈ writes, disk.node? (disk.placeOf write.path) ≠ some .directory
  free : ∀ write ∈ writes, ∀ other ∈ writes,
    ¬ disk.OnWay write.path.parent (disk.placeOf other.path)

def atPaths (disk : Disk) (writes : List Write) : List (Write × Place) :=
  writes.map fun write => (write, disk.placeOf write.path)

theorem atPaths_congr {disk other : Disk} (current : other.current = disk.current)
    (writes : List Write) : other.atPaths writes = disk.atPaths writes :=
  List.map_congr_left fun write _ => by rw [placeOf_congr current]

theorem map_fst_atPaths (disk : Disk) (writes : List Write) :
    (disk.atPaths writes).map Prod.fst = writes := by
  rw [atPaths, List.map_map]
  exact List.map_id writes

theorem atPaths_of_places {disk : Disk} {laid : List (Write × Place)}
    (places : ∀ item ∈ laid, item.2 = disk.placeOf item.1.path) :
    disk.atPaths (laid.map Prod.fst) = laid := by
  induction laid with
  | nil => rfl
  | cons item laid ih =>
      obtain ⟨here, later⟩ := List.forall_mem_cons.1 places
      rw [List.map_cons, atPaths, List.map_cons, ← here]
      exact congrArg (item :: ·) (ih later)

section Layable

variable {disk : Disk} {writes : List Write}

theorem Layable.mono (layable : disk.Layable writes) {others : List Write}
    (within : others ⊆ writes) : disk.Layable others where
  proper write member := layable.proper write (within member)
  noNull write member := layable.noNull write (within member)
  begins write member := layable.begins write (within member)
  way write member := layable.way write (within member)
  vacant write member := layable.vacant write (within member)
  free write member other inside := layable.free write (within member) other (within inside)

theorem Layable.receives (layable : disk.Layable writes) {write : Write} (member : write ∈ writes) :
    disk.Receives write (disk.placeOf write.path) where
  proper := layable.proper write member
  noNull := layable.noNull write member
  makeable := ⟨hasNull_of_subset (List.dropLast_subset _) (layable.noNull write member),
    layable.begins write member, layable.way write member⟩
  lands := .here fun paves => paves.elim (layable.free write member write member)
    (layable.vacant write member)

theorem Layable.after_laid (layable : disk.Layable writes) {write : Write} (member : write ∈ writes)
    {after : Disk} (laid : Laid write (disk.placeOf write.path) disk after) :
    after.Layable writes where
  proper := layable.proper
  noNull := layable.noNull
  begins other inside := by
    rw [start_congr laid.current]
    exact laid.grows (layable.begins other inside)
  way other inside place onWay := by
    have before_way := (onWay_congr laid.current).1 onWay
    have apart : place ≠ disk.placeOf write.path := fun same =>
      layable.free other inside write member (same ▸ before_way)
    by_cases made : disk.OnWay write.path.parent place
    · exact Or.inl (laid.way place made)
    · rw [laid.other place apart made]
      exact layable.way other inside place before_way
  vacant other inside directory := by
    rw [placeOf_congr laid.current, laid.directory_iff] at directory
    exact directory.elim (layable.free write member other inside) (layable.vacant other inside)
  free other inside another among onWay := by
    rw [placeOf_congr laid.current] at onWay
    exact layable.free other inside another among ((onWay_congr laid.current).1 onWay)

theorem Layable.lays (layable : disk.Layable writes) (sound : disk.Sound) :
    ∃ after, Lays (disk.atPaths writes) disk after := by
  induction writes generalizing disk with
  | nil => exact ⟨disk, .nil (Agree.refl sound)⟩
  | cons write others ih =>
      obtain ⟨middle, laid⟩ := exists_laid sound (layable.receives List.mem_cons_self)
      have still := layable.after_laid List.mem_cons_self laid
      obtain ⟨after, lays⟩ := ih (still.mono (List.subset_cons_self _ _)) laid.sound
      rw [atPaths_congr laid.current] at lays
      exact ⟨after, .cons laid lays⟩

theorem Layable.clear (layable : disk.Layable writes) {base : Place}
    (begins : ∀ write ∈ writes, ¬ Below (disk.start write.path.anchor) base) :
    (disk.clear base).Layable writes where
  proper := layable.proper
  noNull := layable.noNull
  begins write member := by
    change (disk.clear base).node? (disk.start write.path.anchor) = some .directory
    rw [node?_clear, if_neg (begins write member)]
    exact layable.begins write member
  way write member place onWay := by
    rw [node?_clear]
    split
    · exact Or.inr rfl
    · exact layable.way write member place onWay
  vacant write member := by
    change (disk.clear base).node? (disk.placeOf write.path) ≠ some .directory
    rw [node?_clear]
    split
    · exact nofun
    · exact layable.vacant write member
  free := layable.free

end Layable

theorem Lays.receives {laid : List (Write × Place)} {before after : Disk}
    (lays : Lays laid before after) (sound : before.Sound) {item : Write × Place}
    (member : item ∈ laid) :
    ∃ front middle, Lays front before middle ∧ middle.Receives item.1 item.2 := by
  obtain ⟨front, back, rfl⟩ := List.append_of_mem member
  obtain ⟨middle, front_lays, others⟩ := lays.split sound
  cases others with
  | cons first => exact ⟨front, middle, front_lays, first.receives⟩

theorem Lays.node_of_nowhere {laid : List (Write × Place)} {before after : Disk}
    (lays : Lays laid before after) (sound : before.Sound) {place : Place}
    (apart : ∀ write ∈ contents laid, write.1 ≠ place) :
    after.node? place = before.node? place ∨
      (before.node? place = none ∧ after.node? place = some .directory) := by
  have same : after.contentAt place = before.contentAt place := by
    rw [lays.contentAt_eq, overlay_other apart]
  cases held : before.contentAt place with
  | some content =>
      rw [held] at same
      rw [contentAt_eq_some_iff.1 held, contentAt_eq_some_iff.1 same]
      exact Or.inl rfl
  | none =>
      rw [held] at same
      rcases sound.directory_or_absent held with directory | absent
      · exact Or.inl ((lays.grows directory).trans directory.symm)
      · exact ((lays.sound sound).directory_or_absent same).elim (fun made => Or.inr ⟨absent, made⟩)
          fun still => Or.inl (still.trans absent.symm)

section Way

variable {target : Path} {write : Write} (stays : write.StaysBelow target)

include stays

theorem Write.StaysBelow.anchor : write.path.anchor = target.anchor := by
  obtain ⟨rest, -, path⟩ := stays
  rw [path]
  rfl

theorem Write.StaysBelow.onWay_parent {disk : Disk} {place : Place}
    (onWay : disk.OnWay write.path.parent place) :
    write.path = target ∨ disk.placeOf target ≠ disk.placeOf write.path ∧
      (disk.OnWay target place ∨ Below (disk.placeOf write.path) place) := by
  obtain ⟨rest, named, path⟩ := stays
  have led : disk.placeOf write.path = disk.placeOf target ++ rest := by
    rw [path, placeOf_join_of_current disk target rfl]
    exact walk_names named _
  rw [Path.join_of_current target rfl] at path
  rcases List.eq_nil_or_concat' rest with rfl | ⟨front, last, rfl⟩
  · exact Or.inl (path.trans (by simp))
  · have parent : write.path.parent = ⟨target.anchor, target.segments ++ front⟩ := by
      rw [path, Path.parent]
      simp only [← List.append_assoc, List.dropLast_concat]
    refine Or.inr ⟨by simp [led], ?_⟩
    rw [parent, onWay_append_iff] at onWay
    refine onWay.imp_right ?_
    rintro ⟨inner, starts, rfl⟩
    rw [walk_names fun name member => named name (List.mem_append_left _ (starts.subset member)), led]
    refine ⟨(List.prefix_append_right_inj _).2 (starts.trans (List.prefix_append _ _)), fun same => ?_⟩
    have short := starts.length_le
    rw [List.append_cancel_left same, List.length_append, List.length_singleton] at short
    omega

end Way

section Laid

variable {laid : List (Write × Place)} {before after : Disk} (lays : Lays laid before after)
  (sound : before.Sound) {target : Path} (stays : ∀ item ∈ laid, item.1.StaysBelow target)

include lays

theorem Lays.begins {item : Write × Place} (stays : ∀ item ∈ laid, item.1.StaysBelow target)
    (member : item ∈ laid) :
    before.node? (before.start item.1.path.anchor) = some .directory := by
  cases lays with
  | nil => cases member
  | cons first rest =>
      rw [(stays item member).anchor, ← (stays _ List.mem_cons_self).anchor]
      exact first.receives.makeable.begins

include sound stays

theorem layable_of_lays
    (straight : ∀ place, before.OnWay target place → ¬ Below place (before.placeOf target))
    (own : ∀ item ∈ laid, item.2 = before.placeOf item.1.path)
    (apart : ∀ item ∈ laid, ∀ other ∈ laid,
      ¬ Below (before.placeOf item.1.path) (before.placeOf other.1.path)) :
    before.Layable (laid.map Prod.fst) := by
  -- the disk on which a file has been laid, back to the one on which none has
  have received : ∀ {item}, item ∈ laid → ∃ front middle, Lays front before middle ∧
      middle.Receives item.1 (before.placeOf item.1.path) := fun {item} member => by
    obtain ⟨front, middle, front_lays, receives⟩ := lays.receives sound member
    exact ⟨front, middle, front_lays, own item member ▸ receives⟩
  refine ⟨?_, ?_, ?_, ?_, ?_, ?_⟩ <;> simp only [List.forall_mem_map]
  · intro item member
    obtain ⟨_, _, -, receives⟩ := received member
    exact receives.proper
  · intro item member
    obtain ⟨_, _, -, receives⟩ := received member
    exact receives.noNull
  · exact fun item member => lays.begins stays member
  · intro item member place onWay
    obtain ⟨_, middle, front_lays, receives⟩ := received member
    refine sound.directory_or_absent ?_
    by_contra file
    refine front_lays.keepsFile file (contentAt_eq_none ?_)
    exact (receives.makeable.way place ((onWay_congr front_lays.current).2 onWay)).symm
  · intro item member directory
    obtain ⟨_, middle, front_lays, receives⟩ := received member
    exact not_paves_of_lands receives.lands (Or.inr (front_lays.grows directory))
  · intro item member other inside onWay
    obtain ⟨_, middle, front_lays, receives⟩ := received member
    have within : before.placeOf target <+: before.placeOf other.1.path :=
      (stays other inside).placeOf
    have at_target : before.OnWay target (before.placeOf other.1.path) →
        before.placeOf other.1.path = before.placeOf target := fun way => by
      by_contra differ
      exact straight _ way ⟨within, Ne.symm differ⟩
    -- a place on the way to a file lies on the way to the target or below it
    rcases (stays item member).onWay_parent onWay with same | ⟨differ, way | below⟩
    · have way : before.OnWay target (before.placeOf other.1.path) := by
        rw [same] at onWay
        exact Copier.onWay_of_parent onWay
      rw [at_target way, ← same] at onWay
      exact not_paves_of_lands receives.lands (Or.inl ((onWay_congr front_lays.current).2 onWay))
    · refine apart item member other inside ?_
      rw [at_target way]
      exact ⟨(stays item member).placeOf, differ⟩
    · exact apart item member other inside below

end Laid

end Archetype.Disk
