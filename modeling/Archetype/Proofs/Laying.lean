import Archetype.Proofs.Completions
import Archetype.Proofs.Disk.Agreement

namespace Archetype.Disk

/-- A file to be written: its path, its content, and its name in a directory, if its path may lead to
one. -/
structure Write where
  path : Path
  content : Content
  name? : Option String

structure Write.Proper (write : Write) : Prop where
  path : write.path.IsWritten
  named : ∀ name, write.name? = some name → Path.IsName name ∧ hasNull [name] = false

def Paves (disk : Disk) (path : Path) (place : Place) : Prop :=
  disk.OnWay path.parent place ∨ disk.node? place = some .directory

/-- Where a file comes to lie. -/
inductive Lands (disk : Disk) (write : Write) : Place → Prop
  | here (vacant : ¬ disk.Paves write.path (disk.placeOf write.path)) :
      Lands disk write (disk.placeOf write.path)
  | inside {name : String} (named : write.name? = some name)
      (directory : disk.Paves write.path (disk.placeOf write.path))
      (vacant : ¬ disk.Paves write.path (disk.placeOf write.path ++ [name])) :
      Lands disk write (disk.placeOf write.path ++ [name])

structure Receives (disk : Disk) (write : Write) (landing : Place) : Prop where
  proper : write.Proper
  noNull : hasNull write.path.segments = false
  makeable : disk.Makeable write.path.parent
  lands : disk.Lands write landing

structure Paved (path : Path) (before after : Disk) : Prop where
  makeable : before.Makeable path
  sound : after.Sound
  current : after.current = before.current
  temporary : after.temporary = before.temporary
  way : ∀ place, before.OnWay path place → after.node? place = some .directory
  other : ∀ place, ¬ before.OnWay path place → after.node? place = before.node? place

structure Laid (write : Write) (landing : Place) (before after : Disk) : Prop where
  receives : before.Receives write landing
  sound : after.Sound
  current : after.current = before.current
  temporary : after.temporary = before.temporary
  file : after.node? landing = some (.file write.content.1 write.content.2)
  way : ∀ place, before.OnWay write.path.parent place → after.node? place = some .directory
  other : ∀ place, place ≠ landing → ¬ before.OnWay write.path.parent place →
    after.node? place = before.node? place

theorem not_paves_of_lands {disk : Disk} {write : Write} {landing : Place}
    (lands : disk.Lands write landing) : ¬ disk.Paves write.path landing := by
  cases lands with
  | here vacant => exact vacant
  | inside named directory vacant => exact vacant

theorem prefix_of_lands {disk : Disk} {write : Write} {landing : Place}
    (lands : disk.Lands write landing) : disk.placeOf write.path <+: landing := by
  cases lands with
  | here vacant => exact List.prefix_refl _
  | inside named directory vacant => exact List.prefix_append _ _

section Laid

variable {write : Write} {landing : Place} {before after : Disk}
  (laid : Laid write landing before after)

include laid

theorem Laid.directory_iff (place : Place) :
    after.node? place = some .directory ↔ before.Paves write.path place := by
  by_cases landed : place = landing
  · subst landed
    refine iff_of_false ?_ (not_paves_of_lands laid.receives.lands)
    rw [laid.file]
    exact nofun
  · by_cases onWay : before.OnWay write.path.parent place
    · exact iff_of_true (laid.way place onWay) (Or.inl onWay)
    · rw [laid.other place landed onWay]
      exact ⟨Or.inr, fun paves => paves.resolve_left onWay⟩

theorem Laid.grows {place : Place} (directory : before.node? place = some .directory) :
    after.node? place = some .directory :=
  (laid.directory_iff place).2 (Or.inr directory)

theorem Laid.contentAt_eq :
    after.contentAt = Function.update before.contentAt landing (some write.content) := by
  funext place
  by_cases landed : place = landing
  · rw [landed, Function.update_self]
    exact contentAt_eq_some_iff.2 laid.file
  · rw [Function.update_of_ne landed]
    by_cases onWay : before.OnWay write.path.parent place
    · rw [contentAt_eq_none (Or.inr (laid.way place onWay)),
        contentAt_eq_none (laid.receives.makeable.way place onWay).symm]
    · exact contentAt_congr (laid.other place landed onWay)

theorem Laid.agree {region : Place → Prop} {other last : Disk}
    (other_laid : Laid write landing other last) (agree : Agree region before other) :
    Agree region after last := by
  refine ⟨laid.sound, other_laid.sound, ?_, ?_, fun place inside => ?_⟩
  · rw [other_laid.current, laid.current, agree.current]
  · rw [other_laid.temporary, laid.temporary, agree.temporary]
  · by_cases landed : place = landing
    · rw [landed, laid.file, other_laid.file]
    · by_cases onWay : before.OnWay write.path.parent place
      · rw [laid.way place onWay, other_laid.way place (agree.onWay_iff.2 onWay)]
      · rw [laid.other place landed onWay,
          other_laid.other place landed fun way => onWay (agree.onWay_iff.1 way),
          agree.node place inside]

end Laid

section Paved

variable {path : Path} {before after : Disk} (paved : Paved path before after)

include paved

theorem Paved.altered : Altered ⟨fun _ => False, fun _ => False, before.OnWay path⟩ before after := by
  refine ⟨paved.sound, paved.current, paved.temporary, fun place => ?_⟩
  by_cases onWay : before.OnWay path place
  · rcases paved.makeable.way place onWay with directory | absent
    · exact Or.inr (Or.inl ((paved.way place onWay).trans directory.symm))
    · exact Or.inr (Or.inr (Or.inl ⟨onWay, absent, paved.way place onWay⟩))
  · exact Or.inr (Or.inl (paved.other place onWay))

theorem Paved.find?_eq (sound : before.Sound) {named : Path} {node : Node}
    (found : before.find? named = some node) : after.find? named = some node :=
  paved.altered.find?_eq sound (fun _ _ => ⟨id, id⟩) found

theorem Paved.directory_iff (place : Place) :
    after.node? place = some .directory ↔
      before.OnWay path place ∨ before.node? place = some .directory := by
  by_cases onWay : before.OnWay path place
  · exact iff_of_true (paved.way place onWay) (Or.inl onWay)
  · rw [paved.other place onWay]
    exact ⟨Or.inr, fun either => either.resolve_left onWay⟩

end Paved

theorem segments_eq_of_parent {path : Path} {before : List String} (starts : before <+: path.segments)
    (apart : before ≠ path.segments) : before <+: path.parent.segments := by
  obtain ⟨others, name, last⟩ := List.eq_nil_or_concat' path.segments |>.resolve_left
    fun empty => apart (by simpa [empty] using starts)
  rw [Path.parent, last, List.dropLast_concat]
  rw [last] at starts apart
  exact (List.prefix_concat_iff.1 starts).resolve_left apart

theorem Paved.passes {path : Path} {before after : Disk} (paved : Paved path.parent before after) :
    after.Passes (after.start path.anchor) path.segments := by
  rw [start_congr paved.current]
  exact passes_of_directories fun front starts apart =>
    paved.way _ ⟨front, segments_eq_of_parent starts apart, rfl⟩

theorem Paved.begins {path : Path} {before after : Disk} (paved : Paved path before after) :
    after.node? (after.start path.anchor) = some .directory := by
  rw [start_congr paved.current]
  exact paved.way _ ⟨[], List.nil_prefix, rfl⟩

theorem Paved.laid {write : Write} {landing : Place} {before made : Disk}
    (paved : Paved write.path.parent before made) (receives : before.Receives write landing) :
    Laid write landing before
      (made.put landing (.file write.content.1 write.content.2)) := by
  have vacant : ¬ before.Paves write.path landing := not_paves_of_lands receives.lands
  have blocked : made.node? landing ≠ some .directory := fun directory =>
    vacant ((paved.directory_iff landing).1 directory)
  have reachable : made.Reachable landing := by
    cases receives.lands with
    | here =>
        have reached : made.Reachable (made.placeOf write.path) := paved.sound.reachable_walk
          (fun segment member => Or.inr (receives.proper.path segment member))
          paved.begins paved.passes
        rwa [placeOf_congr paved.current] at reached
    | inside named directory =>
        exact Or.inr ⟨_, _, rfl, (receives.proper.named _ named).1,
          (paved.directory_iff _).2 directory⟩
  have more : landing ≠ [] := by
    rintro rfl
    exact blocked made.node?_root
  refine ⟨receives, paved.sound.put reachable blocked (by simp), paved.current, paved.temporary,
    ?_, fun place onWay => ?_, fun place apart off => ?_⟩
  · rw [node?_put made more, if_pos rfl]
  · have differ : landing ≠ place := fun same => vacant (Or.inl (same ▸ onWay))
    rw [node?_put made more, if_neg differ]
    exact paved.way place onWay
  · rw [node?_put made more, if_neg (Ne.symm apart)]
    exact paved.other place off

theorem lands_congr {left right : Disk} {write : Write} {landing : Place}
    (current : right.current = left.current)
    (paves : ∀ place, left.placeOf write.path <+: place → place <+: landing →
      (right.Paves write.path place ↔ left.Paves write.path place))
    (lands : left.Lands write landing) : right.Lands write landing := by
  have place := placeOf_congr current write.path
  cases lands with
  | here vacant =>
      have same := paves _ (List.prefix_refl _) (List.prefix_refl _)
      rw [← place] at same ⊢
      exact .here fun directory => vacant (place ▸ same.1 directory)
  | inside named directory vacant =>
      have same := paves _ (List.prefix_refl _) (List.prefix_append _ _)
      have same_inside := paves _ (List.prefix_append _ _) (List.prefix_refl _)
      rw [← place] at same same_inside ⊢
      exact .inside named (same.2 (place ▸ directory)) fun there =>
        vacant (place ▸ same_inside.1 there)

theorem Receives.congr {region : Place → Prop} {left right : Disk} {write : Write}
    {landing : Place} (receives : left.Receives write landing) (agree : Agree region left right)
    (way : ∀ place, left.OnWay write.path.parent place → region place)
    (inside : ∀ place, left.placeOf write.path <+: place → place <+: landing → region place) :
    right.Receives write landing := by
  refine ⟨receives.proper, receives.noNull, ⟨receives.makeable.noNull, ?_, fun place onWay => ?_⟩,
    lands_congr agree.current (fun place below above => ?_) receives.lands⟩
  · rw [agree.node_start way]
    exact receives.makeable.begins
  · have left_way := agree.onWay_iff.1 onWay
    rw [agree.node place (way place left_way)]
    exact receives.makeable.way place left_way
  · rw [Paves, Paves, agree.onWay_iff, agree.node place (inside place below above)]

theorem Laid.congr_left {write : Write} {landing : Place} {first before after : Disk}
    (laid : Laid write landing before after) (same : Same first before) :
    Laid write landing first after where
  receives := laid.receives.congr same.symm (fun _ _ => trivial) fun _ _ _ => trivial
  sound := laid.sound
  current := laid.current.trans same.current
  temporary := laid.temporary.trans same.temporary
  file := laid.file
  way place onWay := laid.way place (same.onWay_iff.2 onWay)
  other place apart off := (laid.other place apart fun onWay => off (same.onWay_iff.1 onWay)).trans
    (same.node place trivial)

end Archetype.Disk
