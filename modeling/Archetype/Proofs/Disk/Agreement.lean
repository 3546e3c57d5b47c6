import Archetype.Proofs.Disk.Contents

namespace Archetype.Disk

/-- Two disks hold the same in a region, and paths start at the same places on both. -/
structure Agree (region : Place → Prop) (left right : Disk) : Prop where
  left_sound : left.Sound
  right_sound : right.Sound
  current : right.current = left.current
  temporary : right.temporary = left.temporary
  node : ∀ place, region place → right.node? place = left.node? place

def Same : Disk → Disk → Prop :=
  Agree fun _ => True

theorem Altered.same {before after : Disk} (altered : Altered .nothing before after)
    (sound : before.Sound) : Same before after := by
  refine ⟨sound, altered.sound, altered.current, altered.temporary, fun place _ => ?_⟩
  rcases altered.node place with free | kept | ⟨makes, -, -⟩ | ⟨writes, -, -⟩
  · exact free.elim
  · exact kept
  · exact makes.elim
  · exact writes.elim

theorem passes_congr {left right : Disk} {place : Place} {segments : List String}
    (same : ∀ before, before <+: segments →
      right.node? (walk place before) = left.node? (walk place before)) :
    right.Passes place segments ↔ left.Passes place segments := by
  induction segments generalizing place with
  | nil => exact Iff.rfl
  | cons segment segments ih =>
      have here : right.node? place = left.node? place := same [] List.nil_prefix
      have later : right.Passes (walk place [segment]) segments ↔
          left.Passes (walk place [segment]) segments := ih fun before starts =>
        same (segment :: before) ((List.prefix_cons_inj segment).2 starts)
      rw [Passes, Passes, here, later]

namespace Agree

variable {region : Place → Prop} {left middle right : Disk}

theorem refl (sound : left.Sound) : Agree region left left :=
  ⟨sound, sound, rfl, rfl, fun _ _ => rfl⟩

theorem symm (agree : Agree region left right) : Agree region right left :=
  ⟨agree.right_sound, agree.left_sound, agree.current.symm, agree.temporary.symm,
    fun place inside => (agree.node place inside).symm⟩

theorem trans (first : Agree region left middle) (second : Agree region middle right) :
    Agree region left right :=
  ⟨first.left_sound, second.right_sound, second.current.trans first.current,
    second.temporary.trans first.temporary,
    fun place inside => (second.node place inside).trans (first.node place inside)⟩

theorem mono {less : Place → Prop} (agree : Agree region left right)
    (within : ∀ place, less place → region place) : Agree less left right :=
  ⟨agree.left_sound, agree.right_sound, agree.current, agree.temporary,
    fun place inside => agree.node place (within place inside)⟩

theorem start (agree : Agree region left right) (anchor : Anchor) :
    right.start anchor = left.start anchor :=
  start_congr agree.current anchor

theorem placeOf (agree : Agree region left right) (path : Path) :
    right.placeOf path = left.placeOf path :=
  placeOf_congr agree.current path

theorem onWay_iff (agree : Agree region left right) {path : Path} {place : Place} :
    right.OnWay path place ↔ left.OnWay path place :=
  onWay_congr agree.current

theorem contentAt (agree : Agree region left right) {place : Place} (inside : region place) :
    right.contentAt place = left.contentAt place :=
  contentAt_congr (agree.node place inside)

section Path

variable (agree : Agree region left right) {path : Path}
  (way : ∀ place, left.OnWay path place → region place)

include agree way

theorem passes_iff :
    right.Passes (right.start path.anchor) path.segments ↔
      left.Passes (left.start path.anchor) path.segments := by
  rw [agree.start]
  exact passes_congr fun before starts => agree.node _ (way _ ⟨before, starts, rfl⟩)

theorem node_start :
    right.node? (right.start path.anchor) = left.node? (left.start path.anchor) := by
  rw [agree.start]
  exact agree.node _ (way _ ⟨[], List.nil_prefix, rfl⟩)

theorem find?_eq : right.find? path = left.find? path := by
  refine Option.ext fun node => ?_
  rw [agree.right_sound.find?_eq_some_iff, agree.left_sound.find?_eq_some_iff,
    agree.node_start way, agree.passes_iff way, agree.placeOf,
    agree.node _ (way _ ⟨path.segments, List.prefix_refl _, rfl⟩)]

theorem isDirectory_eq : right.isDirectory path = left.isDirectory path := by
  rw [Disk.isDirectory, Disk.isDirectory, agree.find?_eq way]

end Path

theorem below_eq (agree : Agree region left right) {base : Place}
    (inside : ∀ place, isBelow base place = true → region place) :
    right.below base = left.below base := by
  have filtered : right.nodes.filter (fun place _ => isBelow base place) =
      left.nodes.filter fun place _ => isBelow base place := by
    refine Std.ExtTreeMap.ext_getElem? fun place => ?_
    rw [Std.ExtTreeMap.getElem?_filter', Std.ExtTreeMap.getElem?_filter']
    cases below : isBelow base place with
    | false => simp
    | true =>
        have more : place ≠ [] := by
          rintro rfl
          cases base <;> simp [isBelow, isWithin] at below
        rw [← node?_of_ne_root _ more, ← node?_of_ne_root _ more, agree.node place (inside place below)]
  have listed := congrArg Std.ExtTreeMap.toList filtered
  rwa [Std.ExtTreeMap.toList_filter, Std.ExtTreeMap.toList_filter] at listed

end Agree

theorem Sound.node?_eq {left right : Disk} (left_sound : left.Sound) (right_sound : right.Sound)
    {place : Place} (content : right.contentAt place = left.contentAt place)
    (directory : right.node? place = some .directory ↔ left.node? place = some .directory) :
    right.node? place = left.node? place := by
  cases held : left.contentAt place with
  | some found =>
      rw [held] at content
      rw [contentAt_eq_some_iff.1 held, contentAt_eq_some_iff.1 content]
  | none =>
      rw [held] at content
      rcases left_sound.directory_or_absent held with there | absent
      · rw [there, directory.2 there]
      · rcases right_sound.directory_or_absent content with there | right_absent
        · rw [directory.1 there] at absent
          cases absent
        · rw [absent, right_absent]

theorem same_of_contents {left right : Disk} (left_sound : left.Sound) (right_sound : right.Sound)
    (current : right.current = left.current) (temporary : right.temporary = left.temporary)
    (contents : right.contentAt = left.contentAt)
    (directories : ∀ place,
      right.node? place = some .directory ↔ left.node? place = some .directory) :
    Same left right :=
  ⟨left_sound, right_sound, current, temporary, fun place _ =>
    left_sound.node?_eq right_sound (congrFun contents place) (directories place)⟩

end Archetype.Disk
