import Archetype.Proofs.CopyResults

namespace Archetype.Action

open Archetype.Disk Archetype.Copier

theorem withStaging_ok {α : Type} {work : Path → Action α} {world reached : World} {changed : Disk}
    {value : α} (made : world.disk.makeDirectory (.fromRoot (stagingPlace world.disk)) = .ok changed)
    (ends : work (.fromRoot (stagingPlace world.disk)) { world with disk := changed } =
      .ok value reached) :
    withStaging work world =
      .ok value { reached with disk := reached.disk.prune (stagingPlace world.disk) } := by
  simp only [withStaging, made, ends]

theorem apart_stagingPlace {disk : Disk} {place : Place} (apart : Apart place disk.temporary) :
    Apart place (stagingPlace disk) := by
  have within : disk.temporary <+: stagingPlace disk := List.prefix_append _ _
  refine ⟨fun starts => ?_, fun starts => apart.2 (within.trans starts)⟩
  rcases List.prefix_concat_iff.1 starts with same | before
  · exact apart.2 (same ▸ within)
  · exact apart.1 before

theorem outside_of_held {disk : Disk} (sound : disk.Sound) {place : Place}
    (held : disk.node? place ≠ none) : ¬ stagingPlace disk <+: place := by
  rintro ⟨rest, rfl⟩
  by_cases more : rest = []
  · rw [more, List.append_nil] at held
    exact held (node?_stagingPlace disk)
  · exact held (sound.none_of_append more (by simp [node?_stagingPlace]))

theorem isName_of_mem_staging_append {disk : Disk} (sound : disk.Sound) {front : Place}
    (named : ∀ name ∈ front, Path.IsName name) {name : String}
    (member : name ∈ stagingPlace disk ++ front) : Path.IsName name := by
  rcases List.mem_append.1 member with inside | inside
  · exact isName_of_mem_stagingPlace sound inside
  · exact named name inside

variable {disk changed : Disk} (sound : disk.Sound)
  (made : disk.makeDirectory (.fromRoot (stagingPlace disk)) = .ok changed)

include sound made

theorem node?_staging (place : Place) :
    changed.node? place =
      if stagingPlace disk = place then some .directory else disk.node? place := by
  have named := fun name (member : name ∈ stagingPlace disk) =>
    isName_of_mem_stagingPlace sound member
  obtain ⟨put, -, -⟩ := sound.makeDirectory_cases (fun name member => (named name member).1) made
  rw [put, disk.placeOf_fromRoot named, node?_put disk (by simp [stagingPlace])]

theorem noNull_staging : hasNull (stagingPlace disk) = false := by
  unfold Disk.makeDirectory at made
  cases located : disk.locate false (.fromRoot (stagingPlace disk)) with
  | error refused => simp [located, bind, Except.bind] at made
  | ok place => exact (sound.locate_eq_ok_iff.1 located).1

theorem sound_staging : changed.Sound :=
  (altered_staging sound made .unlimited).2.sound

theorem eq_staging_of_within {place : Place} (within : stagingPlace disk <+: place)
    (held : changed.node? place ≠ none) : place = stagingPlace disk := by
  obtain ⟨rest, rfl⟩ := within
  by_cases more : rest = []
  · simp [more]
  · have absent : disk.node? (stagingPlace disk ++ rest) = none :=
      sound.none_of_append more (by simp [node?_stagingPlace])
    rw [node?_staging sound made, if_neg (by simp [more])] at held
    exact absurd absent held

theorem directory_of_prefix_staging {place : Place} (starts : place <+: stagingPlace disk) :
    changed.node? place = some .directory := by
  have here : changed.node? (stagingPlace disk) = some .directory := by
    simp [node?_staging sound made]
  obtain ⟨rest, whole⟩ := starts
  by_cases last : rest = []
  · subst last
    rw [← here, ← whole, List.append_nil]
  · refine (sound_staging sound made).directory_of_append last ?_
    simp [whole, here]

theorem contentAt_staging (place : Place) : changed.contentAt place = disk.contentAt place := by
  by_cases here : stagingPlace disk = place
  · rw [← here, contentAt_eq_none (Or.inl (node?_stagingPlace disk))]
    exact contentAt_eq_none (Or.inr (by simp [node?_staging sound made]))
  · apply contentAt_congr
    rw [node?_staging sound made, if_neg here]

variable {front : Place} (named : ∀ name ∈ front, Path.IsName name) (noNull : hasNull front = false)

include named

theorem holds_staging :
    changed.Holds (stagingPlace disk ++ front) (fun _ => none) fun _ => False := by
  have nothing : ∀ rest, changed.node? (stagingPlace disk ++ front ++ rest) = none ∨
      (rest = [] ∧ changed.node? (stagingPlace disk ++ front ++ rest) = some .directory) := by
    intro rest
    by_cases held : changed.node? (stagingPlace disk ++ front ++ rest) = none
    · exact Or.inl held
    · have within : stagingPlace disk <+: stagingPlace disk ++ front ++ rest := by simp
      have same := eq_staging_of_within sound made within held
      obtain ⟨rfl, rfl⟩ : front = [] ∧ rest = [] := by simpa [List.append_assoc] using same
      refine Or.inr ⟨rfl, ?_⟩
      rw [List.append_nil, List.append_nil]
      exact directory_of_prefix_staging sound made (List.prefix_refl _)
  refine ⟨fun rest => contentAt_eq_none ((nothing rest).imp_right And.right), ?_⟩
  intro rest more directory
  rcases nothing rest with absent | ⟨empty, -⟩
  · rw [absent] at directory
    cases directory
  · exact more empty

theorem stands_staging {source : Path} (directory : disk.isDirectory source = true) :
    Stands changed (.fromRoot (stagingPlace disk ++ front)) source (listing changed source) := by
  have altered := (altered_staging sound made .unlimited).2
  have after := altered.sound
  have led := changed.placeOf_fromRoot fun name member =>
    isName_of_mem_staging_append sound named member
  have outside : ∀ place, disk.OnWay source place → ¬ stagingPlace disk <+: place := by
    intro place onWay
    exact outside_of_held sound (by simp [sound.directory_of_onWay directory onWay])
  have kept : ∀ place, disk.OnWay source place → changed.node? place = some .directory := by
    intro place onWay
    rw [node?_staging sound made, if_neg]
    · exact sound.directory_of_onWay directory onWay
    · rintro rfl
      exact outside _ onWay (List.prefix_refl _)
  obtain ⟨clean, -, -, -⟩ := sound.isDirectory_iff.1 directory
  have there : changed.isDirectory source = true := by
    refine after.isDirectory_iff.2 ⟨clean, ?_, ?_, ?_⟩
    · rw [start_congr altered.current]
      exact kept _ ⟨[], List.nil_prefix, rfl⟩
    · rw [start_congr altered.current]
      exact passes_of_directories fun before starts _ => kept _ ⟨before, starts, rfl⟩
    · rw [altered.placeOf]
      exact kept _ ⟨source.segments, List.prefix_refl _, rfl⟩
  refine ⟨there, ?_, fun _ listed _ member => isName_of_mem_listing after listed member, ?_⟩
  · intro place onWay within
    rw [led] at within
    exact outside place ((onWay_congr altered.current).1 onWay) ((List.prefix_append _ _).trans within)
  · intro relative listed
    have held := ((mem_listing_iff after there).1 listed).2
    rw [led]
    by_cases within : stagingPlace disk ++ front <+: changed.placeOf source ++ relative
    · have same := eq_staging_of_within sound made ((List.prefix_append _ _).trans within) held
      rw [same] at within ⊢
      have empty : front = [] := by
        have short := within.length_le
        rw [List.length_append] at short
        exact List.length_eq_zero_iff.1 (by omega)
      exact Or.inr (by rw [empty, List.append_nil])
    · exact Or.inl within

section After

variable {after : Disk}
  (altered : Altered (.into changed (.fromRoot (stagingPlace disk ++ front))) changed after)

include altered

omit made in
theorem node?_after_staging (place : Place) :
    stagingPlace disk ++ front <+: place ∨ after.node? place = changed.node? place ∨
      (place <+: stagingPlace disk ++ front ∧ changed.node? place = none ∧
        after.node? place = some .directory) := by
  have all_named : ∀ name ∈ stagingPlace disk ++ front, Path.IsName name := fun _ member =>
    isName_of_mem_staging_append sound named member
  have led := changed.placeOf_fromRoot all_named
  rcases altered.node place with free | kept | ⟨way, absent, new⟩ | ⟨wrote, -, -⟩
  · change changed.placeOf _ <+: place at free
    rw [led] at free
    exact Or.inl free
  · exact Or.inr (Or.inl kept)
  · exact Or.inr (Or.inr ⟨onWay_fromRoot all_named way, absent, new⟩)
  · exact wrote.elim

theorem node?_outside_staging {place : Place} (outside : ¬ stagingPlace disk <+: place) :
    after.node? place = disk.node? place := by
  have before : changed.node? place = disk.node? place := by
    rw [node?_staging sound made, if_neg]
    rintro rfl
    exact outside (List.prefix_refl _)
  rcases node?_after_staging sound named altered place with
    within | kept | ⟨way, absent, -⟩
  · exact absurd ((List.prefix_append _ _).trans within) outside
  · rw [kept, before]
  · rcases List.prefix_or_prefix_of_prefix way (List.prefix_append _ _) with above | within
    · rw [directory_of_prefix_staging sound made above] at absent
      cases absent
    · exact absurd within outside

theorem contentAt_after_staging {files : Place → Option Content} {ways : Place → Prop}
    (holds : after.Holds (stagingPlace disk ++ front) files ways) (rest : Place) (content : Content) :
    after.contentAt (stagingPlace disk ++ rest) = some content ↔
      ∃ relative, rest = front ++ relative ∧ files relative = some content := by
  constructor
  · intro held
    have blocked : ¬ (after.node? (stagingPlace disk ++ rest) = some .directory) := by
      simp [contentAt_eq_some_iff.1 held]
    rcases node?_after_staging sound named altered (stagingPlace disk ++ rest) with
      within | kept | ⟨-, -, directory⟩
    · obtain ⟨relative, rfl⟩ := (List.prefix_append_right_inj _).1 within
      refine ⟨relative, rfl, ?_⟩
      rw [← holds.file, List.append_assoc]
      exact held
    · rw [contentAt_congr kept, contentAt_eq_some_iff] at held
      have there : changed.node? (stagingPlace disk ++ rest) ≠ none := by simp [held]
      have here := eq_staging_of_within sound made (List.prefix_append _ _) there
      rw [here, directory_of_prefix_staging sound made (List.prefix_refl _)] at held
      cases held
    · exact absurd directory blocked
  · rintro ⟨relative, rfl, listed⟩
    rw [← List.append_assoc, holds.file]
    exact listed

end After

include noNull

theorem accepts_staging : changed.Accepts (.fromRoot (stagingPlace disk ++ front)) := by
  have all_named : ∀ name ∈ stagingPlace disk ++ front, Path.IsName name := fun name member =>
    isName_of_mem_staging_append sound named member
  refine ⟨?_, changed.node?_root, fun place onWay => ?_⟩
  · change hasNull (stagingPlace disk ++ front) = false
    exact hasNull_append (noNull_staging sound made) noNull
  · have starts := onWay_fromRoot all_named onWay
    rw [changed.placeOf_fromRoot all_named]
    by_cases held : changed.node? place = none
    · exact Or.inr ⟨held, starts⟩
    · refine Or.inl (directory_of_prefix_staging sound made ?_)
      rcases List.prefix_or_prefix_of_prefix starts (List.prefix_append _ _) with before | within
      · exact before
      · obtain rfl := eq_staging_of_within sound made within held
        exact List.prefix_refl _

end Archetype.Action
