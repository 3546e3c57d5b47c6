import Archetype.Proofs.CopyResults
import Archetype.Proofs.Outcomes

/-!
# Copies as layings

A copier lays one file after the other. Which files these are is planned from what it reads alone
(`Copier.plan`), and where each lies depends on the disk it is laid on (`Lays`).

* `copyTree_eq_ok`: a copy that has ended well has laid the files of its plan.
* `copyTree_lays`: a copy ends well where the files of its plan can be laid.
* `Lays.transfer`: files can be laid in the same way on a disk that agrees where they are laid.
-/

namespace Archetype.Disk

/-- Files have been laid one after the other, each at its place. -/
inductive Lays : List (Write × Place) → Disk → Disk → Prop
  | nil {before after : Disk} (same : Same before after) : Lays [] before after
  | cons {write : Write} {landing : Place} {others : List (Write × Place)}
      {before middle after : Disk} (laid : Laid write landing before middle)
      (rest : Lays others middle after) : Lays ((write, landing) :: others) before after

def Write.StaysBelow (target : Path) (write : Write) : Prop :=
  ∃ rest, (∀ name ∈ rest, Path.IsName name) ∧ write.path = target.join ⟨.current, rest⟩

def contents (laid : List (Write × Place)) : List (Place × Content) :=
  laid.map fun item => (item.2, item.1.content)

/-! ## Laying one file -/

section Paved

variable {write : Write} {before made : Disk} (paved : Paved write.path.parent before made)
  (proper : write.Proper)

include paved proper

theorem receives_of_goes {path : Path} (goes : made.Goes write.path write.name? path) :
    before.Receives write (made.placeOf path) := by
  obtain ⟨writable, rfl | ⟨name, named, directory, rfl⟩⟩ := goes
  · have vacant : ¬ before.Paves write.path (before.placeOf write.path) := fun paves =>
      writable.vacant (by
        rw [placeOf_congr paved.current]
        exact (paved.directory_iff _).2 paves)
    have lands := Lands.here vacant
    rw [← placeOf_congr paved.current] at lands
    exact ⟨proper, writable.noNull, paved.makeable, lands⟩
  · have isName := (proper.named name named).1
    have place : made.placeOf (write.path.join ⟨.current, [name]⟩) =
        before.placeOf write.path ++ [name] := by
      rw [placeOf_join_of_current made _ rfl, placeOf_congr paved.current]
      exact walk_name isName.2 isName.1.2.1 _
    have there : before.Paves write.path (before.placeOf write.path) := by
      refine (paved.directory_iff _).1 ?_
      rw [← placeOf_congr paved.current]
      exact (paved.sound.isDirectory_iff.1 directory).2.2.2
    rw [place]
    refine ⟨proper, (paved.sound.isDirectory_iff.1 directory).1, paved.makeable,
      .inside named there fun paves => writable.vacant ?_⟩
    rw [place]
    exact (paved.directory_iff _).2 paves

omit proper in
theorem goes_of_receives {landing : Place} (receives : before.Receives write landing) :
    ∃ path, made.Goes write.path write.name? path ∧ made.placeOf path = landing := by
  have same := placeOf_congr paved.current write.path
  have isDirectory : before.Paves write.path (before.placeOf write.path) →
      made.isDirectory write.path = true := fun paves => by
    refine paved.sound.isDirectory_iff.2 ⟨receives.noNull, paved.begins, paved.passes, ?_⟩
    rw [same]
    exact (paved.directory_iff _).2 paves
  cases receives.lands with
  | here vacant =>
      refine ⟨write.path, ⟨⟨receives.noNull, paved.begins, paved.passes, ?_⟩, Or.inl rfl⟩, same⟩
      rw [same]
      exact fun directory => vacant ((paved.directory_iff _).1 directory)
  | @inside name named directory vacant =>
      obtain ⟨isName, noNull⟩ := receives.proper.named name named
      have place : made.placeOf (write.path.join ⟨.current, [name]⟩) =
          before.placeOf write.path ++ [name] := by
        rw [placeOf_join_of_current made _ rfl, same]
        exact walk_name isName.2 isName.1.2.1 _
      have segments : write.path.join ⟨.current, [name]⟩ =
          ⟨write.path.anchor, write.path.segments ++ [name]⟩ := Path.join_of_current _ rfl
      have there := isDirectory directory
      refine ⟨write.path.join ⟨.current, [name]⟩, ⟨⟨?_, ?_, ?_, ?_⟩,
        Or.inr ⟨name, named, there, rfl⟩⟩, place⟩
      · rw [segments]
        exact hasNull_append receives.noNull noNull
      · rw [segments]
        exact paved.begins
      · rw [segments]
        exact passes_append.2 ⟨paved.passes, (paved.sound.isDirectory_iff.1 there).2.2.2, trivial⟩
      · rw [place]
        exact fun held => vacant ((paved.directory_iff _).1 held)

end Paved

theorem exists_laid {disk : Disk} (sound : disk.Sound) {write : Write} {landing : Place}
    (receives : disk.Receives write landing) : ∃ after, Laid write landing disk after := by
  have world_sound : ({ disk } : World).disk.Sound := sound
  obtain ⟨made, -, paved⟩ := Action.makeDirectories_paves world_sound
    (Path.isWritten_parent receives.proper.path) receives.makeable
  exact ⟨_, paved.laid receives⟩

section StaysBelow

variable {disk : Disk} {target : Path} {write : Write} (stays : write.StaysBelow target)

include stays

theorem Write.StaysBelow.onWay {place : Place} (onWay : disk.OnWay write.path place) :
    disk.OnWay target place ∨ disk.placeOf target <+: place := by
  obtain ⟨rest, named, path⟩ := stays
  rw [path, Path.join_of_current target rfl, onWay_append_iff] at onWay
  refine onWay.imp_right ?_
  rintro ⟨front, starts, rfl⟩
  rw [walk_names fun name member => named name (starts.subset member)]
  exact List.prefix_append _ _

theorem Write.StaysBelow.placeOf : disk.placeOf target <+: disk.placeOf write.path := by
  obtain ⟨rest, named, path⟩ := stays
  rw [path, placeOf_join_of_current disk target rfl]
  exact walk_names named _ ▸ List.prefix_append _ _

omit stays in
theorem Write.StaysBelow.of_div {text : String} (inner : Path.Inner text)
    (stays : write.StaysBelow (target / text)) : write.StaysBelow target := by
  obtain ⟨rest, named, path⟩ := stays
  refine ⟨Path.segmentsOf text ++ rest, fun name member => ?_, ?_⟩
  · exact (List.mem_append.1 member).elim (Path.isName_of_inner inner) (named name)
  · rw [path, Path.div_eq_join target inner, Path.join_assoc]
    rfl

omit stays in
theorem Write.staysBelow_of_inner {text : String} (inner : Path.Inner text)
    (path : write.path = target / text) : write.StaysBelow target :=
  ⟨Path.segmentsOf text, fun _ member => Path.isName_of_inner inner member,
    path.trans (Path.div_eq_join target inner)⟩

theorem Laid.altered {landing : Place} {after : Disk} (laid : Laid write landing disk after) :
    Altered (.into disk target) disk after := by
  refine ⟨laid.sound, laid.current, laid.temporary, fun place => ?_⟩
  by_cases landed : place = landing
  · rw [landed]
    exact Or.inl (stays.placeOf.trans (prefix_of_lands laid.receives.lands))
  · by_cases onWay : disk.OnWay write.path.parent place
    · rcases stays.onWay (Copier.onWay_of_parent onWay) with way | within
      · rcases laid.receives.makeable.way place onWay with directory | absent
        · exact Or.inr (Or.inl ((laid.way place onWay).trans directory.symm))
        · exact Or.inr (Or.inr (Or.inl ⟨way, absent, laid.way place onWay⟩))
      · exact Or.inl within
    · exact Or.inr (Or.inl (laid.other place landed onWay))

end StaysBelow

/-! ## Laying one file after the other -/

namespace Lays

variable {laid : List (Write × Place)} {before after : Disk}

theorem sound (lays : Lays laid before after) (before_sound : before.Sound) : after.Sound := by
  induction lays with
  | nil same => exact same.right_sound
  | cons laid rest ih => exact ih laid.sound

theorem current (lays : Lays laid before after) : after.current = before.current := by
  induction lays with
  | nil same => exact same.current
  | cons laid rest ih => exact ih.trans laid.current

theorem congr (lays : Lays laid before after) {last : Disk} (same : Same after last) :
    Lays laid before last := by
  induction lays with
  | nil start => exact .nil (start.trans same)
  | cons laid rest ih => exact .cons laid (ih same)

theorem congr_left (lays : Lays laid before after) {first : Disk} (same : Same first before) :
    Lays laid first after := by
  cases lays with
  | nil start => exact .nil (same.trans start)
  | cons laid rest => exact .cons (laid.congr_left same) rest

theorem append {others : List (Write × Place)} {last : Disk} (lays : Lays laid before after)
    (rest : Lays others after last) : Lays (laid ++ others) before last := by
  induction lays with
  | nil same => exact rest.congr_left same
  | cons first _ ih => exact .cons first (ih rest)

theorem split {others : List (Write × Place)} (lays : Lays (laid ++ others) before after)
    (sound : before.Sound) : ∃ middle, Lays laid before middle ∧ Lays others middle after := by
  induction laid generalizing before with
  | nil => exact ⟨before, .nil (Agree.refl sound), lays⟩
  | cons item laid ih =>
      cases lays with
      | cons first rest =>
          obtain ⟨middle, lays, others_lay⟩ := ih rest first.sound
          exact ⟨middle, .cons first lays, others_lay⟩

theorem agree (lays : Lays laid before after) {region : Place → Prop} {other last : Disk}
    (other_lays : Lays laid other last) (start : Agree region before other) :
    Agree region after last := by
  induction lays generalizing other with
  | nil same =>
      cases other_lays with
      | nil other_same =>
          exact (same.symm.mono fun _ _ => trivial).trans
            (start.trans (other_same.mono fun _ _ => trivial))
  | cons first _ ih =>
      cases other_lays with
      | cons other_first rest => exact ih rest (first.agree other_first start)

theorem transfer (lays : Lays laid before after) {region : Place → Prop} {other : Disk}
    (start : Agree region before other)
    (inside : ∀ item ∈ laid, ∀ place, before.OnWay item.1.path.parent place ∨
      before.placeOf item.1.path <+: place → region place) :
    ∃ last, Lays laid other last ∧ Agree region after last := by
  induction lays generalizing other with
  | nil same =>
      refine ⟨other, .nil (Agree.refl start.right_sound), ?_⟩
      exact (same.symm.mono fun _ _ => trivial).trans start
  | @cons write landing others before middle after first rest ih =>
      obtain ⟨here, later⟩ := List.forall_mem_cons.1 inside
      obtain ⟨between, other_first⟩ := exists_laid start.right_sound
        (first.receives.congr start (fun place onWay => here place (Or.inl onWay))
          fun place below _ => here place (Or.inr below))
      obtain ⟨last, lays, ends⟩ := ih (first.agree other_first start) fun item member place way => by
        rw [onWay_congr first.current, placeOf_congr first.current] at way
        exact later item member place way
      exact ⟨last, .cons other_first lays, ends⟩

theorem altered (lays : Lays laid before after) (sound : before.Sound) {target : Path}
    (stays : ∀ item ∈ laid, item.1.StaysBelow target) :
    Altered (.into before target) before after := by
  induction lays with
  | nil same =>
      exact ⟨same.right_sound, same.current, same.temporary, fun place =>
        Or.inr (Or.inl (same.node place trivial))⟩
  | cons first rest ih =>
      obtain ⟨here, later⟩ := List.forall_mem_cons.1 stays
      have step := first.altered here
      have others := ih first.sound later
      rw [Allowance.into_congr first.current] at others
      exact step.trans others

theorem contentAt_eq (lays : Lays laid before after) :
    after.contentAt = overlay before.contentAt (contents laid) := by
  induction lays with
  | nil same => exact funext fun place => same.contentAt trivial
  | cons first _ ih => rw [ih, first.contentAt_eq]; rfl

theorem keepsFile (lays : Lays laid before after) {place : Place}
    (file : before.contentAt place ≠ none) : after.contentAt place ≠ none := by
  induction lays with
  | nil same => rwa [same.contentAt trivial]
  | @cons write landing _ _ _ _ first _ ih =>
      refine ih ?_
      rw [first.contentAt_eq]
      by_cases here : place = landing
      · rw [here, Function.update_self]
        exact nofun
      · rwa [Function.update_of_ne here]

theorem directory_iff (lays : Lays laid before after) (place : Place) :
    after.node? place = some .directory ↔ before.node? place = some .directory ∨
      ∃ item ∈ laid, before.OnWay item.1.path.parent place := by
  induction lays with
  | nil same => simp [same.node place trivial]
  | cons first _ ih =>
      rw [ih, first.directory_iff, Paves, List.exists_mem_cons_iff]
      simp only [onWay_congr first.current]
      tauto

theorem grows (lays : Lays laid before after) {place : Place}
    (directory : before.node? place = some .directory) : after.node? place = some .directory := by
  induction lays with
  | nil same => exact (same.node place trivial).trans directory
  | cons first _ ih => exact ih (first.grows directory)

end Lays

theorem isDirectory_of_grows {before after : Disk} (before_sound : before.Sound)
    (after_sound : after.Sound) (current : after.current = before.current)
    (grows : ∀ place, before.node? place = some .directory → after.node? place = some .directory)
    {path : Path} (directory : before.isDirectory path = true) : after.isDirectory path = true := by
  obtain ⟨noNull, begins, passes, there⟩ := before_sound.isDirectory_iff.1 directory
  refine after_sound.isDirectory_iff.2 ⟨noNull, ?_, ?_, ?_⟩
  · rw [start_congr current]
    exact grows _ begins
  · rw [start_congr current]
    exact passes_of_directories fun front starts apart =>
      grows _ (directory_of_passes passes starts apart)
  · rw [placeOf_congr current]
    exact grows _ there

end Archetype.Disk

namespace Archetype.Copier

open Archetype.Action Archetype.Disk

/-! ## The plan of a copy -/

def keepsBytes (copier : Copier) (replacements? : Option Replacements) (file : Path)
    (content : Content) : Bool :=
  match replacements? with
  | none => true
  | some replacements => copier.isBinary file || (rendered? replacements content.1).isNone

def write (copier : Copier) (target : Path) (replacements? : Option Replacements) (source : Path)
    (relative : List String) (content : Content) : Write where
  path := destination target replacements? relative
  content := copier.delivered replacements? (source.join ⟨.current, relative⟩) content
  name? :=
    if copier.keepsBytes replacements? (source.join ⟨.current, relative⟩) content then
      some (source.join ⟨.current, relative⟩).name
    else none

def plan (copier : Copier) (disk : Disk) (target : Path) (replacements? : Option Replacements)
    (source : Path) (relatives : List (List String)) : List Write :=
  relatives.filterMap fun relative =>
    (copier.taken? disk source relative).map (copier.write target replacements? source relative)

def LandsAt (delivery : Delivery) (item : Write × Place) : Prop :=
  item.1.path = delivery.path ∧ (delivery.disk.isDirectory delivery.path = false →
    item.2 = delivery.disk.placeOf delivery.path)

theorem content_eq_of_file {content other : Content}
    (same : Node.file content.1 content.2 = .file other.1 other.2) : content = other := by
  obtain ⟨bytes, executable⟩ := Node.file.inj same
  exact Prod.ext bytes executable

section One

variable {world reached : World} (sound : world.disk.Sound) {copier : Copier}

include sound

theorem copyRendered_eq_ok {replacements : Replacements} {source target : Path} {content : Content}
    (source_written : source.IsWritten) (target_written : target.IsWritten)
    (found : world.disk.find? source = some (.file content.1 content.2))
    (ends : copier.copyRendered replacements source target world = .ok () reached) :
    ∃ path, world.disk.Goes target
        (if copier.keepsBytes (some replacements) source content then some source.name else none)
        path ∧
      reached = { world with
        disk := world.disk.put (world.disk.placeOf path)
          (.file (copier.delivered (some replacements) source content).1
            (copier.delivered (some replacements) source content).2) } := by
  have copies : ∀ {reached}, Action.copyFile (.path source) target world = .ok () reached →
      ∃ path, world.disk.Goes target (some source.name) path ∧ reached = { world with
        disk := world.disk.put (world.disk.placeOf path) (.file content.1 content.2) } := by
    intro reached ends
    obtain ⟨other, same, path, goes, put⟩ :=
      copyFile_eq_ok sound source_written target_written ends
    rw [found] at same
    obtain rfl := content_eq_of_file (Option.some.inj same)
    exact ⟨path, goes, put⟩
  unfold copyRendered at ends
  unfold delivered keepsBytes
  cases binary : copier.isBinary source with
  | true =>
      rw [binary] at ends
      exact copies ends
  | false =>
      rw [binary] at ends
      obtain ⟨other, between, reads, continues⟩ := bind_eq_ok_iff.1 ends
      obtain ⟨same, rfl⟩ := readFile_eq_ok reads
      rw [found] at same
      obtain rfl := content_eq_of_file (Option.some.inj same)
      simp only [Bool.false_eq_true, ↓reduceIte, Bool.false_or] at continues ⊢
      cases text : rendered? replacements content.1 with
      | none =>
          simp only [text] at continues
          exact copies continues
      | some rendered =>
          simp only [text] at continues
          obtain ⟨writable, put⟩ := writeFile_eq_ok sound continues
          exact ⟨target, ⟨writable, Or.inl rfl⟩, put⟩

theorem copyRendered_goes {replacements : Replacements} {source target path : Path}
    {content : Content} (source_written : source.IsWritten) (target_written : target.IsWritten)
    (found : world.disk.find? source = some (.file content.1 content.2))
    (goes : world.disk.Goes target
      (if copier.keepsBytes (some replacements) source content then some source.name else none) path)
    (apart : world.disk.placeOf source ≠ world.disk.placeOf path) :
    copier.copyRendered replacements source target world =
      .ok () { world with
        disk := world.disk.put (world.disk.placeOf path)
          (.file (copier.delivered (some replacements) source content).1
            (copier.delivered (some replacements) source content).2) } := by
  unfold copyRendered delivered
  unfold keepsBytes at goes
  cases binary : copier.isBinary source with
  | true =>
      rw [binary] at goes
      exact copyFile_goes sound source_written target_written found goes apart
  | false =>
      rw [binary] at goes
      simp only [Bool.false_eq_true, ↓reduceIte, Bool.false_or] at goes ⊢
      rw [bind_ok (readFile_ok sound found)]
      dsimp only
      cases text : rendered? replacements content.1 with
      | none =>
          simp only [text] at goes
          exact copyFile_goes sound source_written target_written found goes apart
      | some rendered =>
          simp only [text] at goes
          obtain ⟨writable, rfl | ⟨name, named, -⟩⟩ := goes
          · exact writeFile_ok sound writable rendered content.2
          · cases named

variable {source target : Path} (source_written : source.IsWritten)
  (target_written : target.IsWritten) {replacements? : Option Replacements}
  {relative : List String} {content : Content}
  (named : ∀ name ∈ relative, Path.IsName name)
  (found : world.disk.find? (source.join ⟨.current, relative⟩) =
    some (.file content.1 content.2))

include source_written target_written named found

theorem write_proper :
    (copier.write target replacements? source relative content).Proper := by
  have file_written : (source.join ⟨.current, relative⟩).IsWritten :=
    Path.isWritten_join source_written fun name member => (named name member).1
  refine ⟨isWritten_destination target_written replacements? relative, fun name called => ?_⟩
  obtain ⟨others, last, whole, isName⟩ :=
    sound.exists_name_of_isFile file_written (isFile_iff.2 ⟨_, _, found⟩)
  obtain ⟨noNull, -, -, -⟩ := sound.find?_eq_some_iff.1 found
  unfold write at called
  split at called
  · obtain rfl : last = name := by simpa [Path.name, whole] using called
    exact ⟨isName, hasNull_of_subset (by simp [whole]) noNull⟩
  · cases called

theorem copyOne_eq_ok {path : Path}
    (ends : copier.copyOne target replacements? source relative world = .ok path reached) :
    path = destination target replacements? relative ∧
      ∃ landing, Laid (copier.write target replacements? source relative content) landing
        world.disk reached.disk ∧ LandsAt ⟨((makeDirectories
          (destination target replacements? relative).parent).after world).disk, target,
            relativeText replacements? relative⟩
          (copier.write target replacements? source relative content, landing) := by
  have file_written : (source.join ⟨.current, relative⟩).IsWritten :=
    Path.isWritten_join source_written fun name member => (named name member).1
  have written := isWritten_destination target_written replacements? relative
  have proper : (copier.write target replacements? source relative content).Proper :=
    write_proper sound source_written target_written named found
  unfold copyOne at ends
  obtain ⟨_, made, makes, continues⟩ := bind_eq_ok_iff.1 ends
  have paved := makeDirectories_eq_ok sound (Path.isWritten_parent written) makes
  have kept := paved.find?_eq sound found
  have copied : ∃ between : World,
      (record (.wrote (destination target replacements? relative)) >>=
        fun _ => pure (destination target replacements? relative)) between = .ok path reached ∧
      ∃ goal, made.disk.Goes (destination target replacements? relative)
          (copier.write target replacements? source relative content).name? goal ∧
        between.disk = made.disk.put (made.disk.placeOf goal)
          (.file (copier.write target replacements? source relative content).content.1
            (copier.write target replacements? source relative content).content.2) := by
    cases replacements? with
    | none =>
        obtain ⟨_, between, copies, records⟩ := bind_eq_ok_iff.1 continues
        obtain ⟨other, same, goal, goes, rfl⟩ :=
          copyFile_eq_ok paved.sound file_written written copies
        rw [kept] at same
        obtain rfl := content_eq_of_file (Option.some.inj same)
        exact ⟨_, records, goal, goes, rfl⟩
    | some replacements =>
        obtain ⟨_, between, copies, records⟩ := bind_eq_ok_iff.1 continues
        obtain ⟨goal, goes, rfl⟩ := copyRendered_eq_ok paved.sound file_written written kept copies
        exact ⟨_, records, goal, goes, rfl⟩
  obtain ⟨between, records, goal, goes, put⟩ := copied
  cases records
  refine ⟨rfl, made.disk.placeOf goal, ?_, destination_eq target replacements? relative, ?_⟩
  · change Laid _ _ _ between.disk
    rw [put]
    exact paved.laid (receives_of_goes paved proper goes)
  · rw [after_of_ok makes, Delivery.path, ← destination_eq]
    intro vacant
    obtain ⟨-, rfl | ⟨name, -, directory, -⟩⟩ := goes
    · rfl
    · rw [directory] at vacant
      cases vacant

theorem copyOne_lays {landing : Place}
    (receives : world.disk.Receives (copier.write target replacements? source relative content)
      landing)
    (apart : world.disk.placeOf (source.join ⟨.current, relative⟩) ≠ landing) :
    ∃ reached, copier.copyOne target replacements? source relative world =
        .ok (destination target replacements? relative) reached ∧
      Laid (copier.write target replacements? source relative content) landing world.disk
        reached.disk := by
  have file_written : (source.join ⟨.current, relative⟩).IsWritten :=
    Path.isWritten_join source_written fun name member => (named name member).1
  have written := isWritten_destination target_written replacements? relative
  obtain ⟨made, makes, paved⟩ :=
    makeDirectories_paves sound (Path.isWritten_parent written) receives.makeable
  have made_sound : ({ world with disk := made } : World).disk.Sound := paved.sound
  have kept := paved.find?_eq sound found
  obtain ⟨goal, goes, rfl⟩ := goes_of_receives paved receives
  rw [← placeOf_congr paved.current] at apart
  have laid := paved.laid receives
  generalize delivery : (copier.write target replacements? source relative content).content =
    result at laid
  refine ⟨{
    disk := made.put (made.placeOf goal) (.file result.1 result.2)
    journal := world.journal ++ [.wrote (destination target replacements? relative)] }, ?_, laid⟩
  subst delivery
  unfold copyOne
  dsimp only
  rw [bind_ok makes]
  cases replacements? with
  | none =>
      dsimp only
      rw [bind_ok (copyFile_goes made_sound file_written written kept goes apart)]
      rfl
  | some replacements =>
      dsimp only
      rw [bind_ok (copyRendered_goes made_sound file_written written kept goes apart)]
      rfl

end One

section Single

variable {world reached : World} (sound : world.disk.Sound) {source target : Path}
  (source_written : source.IsWritten) (target_written : target.IsWritten)

include sound source_written target_written

theorem single_proper {content : Content}
    (found : world.disk.find? source = some (.file content.1 content.2)) :
    (⟨target, content, some source.name⟩ : Write).Proper := by
  obtain ⟨others, name, last, isName⟩ :=
    sound.exists_name_of_isFile source_written (isFile_iff.2 ⟨_, _, found⟩)
  obtain ⟨noNull, -, -, -⟩ := sound.find?_eq_some_iff.1 found
  refine ⟨target_written, fun called named => ?_⟩
  obtain rfl : name = called := by simpa [Path.name, last] using named
  exact ⟨isName, hasNull_of_subset (by simp [last]) noNull⟩

theorem single_laid {path : Path}
    (ends : Copier.copyFile (.path source) target world = .ok path reached) :
    ∃ (content : Content) (landing : Place),
      world.disk.contentAt (world.disk.placeOf source) = some content ∧
      Laid ⟨target, content, some source.name⟩ landing world.disk reached.disk := by
  obtain ⟨_, made, makes, continues⟩ := bind_eq_ok_iff.1 ends
  have paved := makeDirectories_eq_ok sound (Path.isWritten_parent target_written) makes
  obtain ⟨_, between, copies, returns⟩ := bind_eq_ok_iff.1 continues
  cases returns
  obtain ⟨content, found, goal, goes, rfl⟩ :=
    copyFile_eq_ok paved.sound source_written target_written copies
  have held := (paved.sound.find?_cases found).1
  have elsewhere : ¬ world.disk.OnWay target.parent (made.disk.placeOf source) := fun onWay => by
    rw [paved.way _ onWay] at held
    cases held
  rw [paved.other _ elsewhere, placeOf_congr paved.current] at held
  exact ⟨content, _, contentAt_eq_some_iff.2 held, paved.laid (receives_of_goes paved
    (single_proper paved.sound source_written target_written found) goes)⟩

theorem single_eq_ok {path : Path}
    (ends : Copier.copyFile (.path source) target world = .ok path reached) :
    ∃ (content : Content) (landing : Place),
      (∀ other : Content, world.disk.find? source = some (.file other.1 other.2) →
        other = content) ∧
      Laid ⟨target, content, some source.name⟩ landing world.disk reached.disk := by
  obtain ⟨content, landing, held, laid⟩ := single_laid sound source_written target_written ends
  refine ⟨content, landing, fun other found => ?_, laid⟩
  rw [contentAt_eq_some_iff, (sound.find?_cases found).1] at held
  exact content_eq_of_file (Option.some.inj held)

theorem single_lays {content : Content}
    (found : world.disk.find? source = some (.file content.1 content.2)) {landing : Place}
    (receives : world.disk.Receives ⟨target, content, some source.name⟩ landing)
    (apart : world.disk.placeOf source ≠ landing) :
    ∃ reached, Copier.copyFile (.path source) target world = .ok target reached ∧
      Laid ⟨target, content, some source.name⟩ landing world.disk reached.disk := by
  obtain ⟨made, makes, paved⟩ :=
    makeDirectories_paves sound (Path.isWritten_parent target_written) receives.makeable
  have made_sound : ({ world with disk := made } : World).disk.Sound := paved.sound
  obtain ⟨goal, goes, rfl⟩ := goes_of_receives paved receives
  rw [← placeOf_congr paved.current] at apart
  refine ⟨{ world with disk := made.put (made.placeOf goal) (.file content.1 content.2) }, ?_,
    paved.laid receives⟩
  rw [Copier.copyFile, bind_ok makes, bind_ok (copyFile_goes made_sound source_written
    target_written (paved.find?_eq sound found) goes apart)]
  rfl

end Single

/-! ## Copying one file after the other -/

structure Parted (disk : Disk) (source target : Path) (relatives : List (List String)) : Prop where
  directory : disk.isDirectory source = true
  outside : ∀ relative ∈ relatives, ¬ disk.placeOf target <+: disk.placeOf source ++ relative

theorem parted_of_apart {disk : Disk} {source target : Path}
    (directory : disk.isDirectory source = true)
    (apart : Apart (disk.placeOf source) (disk.placeOf target)) (relatives : List (List String)) :
    Parted disk source target relatives :=
  ⟨directory, fun _ _ => not_prefix_of_apart apart (List.prefix_append _ _)⟩

theorem Parted.tail {disk : Disk} {source target : Path} {relative : List String}
    {others : List (List String)} (parted : Parted disk source target (relative :: others)) :
    Parted disk source target others :=
  ⟨parted.directory, fun other member => parted.outside other (List.mem_cons_of_mem _ member)⟩

theorem taken?_congr {left right : Disk} (left_sound : left.Sound) (right_sound : right.Sound)
    (current : right.current = left.current) {source : Path}
    (left_directory : left.isDirectory source = true)
    (right_directory : right.isDirectory source = true) (copier : Copier) {relative : List String}
    (named : ∀ name ∈ relative, Path.IsName name)
    (content : right.contentAt (left.placeOf source ++ relative) =
      left.contentAt (left.placeOf source ++ relative)) :
    copier.taken? right source relative = copier.taken? left source relative := by
  refine Option.ext fun found => ?_
  rw [taken?_eq_some_iff, taken?_eq_some_iff, left_sound.find?_join_iff left_directory named,
    right_sound.find?_join_iff right_directory named, placeOf_congr current,
    ← contentAt_eq_some_iff, ← contentAt_eq_some_iff, content]

theorem plan_congr {left right : Disk} (copier : Copier) (target : Path)
    (replacements? : Option Replacements) (source : Path) {relatives : List (List String)}
    (same : ∀ relative ∈ relatives,
      copier.taken? right source relative = copier.taken? left source relative) :
    copier.plan right target replacements? source relatives =
      copier.plan left target replacements? source relatives :=
  List.filterMap_congr fun relative member => by rw [same relative member]

theorem plan_cons_of_taken {copier : Copier} {disk : Disk} {source : Path} {relative : List String}
    {content : Content} (taken : copier.taken? disk source relative = some content) (target : Path)
    (replacements? : Option Replacements) (others : List (List String)) :
    copier.plan disk target replacements? source (relative :: others) =
      copier.write target replacements? source relative content ::
        copier.plan disk target replacements? source others := by
  simp [plan, taken]

theorem plan_cons_of_left {copier : Copier} {disk : Disk} {source : Path} {relative : List String}
    (left : copier.taken? disk source relative = none) (target : Path)
    (replacements? : Option Replacements) (others : List (List String)) :
    copier.plan disk target replacements? source (relative :: others) =
      copier.plan disk target replacements? source others := by
  simp [plan, left]

section Parted

variable {before after : Disk} {source target : Path} {relatives : List (List String)}
  (parted : Parted before source target relatives) (sound : before.Sound) {write : Write}
  {landing : Place} (laid : Laid write landing before after) (stays : write.StaysBelow target)

include parted sound laid

theorem Parted.step : Parted after source target relatives := by
  refine ⟨isDirectory_of_grows sound laid.sound laid.current (fun _ => laid.grows)
    parted.directory, ?_⟩
  rw [placeOf_congr laid.current, placeOf_congr laid.current]
  exact parted.outside

include stays

theorem Parted.taken?_eq (copier : Copier) {relative : List String} (listed : relative ∈ relatives)
    (named : ∀ name ∈ relative, Path.IsName name) :
    copier.taken? after source relative = copier.taken? before source relative := by
  refine taken?_congr sound laid.sound laid.current parted.directory
    (parted.step sound laid).directory copier named ?_
  rcases (laid.altered stays).node (before.placeOf source ++ relative) with
    within | kept | ⟨-, absent, directory⟩ | ⟨wrote, -, -⟩
  · exact absurd within (parted.outside relative listed)
  · exact contentAt_congr kept
  · rw [contentAt_eq_none (Or.inl absent), contentAt_eq_none (Or.inr directory)]
  · exact wrote.elim

end Parted

structure Follows (laid : List (Write × Place)) (target : Path) (plan : List Write)
    (before after : Disk) : Prop where
  writes : laid.map Prod.fst = plan
  lays : Lays laid before after
  stays : ∀ item ∈ laid, item.1.StaysBelow target

section Each

variable {world reached : World} (sound : world.disk.Sound) {copier : Copier} {source target : Path}
  (source_written : source.IsWritten) (target_written : target.IsWritten)
  {replacements? : Option Replacements} {relatives : List (List String)}
  (parted : Parted world.disk source target relatives)
  (named : ∀ relative ∈ relatives, ∀ name ∈ relative, Path.IsName name)

include sound source_written target_written parted named

theorem copyEach_eq_ok {written : List Path}
    (inner : ∀ delivery ∈ copier.deliveries target replacements? source relatives world,
      Path.Inner delivery.relative)
    (ends : copier.copyEach target replacements? source relatives world = .ok written reached) :
    ∃ laid, Follows laid target (copier.plan world.disk target replacements? source relatives)
      world.disk reached.disk ∧ (written = laid.map fun item => item.1.path) ∧
        (∀ item ∈ laid, ∃ delivery ∈ copier.deliveries target replacements? source relatives world,
          LandsAt delivery item) ∧
        ∀ relative ∈ relatives, (copier.taken? world.disk source relative).isSome →
          Path.Inner (relativeText replacements? relative) := by
  induction relatives generalizing world written with
  | nil =>
      cases ends
      exact ⟨[], ⟨rfl, .nil (Agree.refl sound), nofun⟩, rfl, nofun, nofun⟩
  | cons relative others ih =>
      obtain ⟨here, later⟩ := List.forall_mem_cons.1 named
      rw [copyEach_cons] at ends
      rw [deliveries, taken?_isSome] at inner ⊢
      cases taken : copier.taken? world.disk source relative with
      | none =>
          rw [taken] at ends inner
          rw [plan_cons_of_left taken]
          obtain ⟨laid, follows, paths, lands, inner⟩ := ih sound parted.tail later inner ends
          refine ⟨laid, follows, paths, lands, List.forall_mem_cons.2 ⟨fun some => ?_, inner⟩⟩
          rw [taken] at some
          cases some
      | some content =>
          rw [taken] at ends inner
          obtain ⟨path, between, copies, continues⟩ := bind_eq_ok_iff.1 ends
          obtain ⟨own, others_inner⟩ := List.forall_mem_cons.1 inner
          rw [collect_of_ok copies] at others_inner
          obtain ⟨rfl, landing, laid, lands⟩ := copyOne_eq_ok sound source_written target_written here
            (taken?_eq_some_iff.1 taken).2 copies
          have stays : (copier.write target replacements? source relative content).StaysBelow
              target := Write.staysBelow_of_inner own (destination_eq target replacements? relative)
          obtain ⟨tail, last, copied, finishes⟩ := bind_eq_ok_iff.1 continues
          cases finishes
          obtain ⟨rest, follows, rfl, others_land, rest_inner⟩ :=
            ih laid.sound (parted.step sound laid).tail later others_inner copied
          -- a file that is laid leaves what is still to be taken as it was
          have taken_same : ∀ other ∈ others,
              copier.taken? between.disk source other = copier.taken? world.disk source other :=
            fun other member => parted.taken?_eq sound laid stays copier
              (List.mem_cons_of_mem _ member) (later other member)
          have same := plan_congr copier target replacements? source taken_same
          refine ⟨(_, landing) :: rest, ⟨?_, .cons laid follows.lays, ?_⟩, rfl, ?_, ?_⟩
          · rw [plan_cons_of_taken taken, List.map_cons, follows.writes, same]
          · exact List.forall_mem_cons.2 ⟨stays, follows.stays⟩
          · simp only [Option.isSome_some, ↓reduceIte, collect_of_ok copies]
            refine List.forall_mem_cons.2 ⟨⟨_, List.mem_cons_self, lands⟩, fun item member => ?_⟩
            obtain ⟨delivery, inside, lands⟩ := others_land item member
            exact ⟨delivery, List.mem_cons_of_mem _ inside, lands⟩
          · refine List.forall_mem_cons.2 ⟨fun _ => own, fun other member some => ?_⟩
            exact rest_inner other member (by rwa [taken_same other member])

omit parted in
theorem copyEach_lays {base : Path} (parted : Parted world.disk source base relatives)
    {laid : List (Write × Place)} {after : Disk}
    (follows : Follows laid base (copier.plan world.disk target replacements? source relatives)
      world.disk after) :
    ∃ reached, copier.copyEach target replacements? source relatives world =
      .ok (laid.map fun item => item.1.path) reached ∧ Same after reached.disk := by
  induction relatives generalizing world laid with
  | nil =>
      obtain rfl := List.map_eq_nil_iff.1 follows.writes
      cases follows.lays with
      | nil same => exact ⟨world, rfl, same.symm⟩
  | cons relative others ih =>
      obtain ⟨here, later⟩ := List.forall_mem_cons.1 named
      cases taken : copier.taken? world.disk source relative with
      | none =>
          rw [plan_cons_of_left taken] at follows
          rw [copyEach_cons_of_left taken]
          exact ih sound later parted.tail follows
      | some content =>
          rw [plan_cons_of_taken taken] at follows
          obtain ⟨writes, lays, all_stay⟩ := follows
          cases lays with
          | nil same => cases writes
          | @cons write landing rest _ middle _ laid others_lay =>
              obtain ⟨rfl, rest_writes⟩ := List.cons.inj writes
              obtain ⟨stays, rest_stay⟩ := List.forall_mem_cons.1 all_stay
              have found := (taken?_eq_some_iff.1 taken).2
              have apart : world.disk.placeOf (source.join ⟨.current, relative⟩) ≠ landing := by
                rintro rfl
                have led : world.disk.placeOf (source.join ⟨.current, relative⟩) =
                    world.disk.placeOf source ++ relative := by
                  rw [placeOf_join_of_current world.disk source rfl]
                  exact walk_names here _
                refine parted.outside relative List.mem_cons_self ?_
                rw [← led]
                exact stays.placeOf.trans (prefix_of_lands laid.receives.lands)
              obtain ⟨between, copies, other_laid⟩ := copyOne_lays sound source_written
                target_written here found laid.receives apart
              have agree : Same middle between.disk := laid.agree other_laid (Agree.refl sound)
              have same : copier.plan between.disk target replacements? source others =
                  copier.plan world.disk target replacements? source others :=
                plan_congr copier target replacements? source fun other member =>
                  parted.taken?_eq sound other_laid stays copier (List.mem_cons_of_mem _ member)
                    (later other member)
              obtain ⟨last, copied, ends⟩ := ih other_laid.sound later
                (parted.step sound other_laid).tail
                ⟨rest_writes.trans same.symm, others_lay.congr_left agree.symm, rest_stay⟩
              exact ⟨last, copyEach_cons_of_taken taken copies copied, ends⟩

end Each

/-! ## Copying a directory -/

def treePlan (copier : Copier) (disk : Disk) (target : Path) (replacements? : Option Replacements)
    (source : Path) : List Write :=
  copier.plan disk target (effective replacements?) source (listing disk source)

theorem listing_eq {disk : Disk} (sound : disk.Sound) {source : Path}
    (directory : disk.isDirectory source = true) :
    listing disk source =
      (disk.below (disk.placeOf source)).map fun entry => entry.1.drop (disk.placeOf source).length := by
  obtain ⟨noNull, begins, passes, -⟩ := sound.isDirectory_iff.1 directory
  have located : disk.locate true source = .ok (disk.placeOf source) :=
    sound.locate_eq_ok_iff.2 ⟨noNull, begins, passes, rfl⟩
  rw [listing, located]

theorem treePlan_agree {region : Place → Prop} {left right : Disk} (agree : Agree region left right)
    {source : Path} (directory : left.isDirectory source = true)
    (way : ∀ place, left.OnWay source place → region place)
    (within : ∀ place, left.placeOf source <+: place → region place) (copier : Copier)
    (target : Path) (replacements? : Option Replacements) :
    copier.treePlan right target replacements? source =
      copier.treePlan left target replacements? source := by
  have other_directory : right.isDirectory source = true := (agree.isDirectory_eq way).trans directory
  have below : right.below (left.placeOf source) = left.below (left.placeOf source) :=
    agree.below_eq fun place lower =>
      within place (isWithin_iff.1 ((Bool.and_eq_true _ _).mp lower).1)
  have same : listing right source = listing left source := by
    rw [listing_eq agree.right_sound other_directory, listing_eq agree.left_sound directory,
      agree.placeOf, below]
  rw [treePlan, treePlan, same]
  exact plan_congr copier target _ source fun relative listed =>
    taken?_congr agree.left_sound agree.right_sound agree.current directory other_directory copier
      (fun _ member => isName_of_mem_listing agree.left_sound listed member)
      (agree.contentAt (within _ (List.prefix_append _ _)))

theorem isDirectory_of_copyTree {copier : Copier} {source target : Path}
    {replacements? : Option Replacements} {world reached : World} {written : List Path}
    (ends : copier.copyTree target [source] replacements? world = .ok written reached) :
    world.disk.isDirectory source = true := by
  obtain ⟨listed, between, copies, -⟩ := bind_eq_ok_iff.1 ends
  obtain ⟨wrote, middle, copied, -⟩ := bind_eq_ok_iff.1 copies
  rw [copyDirectory, disk_bind] at copied
  cases directory : world.disk.isDirectory source with
  | false =>
      rw [directory] at copied
      cases copied
  | true => rfl

section Tree

variable {world reached : World} (sound : world.disk.Sound) {copier : Copier} {source target : Path}
  (source_written : source.IsWritten) (target_written : target.IsWritten)
  {replacements? : Option Replacements}

include sound source_written target_written

theorem copyTree_eq_ok {written : List Path}
    (outside : ∀ relative ∈ listing world.disk source,
      ¬ world.disk.placeOf target <+: world.disk.placeOf source ++ relative)
    (inner : ∀ delivery ∈ copier.treeDeliveries target source replacements? world,
      Path.Inner delivery.relative)
    (ends : copier.copyTree target [source] replacements? world = .ok written reached) :
    ∃ laid, Follows laid target (copier.treePlan world.disk target replacements? source) world.disk
      reached.disk ∧ (written = laid.map fun item => item.1.path) ∧
        (∀ item ∈ laid, ∃ delivery ∈ copier.treeDeliveries target source replacements? world,
          LandsAt delivery item) ∧
        ∀ relative ∈ listing world.disk source, (copier.taken? world.disk source relative).isSome →
          Path.Inner (relativeText (effective replacements?) relative) := by
  obtain ⟨listed, between, copies, notes⟩ := bind_eq_ok_iff.1 ends
  obtain ⟨wrote, middle, copied, finishes⟩ := bind_eq_ok_iff.1 copies
  cases notes
  cases finishes
  have directory := isDirectory_of_copyTree ends
  rw [copyDirectory, disk_bind, directory] at copied
  rw [treeDeliveries, if_pos directory] at inner ⊢
  have named : ∀ relative ∈ listing world.disk source, ∀ name ∈ relative, Path.IsName name :=
    fun _ listed _ member => isName_of_mem_listing sound listed member
  obtain ⟨laid, follows, same, lands⟩ := copyEach_eq_ok sound source_written target_written
    ⟨directory, outside⟩ named inner copied
  exact ⟨laid, follows, (List.append_nil wrote).trans same, lands⟩

theorem copyTree_lays {base : Path}
    (parted : Parted world.disk source base (listing world.disk source))
    {laid : List (Write × Place)} {after : Disk}
    (follows : Follows laid base (copier.treePlan world.disk target replacements? source)
      world.disk after) :
    ∃ reached, copier.copyTree target [source] replacements? world =
      .ok (laid.map fun item => item.1.path) reached ∧ Same after reached.disk := by
  obtain ⟨last, copied, ends⟩ := copyEach_lays sound source_written target_written
    (fun relative listed name member => isName_of_mem_listing sound listed member) parted follows
  have directory : copier.copyDirectory target (effective replacements?) source world =
      .ok (laid.map fun item => item.1.path) last := by
    rw [copyDirectory, disk_bind, parted.directory]
    exact copied
  have sources : copier.copySources target (effective replacements?) [source] world =
      .ok (laid.map fun item => item.1.path) last := by
    rw [copySources, bind_ok directory]
    exact congrArg (fun written => EStateM.Result.ok written last) (List.append_nil _)
  refine ⟨{ last with journal := last.journal ++ [.noted (.copied
    (laid.map fun item => item.1.path).length target.toText)] }, ?_, ends⟩
  rw [copyTree, bind_ok sources]
  rfl

end Tree

end Archetype.Copier
