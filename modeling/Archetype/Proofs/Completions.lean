import Archetype.Proofs.Actions

namespace Archetype.Disk

structure Makeable (disk : Disk) (path : Path) : Prop where
  noNull : hasNull path.segments = false
  begins : disk.node? (disk.start path.anchor) = some .directory
  way : ∀ place, disk.OnWay path place →
    disk.node? place = some .directory ∨ disk.node? place = none

theorem Makeable.of_prefix {disk : Disk} {anchor : Anchor} {before segments : List String}
    (makeable : disk.Makeable ⟨anchor, segments⟩) (starts : before <+: segments) :
    disk.Makeable ⟨anchor, before⟩ where
  noNull := hasNull_of_subset starts.subset makeable.noNull
  begins := makeable.begins
  way place onWay := makeable.way place (onWay.of_prefix starts)

theorem Makeable.altered {before after : Disk} {path : Path} (makeable : before.Makeable path)
    (altered : Altered ⟨fun _ => False, fun _ => False, fun _ => True⟩ before after) :
    after.Makeable path := by
  have held : ∀ place, after.node? place = before.node? place ∨
      after.node? place = some .directory := by
    intro place
    rcases altered.node place with free | kept | ⟨-, -, made⟩ | ⟨wrote, -, -⟩
    · exact free.elim
    · exact Or.inl kept
    · exact Or.inr made
    · exact wrote.elim
  refine ⟨makeable.noNull, ?_, fun place onWay => ?_⟩
  · rw [start_congr altered.current]
    exact (held _).elim (·.trans makeable.begins) id
  · have way := makeable.way place ((onWay_congr altered.current).1 onWay)
    exact (held place).elim (fun kept => kept.symm ▸ way) Or.inl

structure Writable (disk : Disk) (path : Path) : Prop where
  noNull : hasNull path.segments = false
  begins : disk.node? (disk.start path.anchor) = some .directory
  passes : disk.Passes (disk.start path.anchor) path.segments
  vacant : disk.node? (disk.placeOf path) ≠ some .directory

section Sound

variable {disk : Disk} (sound : disk.Sound) {path : Path}

include sound

theorem Sound.locate_of_writable (writable : disk.Writable path) (follow : Bool) :
    disk.locate follow path = .ok (disk.placeOf path) :=
  sound.locate_eq_ok_iff.2 ⟨writable.noNull, writable.begins, writable.passes, rfl⟩

theorem Sound.isDirectory_of_writable (writable : disk.Writable path) :
    disk.isDirectory path = false := by
  rw [← Bool.not_eq_true, sound.isDirectory_iff]
  exact fun directory => writable.vacant directory.2.2.2

theorem Sound.makeDirectory_ne_missing (noNull : hasNull path.segments = false)
    (begins : disk.node? (disk.start path.anchor) = some .directory)
    (passes : disk.Passes (disk.start path.anchor) path.segments) :
    disk.makeDirectory path ≠ .error (.code .missing) := by
  have located : disk.locate false path = .ok (disk.placeOf path) :=
    sound.locate_eq_ok_iff.2 ⟨noNull, begins, passes, rfl⟩
  simp only [makeDirectory, located, bind, Except.bind]
  cases disk.node? (disk.placeOf path) with
  | none => exact fun same => nomatch same
  | some node => exact fun same => nomatch same

theorem Sound.write_of_writable (writable : disk.Writable path) (content : ByteArray)
    (executable : Bool) :
    disk.write (.path path) content executable =
      .ok (disk.put (disk.placeOf path) (.file content executable)) := by
  have vacant := writable.vacant
  simp only [write, locateName, sound.locate_of_writable writable, bind, Except.bind]
  split
  · contradiction
  · rename_i target link
    exact absurd link (sound.linkFree _ target)
  · rfl
  · rfl

theorem Sound.read_of_file {content : ByteArray} {executable : Bool}
    (file : disk.find? path = some (.file content executable)) :
    disk.read (.path path) = .ok (content, executable) := by
  obtain ⟨noNull, begins, passes, held⟩ := sound.find?_eq_some_iff.1 file
  have located : disk.locate true path = .ok (disk.placeOf path) :=
    sound.locate_eq_ok_iff.2 ⟨noNull, begins, passes, rfl⟩
  simp only [read, locateName, located, bind, Except.bind, held]
  rfl

theorem Sound.existing_of_file {content : ByteArray} {executable : Bool}
    (file : disk.find? path = some (.file content executable)) :
    disk.existing (.path path) = .ok (disk.placeOf path) := by
  obtain ⟨noNull, begins, passes, held⟩ := sound.find?_eq_some_iff.1 file
  have located : disk.locate true path = .ok (disk.placeOf path) :=
    sound.locate_eq_ok_iff.2 ⟨noNull, begins, passes, rfl⟩
  simp only [existing, locateName, located, bind, Except.bind, held]
  rfl

theorem Sound.removeFile_of_file {content : ByteArray} {executable : Bool}
    (file : disk.find? path = some (.file content executable)) :
    disk.removeFile path = .ok (disk.erase (disk.placeOf path)) := by
  obtain ⟨noNull, begins, passes, held⟩ := sound.find?_eq_some_iff.1 file
  have located : disk.locate false path = .ok (disk.placeOf path) :=
    sound.locate_eq_ok_iff.2 ⟨noNull, begins, passes, rfl⟩
  simp only [removeFile, located, bind, Except.bind, held]
  rfl

theorem Sound.removeFile_of_absent (noNull : hasNull path.segments = false)
    (begins : disk.node? (disk.start path.anchor) = some .directory)
    (way : ∀ place, disk.OnWay path place →
      disk.node? place = some .directory ∨ disk.node? place = none)
    (absent : disk.node? (disk.placeOf path) = none) :
    disk.removeFile path = .error (.code .missing) := by
  rcases sound.locate_or_missing noNull begins way false with passes | missing
  · have located : disk.locate false path = .ok (disk.placeOf path) :=
      sound.locate_eq_ok_iff.2 ⟨noNull, begins, passes, rfl⟩
    simp only [removeFile, located, bind, Except.bind, absent]
    rfl
  · simp only [removeFile, missing, bind, Except.bind]

theorem Sound.existing_of_writable (writable : disk.Writable path) :
    disk.existing (.path path) = .ok (disk.placeOf path) ∨
      disk.existing (.path path) = .error (.code .missing) := by
  simp only [existing, locateName, sound.locate_of_writable writable, bind, Except.bind]
  cases disk.node? (disk.placeOf path) with
  | none => exact Or.inr rfl
  | some node => exact Or.inl rfl

end Sound

end Archetype.Disk

namespace Archetype.Action

open Archetype.Disk

variable {α β : Type} {world : World}

theorem bind_ok {work : Action α} {value : α} {reached : World}
    (ends : work world = .ok value reached) (next : α → Action β) :
    (work >>= next) world = next value reached := by
  simp only [bind, EStateM.bind, ends]

theorem bind_error {work : Action α} {next : α → Action β} {failure : Failure}
    {reached : World} (ends : work world = .error failure reached) :
    (work >>= next) world = .error failure reached := by
  simp only [bind, EStateM.bind, ends]

theorem bind_eq_ok_iff {work : Action α} {next : α → Action β} {value : β} {reached : World} :
    (work >>= next) world = .ok value reached ↔
      ∃ middle between, work world = .ok middle between ∧ next middle between = .ok value reached := by
  simp only [bind, EStateM.bind]
  cases work world with
  | ok middle between =>
      constructor
      · intro ends
        exact ⟨middle, between, rfl, ends⟩
      · rintro ⟨_, _, same, ends⟩
        cases same
        exact ends
  | error failure between => exact ⟨nofun, nofun⟩

theorem ofFault_eq_ok_iff {result : Except Fault α} {value : α} {reached : World} :
    ofFault result world = .ok value reached ↔ result = .ok value ∧ world = reached := by
  cases result with
  | ok found =>
      simp only [ofFault, pure, EStateM.pure, EStateM.Result.ok.injEq, Except.ok.injEq]
  | error fault => exact ⟨nofun, nofun⟩

theorem ofExcept_eq_ok_iff {result : Except Failure α} {value : α} {reached : World} :
    ofExcept result world = .ok value reached ↔ result = .ok value ∧ world = reached := by
  cases result with
  | ok found =>
      simp only [ofExcept, pure, EStateM.pure, EStateM.Result.ok.injEq, Except.ok.injEq]
  | error failure => exact ⟨nofun, nofun⟩

theorem explaining_eq_ok_iff {explain : FileError → Failure} {work : Action α} {value : α}
    {reached : World} :
    explaining explain work world = .ok value reached ↔ work world = .ok value reached := by
  unfold explaining
  split
  · rename_i failed
    rw [failed]
    exact ⟨nofun, nofun⟩
  · exact Iff.rfl

def satisfies (work : Action α) (world : World) (check : Disk → Bool) : Bool :=
  match work world with
  | .ok _ reached => check reached.disk
  | .error _ _ => false

theorem ok_of_check (work : Action α) (world : World) (check : Disk → Bool)
    (passed : satisfies work world check = true) :
    ∃ value reached, work world = .ok value reached ∧ check reached.disk = true := by
  unfold satisfies at passed
  cases ends : work world with
  | ok value reached =>
      rw [ends] at passed
      exact ⟨value, reached, rfl, passed⟩
  | error failure reached =>
      rw [ends] at passed
      cases passed

def Yields (work : Action α) (world : World) (wanted : α → Prop) : Prop :=
  ∃ value reached, work world = .ok value reached ∧ wanted value

instance (work : Action α) (world : World) (wanted : α → Prop) [DecidablePred wanted] :
    Decidable (Yields work world wanted) :=
  match ends : work world with
  | .ok value reached =>
    decidable_of_iff (wanted value)
      ⟨fun holds => ⟨value, reached, ends, holds⟩, fun ⟨_, _, same, holds⟩ => by
        rw [ends] at same
        cases same
        exact holds⟩
  | .error failure reached => .isFalse fun ⟨_, _, same, _⟩ => by
    rw [ends] at same
    cases same

def EndsIn (work : Action α) (world : World) (wanted : Failure → World → Prop) : Prop :=
  ∃ failure reached, work world = .error failure reached ∧ wanted failure reached

instance (work : Action α) (world : World) (wanted : Failure → World → Prop)
    [∀ failure reached, Decidable (wanted failure reached)] :
    Decidable (EndsIn work world wanted) :=
  match ends : work world with
  | .error failure reached =>
    decidable_of_iff (wanted failure reached)
      ⟨fun holds => ⟨failure, reached, ends, holds⟩, fun ⟨_, _, same, holds⟩ => by
        rw [ends] at same
        cases same
        exact holds⟩
  | .ok value reached => .isFalse fun ⟨_, _, same, _⟩ => by
    rw [ends] at same
    cases same

theorem granted_ok {shown : String} {value : α} {result : Except Refusal α}
    (ends : result = .ok value) : granted shown result world = .ok value world := by
  rw [ends]
  rfl

variable (sound : world.disk.Sound)

include sound

theorem makeDirectory_ok {path : Path} (noNull : hasNull path.segments = false)
    (begins : world.disk.node? (world.disk.start path.anchor) = some .directory)
    (passes : world.disk.Passes (world.disk.start path.anchor) path.segments)
    (clear : world.disk.node? (world.disk.placeOf path) = some .directory ∨
      world.disk.node? (world.disk.placeOf path) = none) :
    ∃ made, makeDirectory path world = .ok () { world with disk := made } ∧
      made.node? (world.disk.placeOf path) = some .directory ∧
        ∀ place, world.disk.node? place = some .directory → made.node? place = some .directory := by
  have located : world.disk.locate false path = .ok (world.disk.placeOf path) :=
    sound.locate_eq_ok_iff.2 ⟨noNull, begins, passes, rfl⟩
  rcases clear with directory | absent
  · refine ⟨world.disk, ?_, directory, fun _ held => held⟩
    have occupied : world.disk.makeDirectory path = .error (.code .occupied) := by
      simp only [Disk.makeDirectory, located, bind, Except.bind, directory]
      rfl
    have there : world.disk.isDirectory path = true :=
      sound.isDirectory_iff.2 ⟨noNull, begins, passes, directory⟩
    rw [makeDirectory, disk_bind, occupied]
    simp only [there, Bool.not_true, Bool.false_eq_true, ↓reduceIte]
    rfl
  · have more : world.disk.placeOf path ≠ [] := fun root => by simp [root] at absent
    have made : world.disk.makeDirectory path =
        .ok (world.disk.put (world.disk.placeOf path) .directory) := by
      simp only [Disk.makeDirectory, located, bind, Except.bind, absent]
      rfl
    refine ⟨world.disk.put (world.disk.placeOf path) .directory, ?_, ?_, fun place held => ?_⟩
    · rw [makeDirectory, disk_bind, made]
      rfl
    · rw [node?_put _ more, if_pos rfl]
    · rw [node?_put _ more]
      split
      · rfl
      · exact held

theorem makeDirectory_ok_onWay {path : Path} (makeable : world.disk.Makeable path)
    (passes : world.disk.Passes (world.disk.start path.anchor) path.segments) :
    ∃ made, makeDirectory path world = .ok () { world with disk := made } ∧
      ∀ place, world.disk.OnWay path place → made.node? place = some .directory := by
  obtain ⟨made, ends, directory, kept⟩ := makeDirectory_ok sound makeable.noNull makeable.begins
    passes (makeable.way _ ⟨path.segments, List.prefix_refl _, rfl⟩)
  refine ⟨made, ends, ?_⟩
  rintro place ⟨before, starts, rfl⟩
  by_cases whole : before = path.segments
  · rw [whole]
    exact directory
  · exact kept _ (directory_of_passes passes starts whole)

theorem makeDirectories_ok {path : Path} (written : path.IsWritten)
    (makeable : world.disk.Makeable path) :
    ∃ made, makeDirectories path world = .ok () { world with disk := made } ∧
      ∀ place, world.disk.OnWay path place → made.node? place = some .directory := by
  obtain ⟨anchor, segments⟩ := path
  induction segments using List.reverseRecOn with
  | nil => exact makeDirectory_ok_onWay sound makeable trivial
  | append_singleton segments last ih =>
      have starts : segments <+: segments ++ [last] := List.prefix_append segments [last]
      rcases sound.locate_or_missing makeable.noNull makeable.begins makeable.way false with
        passes | missing
      -- nothing is missing on the way, so the first attempt counts, however it ends
      · rw [makeDirectories_of_ne_missing
          (sound.makeDirectory_ne_missing makeable.noNull makeable.begins passes)]
        exact makeDirectory_ok_onWay sound makeable passes
      -- what is missing on the way is made first; then the path can be followed
      · have refused : world.disk.makeDirectory ⟨anchor, segments ++ [last]⟩ =
            .error (.code .missing) := by
          simp only [Disk.makeDirectory, missing, bind, Except.bind]
        have before_written : (⟨anchor, segments⟩ : Path).IsWritten :=
          fun segment member => written segment (starts.subset member)
        obtain ⟨made, ends, directories⟩ := ih before_written (makeable.of_prefix starts)
        have altered : Within ⟨fun _ => False, fun _ => False, fun _ => True⟩
            (makeDirectories ⟨anchor, segments⟩) world :=
          within_makeDirectories sound before_written fun _ _ => Or.inr trivial
        rw [Within, after_of_ok ends] at altered
        have passes : made.Passes (made.start anchor) (segments ++ [last]) := by
          refine passes_of_directories fun front inside apart => ?_
          rw [start_congr altered.current]
          exact directories _ ⟨front, (List.prefix_concat_iff.1 inside).resolve_left apart, rfl⟩
        have made_sound : ({ world with disk := made } : World).disk.Sound := altered.sound
        obtain ⟨last_made, last_ends, last_directories⟩ :=
          makeDirectory_ok_onWay made_sound (makeable.altered altered) passes
        refine ⟨last_made, ?_, fun place onWay =>
          last_directories place ((onWay_congr altered.current).2 onWay)⟩
        rw [makeDirectories_of_missing refused, bind_ok ends]
        exact last_ends

theorem isSameFile_of_writable {source target : Path} {content : ByteArray} {executable : Bool}
    (file : world.disk.find? source = some (.file content executable))
    (writable : world.disk.Writable target)
    (apart : world.disk.placeOf source ≠ world.disk.placeOf target) :
    isSameFile (.path source) (.path target) world = .ok false world := by
  rw [isSameFile, disk_bind, sound.existing_of_file file]
  rcases sound.existing_of_writable writable with there | missing
  · rw [there]
    simp only [apart, decide_false]
    rfl
  · rw [missing]
    rfl

theorem writeFile_ok {path : Path} (writable : world.disk.Writable path) (content : ByteArray)
    (executable : Bool) :
    writeFile (.path path) content executable world =
      .ok () { world with
        disk := world.disk.put (world.disk.placeOf path) (.file content executable) } := by
  rw [writeFile, disk_bind,
    bind_ok (granted_ok (sound.write_of_writable writable content executable))]
  rfl

theorem readFile_ok {path : Path} {content : ByteArray} {executable : Bool}
    (file : world.disk.find? path = some (.file content executable)) :
    readFile (.path path) world = .ok (content, executable) world := by
  rw [readFile, disk_bind]
  exact granted_ok (sound.read_of_file file)

theorem copyFile_ok {source target : Path} {content : ByteArray} {executable : Bool}
    (file : world.disk.find? source = some (.file content executable))
    (writable : world.disk.Writable target)
    (apart : world.disk.placeOf source ≠ world.disk.placeOf target) :
    copyFile (.path source) target world =
      .ok () { world with
        disk := world.disk.put (world.disk.placeOf target) (.file content executable) } := by
  rw [copyFile, disk_bind, sound.isDirectory_of_writable writable]
  simp only [Bool.false_eq_true, ↓reduceIte]
  rw [bind_ok (isSameFile_of_writable sound file writable apart)]
  simp only [Bool.false_eq_true, ↓reduceIte]
  rw [bind_ok (readFile_ok sound file)]
  exact writeFile_ok sound writable content executable

end Archetype.Action
