import Archetype.Action
import Archetype.Proofs.Disk.Alteration

namespace Archetype.Disk

section Sound

variable {disk : Disk} (sound : disk.Sound)

include sound

theorem Sound.locateName_cases {name : FileName} (written : name.toPath.IsWritten)
    {follow : Bool} {reached : Place} (reaches : disk.locateName follow name = .ok reached) :
    reached = disk.placeOf name.toPath ∧ disk.Reachable reached := by
  cases name with
  | path path => exact sound.locate_cases written reaches
  | text text =>
      have proper : ∀ segment ∈ targetSegments text, segment = "." ∨ Path.IsSegment segment := by
        intro segment member
        rcases List.mem_append.1 member with inside | inside
        · exact Or.inr (Path.mem_segmentsOf inside)
        · split at inside
          · exact Or.inl (List.mem_singleton.1 inside)
          · cases inside
      obtain ⟨-, begins, passes, rfl⟩ := sound.locateFrom_eq_ok_iff.1 reaches
      refine ⟨?_, sound.reachable_walk proper begins passes⟩
      rw [targetSegments, walk_append]
      split
      · exact walk_dot _
      · rfl

theorem Sound.write_cases {name : FileName} (written : name.toPath.IsWritten)
    {content : ByteArray} {executable : Bool} {changed : Disk}
    (writes : disk.write name content executable = .ok changed) :
    changed = disk.put (disk.placeOf name.toPath) (.file content executable) ∧
      disk.Reachable (disk.placeOf name.toPath) ∧
      disk.node? (disk.placeOf name.toPath) ≠ some .directory := by
  unfold write at writes
  cases located : disk.locateName true name with
  | error refused => simp [located, bind, Except.bind] at writes
  | ok place =>
      obtain ⟨rfl, reachable⟩ := sound.locateName_cases written located
      simp only [located, bind, Except.bind] at writes
      split at writes
      · cases writes
      · cases writes
      · rename_i file
        exact ⟨(Except.ok.inj writes).symm, reachable, by simp [file]⟩
      · rename_i absent
        exact ⟨(Except.ok.inj writes).symm, reachable, by simp [absent]⟩

theorem Sound.makeDirectory_cases {path : Path} (written : path.IsWritten) {changed : Disk}
    (makes : disk.makeDirectory path = .ok changed) :
    changed = disk.put (disk.placeOf path) .directory ∧ disk.Reachable (disk.placeOf path) ∧
      disk.node? (disk.placeOf path) = none := by
  unfold makeDirectory at makes
  cases located : disk.locate false path with
  | error refused => simp [located, bind, Except.bind] at makes
  | ok place =>
      obtain ⟨rfl, reachable⟩ := sound.locate_cases written located
      simp only [located, bind, Except.bind] at makes
      split at makes
      · cases makes
      · rename_i absent
        exact ⟨(Except.ok.inj makes).symm, reachable, absent⟩

theorem Sound.removeFile_cases {path : Path} (written : path.IsWritten) {changed : Disk}
    (removes : disk.removeFile path = .ok changed) :
    changed = disk.erase (disk.placeOf path) ∧
      disk.node? (disk.placeOf path) ≠ some .directory := by
  unfold removeFile at removes
  cases located : disk.locate false path with
  | error refused => simp [located, bind, Except.bind] at removes
  | ok place =>
      obtain ⟨rfl, -⟩ := sound.locate_cases written located
      simp only [located, bind, Except.bind] at removes
      split at removes
      · cases removes
      · cases removes
      · rename_i held
        refine ⟨(Except.ok.inj removes).symm, ?_⟩
        rw [held]
        simp_all

theorem Sound.removeTree_cases {path : Path} (written : path.IsWritten) {others : List String}
    {name : String} (last : path.segments = others ++ [name]) (inner : name ≠ "..")
    {changed : Disk} {code? : Option ErrorCode}
    (removes : disk.removeTree path = .ok (changed, code?)) :
    changed = disk.prune (disk.placeOf path) ∧ code? = none := by
  have more : path.segments.isEmpty = false := by simp [last]
  have named : path.name = name := by simp [Path.name, last]
  unfold removeTree at removes
  cases located : disk.locate true path with
  | error refused => simp [located, bind, Except.bind] at removes
  | ok place =>
      obtain ⟨rfl, -⟩ := sound.locate_cases written located
      simp only [located, bind, Except.bind, more, named, inner, Bool.false_and,
        Bool.false_eq_true, ↓reduceIte] at removes
      have same := Except.ok.inj removes
      exact ⟨(congrArg Prod.fst same).symm, (congrArg Prod.snd same).symm⟩

end Sound

end Archetype.Disk

namespace Archetype.Action

open Archetype.Disk

variable {α β : Type}

def after (work : Action α) (world : World) : World :=
  match work world with
  | .ok _ world => world
  | .error _ world => world

/-- The action changes the disk within an allowance only. -/
def Within (allowed : Allowance) (work : Action α) (world : World) : Prop :=
  Altered allowed world.disk (work.after world).disk

theorem after_of_ok {work : Action α} {world reached : World} {value : α}
    (ends : work world = .ok value reached) : work.after world = reached := by
  rw [after, ends]

theorem after_bind (work : Action α) (next : α → Action β) (world : World) :
    (work >>= next).after world =
      match work world with
      | .ok value reached => (next value).after reached
      | .error _ reached => reached := by
  simp only [after, bind, EStateM.bind]
  cases work world with
  | ok value reached => rfl
  | error failure reached => rfl

theorem disk_bind (next : Disk → Action β) {world : World} :
    (disk >>= next) world = next world.disk world := rfl

theorem makeDirectories_of_missing {world : World} {anchor : Anchor} {segments : List String}
    {last : String}
    (missing : world.disk.makeDirectory ⟨anchor, segments ++ [last]⟩ = .error (.code .missing)) :
    makeDirectories ⟨anchor, segments ++ [last]⟩ world =
      (makeDirectories ⟨anchor, segments⟩ >>= fun _ =>
        makeDirectory ⟨anchor, segments ++ [last]⟩) world := by
  rw [makeDirectories, List.reverse_append, List.reverse_singleton, List.singleton_append,
    makeDirectoriesFrom, disk_bind, List.reverse_cons,
    List.reverse_reverse, missing]
  rfl

theorem makeDirectories_of_ne_missing {world : World} {anchor : Anchor} {segments : List String}
    {last : String}
    (parents :
      world.disk.makeDirectory ⟨anchor, segments ++ [last]⟩ ≠ .error (.code .missing)) :
    makeDirectories ⟨anchor, segments ++ [last]⟩ world =
      makeDirectory ⟨anchor, segments ++ [last]⟩ world := by
  rw [makeDirectories, List.reverse_append, List.reverse_singleton, List.singleton_append,
    makeDirectoriesFrom, disk_bind, List.reverse_cons,
    List.reverse_reverse]
  dsimp only
  generalize world.disk.makeDirectory ⟨anchor, segments ++ [last]⟩ = tried at parents
  rcases tried with (code | _) | _
  · cases code with
    | missing => exact absurd rfl parents
    | _ => rfl
  · rfl
  · rfl

section Within

variable {allowed : Allowance} {world : World}

theorem within_of_after (sound : world.disk.Sound) {work : Action α}
    (kept : (work.after world).disk = world.disk) : Within allowed work world := by
  rw [Within, kept]
  exact Altered.refl sound

theorem within_congr {work other : Action α} (same : work world = other world)
    (stays : Within allowed other world) : Within allowed work world := by
  rwa [Within, after, same]

theorem within_bind {work : Action α} {next : α → Action β} (first : Within allowed work world)
    (second : ∀ value reached, work world = .ok value reached →
      Altered allowed world.disk reached.disk → Within allowed (next value) reached) :
    Within allowed (work >>= next) world := by
  rw [Within, after_bind]
  cases ends : work world with
  | ok value reached =>
      rw [Within, after_of_ok ends] at first
      exact first.trans (second value reached ends first)
  | error failure reached =>
      rw [Within, after, ends] at first
      exact first

theorem within_pure (sound : world.disk.Sound) (value : α) :
    Within allowed (pure value) world :=
  within_of_after sound rfl

theorem within_throw (sound : world.disk.Sound) (failure : Failure) :
    Within allowed (throw failure : Action α) world :=
  within_of_after sound rfl

theorem within_fault (sound : world.disk.Sound) (cause : Cause) (subject? : Option String) :
    Within allowed (fault cause subject? : Action α) world :=
  within_of_after sound rfl

theorem within_record (sound : world.disk.Sound) (event : Event) :
    Within allowed (record event) world :=
  within_of_after sound rfl

theorem within_granted (sound : world.disk.Sound) (shown : String) (result : Except Refusal α) :
    Within allowed (granted shown result) world := by
  refine within_of_after sound ?_
  cases result with
  | ok value => rfl
  | error refused => rfl

theorem granted_eq_ok {shown : String} {result : Except Refusal α} {value : α} {reached : World}
    (ends : granted shown result world = .ok value reached) :
    result = .ok value ∧ reached = world := by
  cases result with
  | ok found =>
      obtain ⟨rfl, rfl⟩ := EStateM.Result.ok.inj ends
      exact ⟨rfl, rfl⟩
  | error refused => cases ends

theorem within_disk {next : Disk → Action β} (rest : Within allowed (next world.disk) world) :
    Within allowed (disk >>= next) world :=
  rest

theorem within_explaining {explain : FileError → Failure} {work : Action α}
    (stays : Within allowed work world) : Within allowed (explaining explain work) world := by
  have same : (explaining explain work).after world = work.after world := by
    unfold after explaining
    split
    · rename_i first
      split at first <;> simp_all
    · rename_i first
      split at first <;> simp_all
  rw [Within, same]
  exact stays

theorem within_setDisk {changed : Disk} (altered : Altered allowed world.disk changed) :
    Within allowed (setDisk changed) world :=
  altered

theorem within_makeDirectory (sound : world.disk.Sound) {path : Path} (written : path.IsWritten)
    (makes : allowed.Makes (world.disk.placeOf path)) :
    Within allowed (makeDirectory path) world := by
  refine within_disk ?_
  split
  · rename_i changed made
    obtain ⟨rfl, reachable, absent⟩ := sound.makeDirectory_cases written made
    exact within_setDisk (sound.altered_put_directory reachable absent makes)
  · split
    · exact within_throw sound _
    · exact within_pure sound _

theorem within_makeDirectories (sound : world.disk.Sound) {path : Path} (written : path.IsWritten)
    (makes : ∀ place, world.disk.OnWay path place → allowed.Makes place) :
    Within allowed (makeDirectories path) world := by
  obtain ⟨anchor, segments⟩ := path
  induction segments using List.reverseRecOn with
  | nil => exact within_makeDirectory sound written (makes _ ⟨[], List.nil_prefix, rfl⟩)
  | append_singleton segments last ih =>
      have starts : segments <+: segments ++ [last] := List.prefix_append segments [last]
      have own := makes _ ⟨segments ++ [last], List.prefix_refl _, rfl⟩
      by_cases missing :
          world.disk.makeDirectory ⟨anchor, segments ++ [last]⟩ = .error (.code .missing)
      · refine within_congr (makeDirectories_of_missing missing) (within_bind
          (ih (fun segment member => written segment (starts.subset member))
            fun place onWay => makes place (onWay.of_prefix starts)) ?_)
        intro _ reached _ altered
        refine within_makeDirectory altered.sound written ?_
        rw [altered.placeOf]
        exact own
      · exact within_congr (makeDirectories_of_ne_missing missing)
          (within_makeDirectory sound written own)

theorem within_isSameFile (sound : world.disk.Sound) (source destination : FileName) :
    Within allowed (isSameFile source destination) world := by
  refine within_disk ?_
  split
  · exact within_throw sound _
  · exact within_pure sound _
  · split
    · exact within_throw sound _
    · exact within_pure sound _
    · exact within_pure sound _

theorem within_readFile (sound : world.disk.Sound) (name : FileName) :
    Within allowed (readFile name) world :=
  within_disk (within_granted sound _ _)

theorem isFile_of_readFile {path : Path} {content : ByteArray × Bool} {reached : World}
    (ends : readFile (.path path) world = .ok content reached) :
    world.disk.isFile path = true := by
  have reads : world.disk.read (.path path) = .ok content := (granted_eq_ok ends).1
  unfold Disk.read at reads
  rw [isFile_iff, find?]
  cases located : world.disk.locate true path with
  | error refused => simp [locateName, located, bind, Except.bind] at reads
  | ok place =>
      simp only [locateName, located, bind, Except.bind] at reads
      split at reads
      · rename_i content executable holds
        exact ⟨content, executable, holds⟩
      · cases reads
      · cases reads
      · cases reads

theorem within_writeFile (sound : world.disk.Sound) {name : FileName}
    (written : name.toPath.IsWritten) (writes : allowed.Writes (world.disk.placeOf name.toPath))
    (content : ByteArray) (executable : Bool) :
    Within allowed (writeFile name content executable) world := by
  refine within_disk (within_bind (within_granted sound _ _) ?_)
  intro changed reached ends _
  obtain ⟨wrote, rfl⟩ := granted_eq_ok ends
  obtain ⟨rfl, reachable, blocked⟩ := sound.write_cases written wrote
  exact within_setDisk (sound.altered_put_file reachable blocked writes content executable)

theorem within_copyFile (sound : world.disk.Sound) {source target : Path}
    (source_written : source.IsWritten) (target_written : target.IsWritten)
    (writes : allowed.Writes (world.disk.placeOf target))
    (inside : world.disk.isDirectory target = true →
      ∀ name, allowed.Writes (world.disk.placeOf target ++ [name])) :
    Within allowed (copyFile (.path source) target) world := by
  refine within_disk (within_bind (within_isSameFile sound _ _) ?_)
  intro same compared _ unmoved
  dsimp only
  split
  · exact within_throw unmoved.sound _
  refine within_bind (within_readFile unmoved.sound _) ?_
  rintro ⟨content, executable⟩ reached reads kept
  have file := isFile_of_readFile reads
  obtain ⟨others, name, last, isName⟩ := unmoved.sound.exists_name_of_isFile source_written file
  have altered := unmoved.trans kept
  split
  · rename_i directory
    obtain ⟨text, named, denoted, -⟩ := Path.inside_path target_written isName.1
    rw [Path.base_path last isName.1, named]
    have path : (FileName.text text).toPath = ⟨target.anchor, target.segments ++ [name]⟩ := denoted
    have extended : ((FileName.text text).toPath).IsWritten := Path.isWritten_ofText text
    refine within_writeFile altered.sound extended ?_ content executable
    have place : reached.disk.placeOf (FileName.text text).toPath =
        world.disk.placeOf target ++ [name] := by
      rw [altered.placeOf, path, Disk.placeOf, walk_append, walk_name isName.2 isName.1.2.1]
      rfl
    rw [place]
    exact inside directory name
  · have denoted : ((FileName.path target).toPath).IsWritten := target_written
    refine within_writeFile altered.sound denoted ?_ content executable
    rw [altered.placeOf]
    exact writes

theorem within_remove (sound : world.disk.Sound) {path : Path} (written : path.IsWritten)
    {others : List String} {name : String} (last : path.segments = others ++ [name])
    (inner : name ≠ "..") (more : world.disk.placeOf path ≠ [])
    (free : ∀ place, world.disk.placeOf path <+: place → allowed.free place) :
    Within allowed (remove path) world := by
  refine within_disk ?_
  split
  · refine within_bind (within_granted sound _ _) ?_
    rintro ⟨changed, code?⟩ reached ends _
    obtain ⟨removes, rfl⟩ := granted_eq_ok ends
    obtain ⟨rfl, rfl⟩ := sound.removeTree_cases written last inner removes
    refine within_bind (within_setDisk (sound.altered_prune more free)) ?_
    intro _ reached _ altered
    exact within_pure altered.sound _
  · split
    · rename_i changed removes
      obtain ⟨rfl, blocked⟩ := sound.removeFile_cases written removes
      exact within_setDisk (sound.altered_erase blocked (free _ (List.prefix_refl _)))
    · exact within_pure sound _
    · exact within_throw sound _

end Within

theorem length_le_foldl_max {names : List String} {name : String} (member : name ∈ names)
    (least : Nat) : name.length ≤ (names.map String.length).foldl max least := by
  induction names generalizing least with
  | nil => cases member
  | cons first others ih =>
      rcases List.mem_cons.1 member with rfl | inside
      · have grows : ∀ (lengths : List Nat) (bound : Nat), bound ≤ lengths.foldl max bound := by
          intro lengths
          induction lengths with
          | nil => exact fun bound => Nat.le_refl bound
          | cons length lengths ih =>
              exact fun bound => Nat.le_trans (Nat.le_max_left bound length) (ih _)
        exact Nat.le_trans (Nat.le_max_right least _) (grows _ _)
      · exact ih inside _

theorem freshName_not_mem (names : List String) : freshName names ∉ names := by
  unfold freshName
  split
  · intro member
    have bound := length_le_foldl_max member 0
    have usual : stagingName.length = 15 := rfl
    simp only [String.length_append, String.length_ofList, List.length_replicate, usual] at bound
    omega
  · rename_i absent
    exact fun member => absent (List.contains_iff_mem.2 member)

theorem exists_freshName_eq (names : List String) :
    ∃ count, (freshName names).toList = stagingName.toList ++ List.replicate count '-' := by
  unfold freshName
  split
  · exact ⟨_, by rw [String.toList_append, String.toList_ofList]⟩
  · exact ⟨0, by simp⟩

theorem not_mem_freshName {character : Char} (unusual : character ∉ stagingName.toList)
    (hyphen : character ≠ '-') (names : List String) : character ∉ (freshName names).toList := by
  obtain ⟨count, characters⟩ := exists_freshName_eq names
  rw [characters, List.mem_append]
  exact fun member => member.elim unusual fun inside => hyphen (List.mem_replicate.1 inside).2

theorem isName_freshName (names : List String) : Path.IsName (freshName names) := by
  have differs : ∀ text : String, text.toList.head? ≠ some 's' → freshName names ≠ text := by
    rintro text head rfl
    obtain ⟨count, characters⟩ := exists_freshName_eq names
    rw [characters] at head
    exact head rfl
  exact ⟨⟨differs "" (by decide), differs "." (by decide),
    not_mem_freshName (by decide) (by decide) names⟩, differs ".." (by decide)⟩

theorem noNull_stagingPlace {disk : Disk} (temporary : hasNull disk.temporary = false) :
    hasNull (stagingPlace disk) = false := by
  refine hasNull_append temporary ?_
  have clean : '\x00' ∉ (freshName (disk.names disk.temporary)).toList :=
    not_mem_freshName (by decide) (by decide) _
  simpa [hasNull] using clean

theorem node?_stagingPlace (disk : Disk) : disk.node? (stagingPlace disk) = none := by
  have more : stagingPlace disk ≠ [] := by simp [stagingPlace]
  cases held : disk.node? (stagingPlace disk) with
  | none => rfl
  | some node =>
      rw [node?_of_ne_root disk more] at held
      have listed := Std.ExtTreeMap.mem_toList_iff_getElem?_eq_some.2 held
      have within : isBelow disk.temporary (stagingPlace disk) = true := by
        simp [isBelow, isWithin, stagingPlace]
      refine absurd ?_ (freshName_not_mem (disk.names disk.temporary))
      refine List.mem_filterMap.2 ⟨_, List.mem_filter.2 ⟨listed, within⟩, ?_⟩
      simp [stagingPlace]

theorem isName_of_mem_stagingPlace {disk : Disk} (sound : disk.Sound) {name : String}
    (member : name ∈ stagingPlace disk) : Path.IsName name := by
  rcases List.mem_append.1 member with inside | inside
  · exact sound.temporary name inside
  · rw [List.mem_singleton.1 inside]
    exact isName_freshName _

theorem after_withStaging {work : Path → Action α} {world : World} {changed : Disk}
    (made : world.disk.makeDirectory (.fromRoot (stagingPlace world.disk)) = .ok changed) :
    ((withStaging work).after world).disk =
      ((work (.fromRoot (stagingPlace world.disk))).after { world with disk := changed }).disk.prune
        (stagingPlace world.disk) := by
  simp only [after, withStaging, made]
  cases work (.fromRoot (stagingPlace world.disk)) { world with disk := changed } with
  | ok result reached => rfl
  | error failure reached => rfl

theorem altered_staging {disk changed : Disk} (sound : disk.Sound)
    (made : disk.makeDirectory (.fromRoot (stagingPlace disk)) = .ok changed)
    (allowed : Allowance) :
    disk.Reachable (stagingPlace disk) ∧
      Altered (allowed.freeing (stagingPlace disk)) disk changed := by
  have named := fun name (member : name ∈ stagingPlace disk) =>
    isName_of_mem_stagingPlace sound member
  obtain ⟨put, reachable, -⟩ :=
    sound.makeDirectory_cases (fun name member => (named name member).1) made
  rw [disk.placeOf_fromRoot named] at put reachable
  rw [put]
  exact ⟨reachable, sound.altered_put_directory reachable (node?_stagingPlace disk)
    (Or.inl (Or.inr (List.prefix_refl _)))⟩

theorem within_withStaging {allowed : Allowance} {world : World} (sound : world.disk.Sound)
    {work : Path → Action α}
    (stays : ∀ changed, world.disk.makeDirectory (.fromRoot (stagingPlace world.disk)) = .ok changed →
      Altered (allowed.freeing (stagingPlace world.disk)) world.disk changed →
        Within (allowed.freeing (stagingPlace world.disk))
          (work (.fromRoot (stagingPlace world.disk))) { world with disk := changed }) :
    Within allowed (withStaging work) world := by
  cases made : world.disk.makeDirectory (.fromRoot (stagingPlace world.disk)) with
  | error refused => exact within_of_after sound (by simp [after, withStaging, made])
  | ok changed =>
      obtain ⟨reachable, altered⟩ := altered_staging sound made allowed
      rw [Within, after_withStaging made]
      exact (altered.trans (stays changed made altered)).prune_freeing sound reachable
        (node?_stagingPlace world.disk)

end Archetype.Action
