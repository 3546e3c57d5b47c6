import Archetype.Proofs.Laying

namespace Archetype.Disk

structure Goes (disk : Disk) (target : Path) (name? : Option String) (path : Path) : Prop where
  writable : disk.Writable path
  choice : path = target ∨ ∃ name, name? = some name ∧ disk.isDirectory target = true ∧
    path = target.join ⟨.current, [name]⟩

structure Cleared (place : Place) (before after : Disk) : Prop where
  noNull : hasNull place = false
  way : ∀ front, Below place front →
    before.node? front = some .directory ∨ before.node? front = none
  sound : after.Sound
  current : after.current = before.current
  temporary : after.temporary = before.temporary
  within : ∀ other, place <+: other → after.node? other = none
  other : ∀ other, ¬ place <+: other → after.node? other = before.node? other

section Names

variable {disk : Disk} {directory : Path} (written : directory.IsWritten) {name : String}
  (proper : Path.IsSegment name)

include written proper

theorem locateName_inside (follow : Bool) :
    disk.locateName follow ((FileName.path directory).inside name) =
      disk.locate follow (directory.join ⟨.current, [name]⟩) := by
  obtain ⟨text, named, denoted, plain⟩ := Path.inside_path written proper
  have anchor : Path.anchorOf text.toList = directory.anchor := congrArg Path.anchor denoted
  have segments : Path.segmentsOf text = directory.segments ++ [name] :=
    congrArg Path.segments denoted
  rw [named, locateName, locate, anchor, targetSegments, segments, if_neg plain,
    Path.join_of_current directory rfl, List.append_nil]

theorem existing_inside :
    disk.existing ((FileName.path directory).inside name) =
      disk.existing (.path (directory.join ⟨.current, [name]⟩)) := by
  rw [existing, existing, locateName_inside written proper]
  rfl

theorem write_inside (content : ByteArray) (executable : Bool) :
    disk.write ((FileName.path directory).inside name) content executable =
      disk.write (.path (directory.join ⟨.current, [name]⟩)) content executable := by
  rw [write, write, locateName_inside written proper]
  rfl

end Names

section Sound

variable {disk : Disk} (sound : disk.Sound)

include sound

theorem Sound.writable_of_write {path : Path} {content : ByteArray} {executable : Bool}
    {changed : Disk} (writes : disk.write (.path path) content executable = .ok changed) :
    disk.Writable path ∧
      changed = disk.put (disk.placeOf path) (.file content executable) := by
  unfold write at writes
  cases located : disk.locate true path with
  | error refused => simp [locateName, located, bind, Except.bind] at writes
  | ok place =>
      obtain ⟨noNull, begins, passes, rfl⟩ := sound.locate_eq_ok_iff.1 located
      simp only [locateName, located, bind, Except.bind] at writes
      split at writes
      · cases writes
      · cases writes
      · rename_i file
        exact ⟨⟨noNull, begins, passes, by simp [file]⟩, (Except.ok.inj writes).symm⟩
      · rename_i absent
        exact ⟨⟨noNull, begins, passes, by simp [absent]⟩, (Except.ok.inj writes).symm⟩

omit sound in
theorem find?_of_read {path : Path} {content : Content}
    (reads : disk.read (.path path) = .ok content) :
    disk.find? path = some (.file content.1 content.2) := by
  unfold read at reads
  rw [find?]
  cases located : disk.locate true path with
  | error refused => simp [locateName, located, bind, Except.bind] at reads
  | ok place =>
      simp only [locateName, located, bind, Except.bind] at reads
      split at reads
      · rename_i bytes executable held
        cases reads
        exact held
      · cases reads
      · cases reads
      · cases reads

theorem Sound.isLink_eq_false (path : Path) : disk.isLink path = false := by
  unfold isLink
  cases disk.locate false path with
  | error refused => rfl
  | ok place =>
      cases held : disk.node? place with
      | none => simp [held]
      | some node =>
          cases node with
          | link target => exact absurd held (sound.linkFree place target)
          | _ => simp [held]

theorem Sound.directory_of_below {place front : Place} (below : Below place front)
    (held : disk.node? place ≠ none) : disk.node? front = some .directory := by
  obtain ⟨⟨rest, rfl⟩, apart⟩ := below
  exact sound.directory_of_append (fun empty => apart (by simp [empty])) held

theorem Sound.none_of_prefix {place other : Place} (absent : disk.node? place = none)
    (within : place <+: other) : disk.node? other = none := by
  obtain ⟨rest, rfl⟩ := within
  by_cases last : rest = []
  · rwa [last, List.append_nil]
  · exact sound.none_of_append last (by simp [absent])

theorem Sound.way_of_missing {follow : Bool}
    {onLink : Place → String → List String → Except Refusal Place} {names : List String}
    (named : ∀ name ∈ names, Path.IsName name) {place : Place}
    (here : disk.node? place = some .directory)
    (missing : disk.descend follow onLink place names = .error (.code .missing)) :
    (∀ front, front <+: names → disk.node? (place ++ front) = some .directory ∨
      disk.node? (place ++ front) = none) ∧ disk.node? (place ++ names) = none := by
  induction names generalizing place with
  | nil => cases missing
  | cons name names ih =>
      obtain ⟨isName, others⟩ := List.forall_mem_cons.1 named
      rw [descend] at missing
      · cases held : disk.node? (place ++ [name]) with
        | none =>
            have beyond : ∀ rest, disk.node? (place ++ name :: rest) = none := fun rest =>
              sound.none_of_prefix held ⟨rest, by simp⟩
            refine ⟨fun front starts => ?_, beyond names⟩
            cases front with
            | nil => exact Or.inl (by rwa [List.append_nil])
            | cons first rest =>
                obtain rfl : first = name := (List.cons_prefix_cons.1 starts).1
                exact Or.inr (beyond rest)
        | some node =>
            rw [held] at missing
            cases node with
            | link target => exact absurd held (sound.linkFree _ target)
            | file content executable =>
                dsimp only at missing
                split at missing
                · cases missing
                · cases missing
            | directory =>
                obtain ⟨way, absent⟩ := ih others held missing
                refine ⟨fun front starts => ?_, by simpa using absent⟩
                cases front with
                | nil => exact Or.inl (by rwa [List.append_nil])
                | cons first rest =>
                    obtain ⟨rfl, later⟩ := List.cons_prefix_cons.1 starts
                    simpa using way rest later
      · exact isName.1.2.1
      · exact isName.2

end Sound

theorem cleared_of_absent {disk : Disk} (sound : disk.Sound) {place : Place}
    (noNull : hasNull place = false)
    (way : ∀ front, Below place front →
      disk.node? front = some .directory ∨ disk.node? front = none)
    (absent : disk.node? place = none) : Cleared place disk disk :=
  ⟨noNull, way, sound, rfl, rfl, fun _ within => sound.none_of_prefix absent within,
    fun _ _ => rfl⟩

theorem cleared_prune {disk : Disk} (sound : disk.Sound) {place : Place}
    (noNull : hasNull place = false) (more : place ≠ []) (held : disk.node? place ≠ none) :
    Cleared place disk (disk.prune place) := by
  refine ⟨noNull, fun front below => Or.inl (sound.directory_of_below below held), sound.prune more,
    rfl, rfl, fun other within => ?_, fun other outside => ?_⟩
  · rw [node?_prune disk more, if_pos within]
  · rw [node?_prune disk more, if_neg outside]

theorem cleared_erase {disk : Disk} (sound : disk.Sound) {place : Place}
    (noNull : hasNull place = false) (more : place ≠ []) (held : disk.node? place ≠ none)
    (blocked : disk.node? place ≠ some .directory) : Cleared place disk (disk.erase place) := by
  refine ⟨noNull, fun front below => Or.inl (sound.directory_of_below below held),
    sound.erase blocked, rfl, rfl, fun other within => ?_, fun other outside => ?_⟩
  · rw [node?_erase]
    split
    · rfl
    · rename_i apart
      obtain ⟨rest, rfl⟩ := within
      refine sound.none_of_append (fun empty => apart ?_) blocked
      rw [empty, List.append_nil]
      exact ⟨rfl, more⟩
  · rw [node?_erase, if_neg]
    rintro ⟨rfl, -⟩
    exact outside (List.prefix_refl _)

end Archetype.Disk

namespace Archetype.Action

open Archetype.Disk

variable {world reached : World} (sound : world.disk.Sound)

/-! ## Making directories -/

section Directories

variable {path : Path} (written : path.IsWritten)

include sound written

omit written in
theorem passes_of_makeDirectory {changed : Disk}
    (made : world.disk.makeDirectory path = .ok changed) :
    hasNull path.segments = false ∧
      world.disk.node? (world.disk.start path.anchor) = some .directory ∧
      world.disk.Passes (world.disk.start path.anchor) path.segments := by
  unfold Disk.makeDirectory at made
  cases located : world.disk.locate false path with
  | error refused => simp [located, bind, Except.bind] at made
  | ok place =>
      obtain ⟨noNull, begins, passes, -⟩ := sound.locate_eq_ok_iff.1 located
      exact ⟨noNull, begins, passes⟩

theorem isDirectory_of_made {changed : Disk}
    (made : world.disk.makeDirectory path = .ok changed) : changed.isDirectory path = true := by
  obtain ⟨noNull, begins, passes⟩ := passes_of_makeDirectory sound made
  obtain ⟨rfl, reachable, absent⟩ := sound.makeDirectory_cases written made
  have put_sound : (world.disk.put (world.disk.placeOf path) .directory).Sound :=
    sound.put reachable (by simp [absent]) (by simp)
  have more : world.disk.placeOf path ≠ [] := fun root => by simp [root] at absent
  have kept : ∀ place, world.disk.node? place = some .directory →
      (world.disk.put (world.disk.placeOf path) .directory).node? place = some .directory := by
    intro place held
    rw [node?_put _ more]
    split
    · rfl
    · exact held
  refine put_sound.isDirectory_iff.2 ⟨noNull, kept _ begins, ?_, ?_⟩
  · exact passes_of_directories fun before starts apart =>
      kept _ (directory_of_passes passes starts apart)
  · exact (node?_put _ more _ _).trans (if_pos rfl)

theorem isDirectory_of_makeDirectory (ends : makeDirectory path world = .ok () reached) :
    world.disk.node? (world.disk.start path.anchor) = some .directory ∧
      reached.disk.isDirectory path = true := by
  rw [makeDirectory, disk_bind] at ends
  cases made : world.disk.makeDirectory path with
  | error refused =>
      simp only [made] at ends
      cases there : world.disk.isDirectory path with
      | false =>
          rw [there] at ends
          cases ends
      | true =>
          rw [there] at ends
          cases ends
          exact ⟨(sound.isDirectory_iff.1 there).2.1, there⟩
  | ok changed =>
      simp only [made] at ends
      cases ends
      exact ⟨(passes_of_makeDirectory sound made).2.1, isDirectory_of_made sound written made⟩

theorem isDirectory_of_makeDirectories (ends : makeDirectories path world = .ok () reached) :
    world.disk.node? (world.disk.start path.anchor) = some .directory ∧
      reached.disk.isDirectory path = true := by
  obtain ⟨anchor, segments⟩ := path
  induction segments using List.reverseRecOn generalizing reached with
  | nil => exact isDirectory_of_makeDirectory sound written ends
  | append_singleton segments last ih =>
      -- the directory before it is made first, or it can be made at once
      by_cases missing :
          world.disk.makeDirectory ⟨anchor, segments ++ [last]⟩ = .error (.code .missing)
      · rw [makeDirectories_of_missing missing] at ends
        obtain ⟨_, between, made, makes⟩ := bind_eq_ok_iff.1 ends
        have before_written : (⟨anchor, segments⟩ : Path).IsWritten :=
          fun segment member => written segment (List.mem_append_left [last] member)
        have altered : Within .unlimited (makeDirectories ⟨anchor, segments⟩) world :=
          within_makeDirectories sound before_written fun _ _ => Or.inl trivial
        rw [Within, after_of_ok made] at altered
        exact ⟨(ih before_written made).1,
          (isDirectory_of_makeDirectory altered.sound written makes).2⟩
      · rw [makeDirectories_of_ne_missing missing] at ends
        exact isDirectory_of_makeDirectory sound written ends

theorem makeDirectories_eq_ok (ends : makeDirectories path world = .ok () reached) :
    Paved path world.disk reached.disk := by
  obtain ⟨begins, directory⟩ := isDirectory_of_makeDirectories sound written ends
  have altered : Within ⟨fun _ => False, fun _ => False, world.disk.OnWay path⟩
      (makeDirectories path) world :=
    within_makeDirectories sound written fun _ onWay => Or.inr onWay
  rw [Within, after_of_ok ends] at altered
  have way : ∀ place, world.disk.OnWay path place → reached.disk.node? place = some .directory :=
    fun place onWay =>
      altered.sound.directory_of_onWay directory ((onWay_congr altered.current).2 onWay)
  have before : ∀ place, world.disk.OnWay path place →
      world.disk.node? place = some .directory ∨ world.disk.node? place = none := by
    intro place onWay
    rcases altered.node place with free | kept | ⟨-, absent, -⟩ | ⟨wrote, -, -⟩
    · exact free.elim
    · exact Or.inl (kept.symm.trans (way place onWay))
    · exact Or.inr absent
    · exact wrote.elim
  refine ⟨⟨(altered.sound.isDirectory_iff.1 directory).1, begins, before⟩, altered.sound,
    altered.current, altered.temporary, way, fun place off => ?_⟩
  rcases altered.node place with free | kept | ⟨onWay, -, -⟩ | ⟨wrote, -, -⟩
  · exact free.elim
  · exact kept
  · exact absurd onWay off
  · exact wrote.elim

theorem makeDirectories_paves (makeable : world.disk.Makeable path) :
    ∃ made, makeDirectories path world = .ok () { world with disk := made } ∧
      Paved path world.disk made := by
  obtain ⟨made, ends, -⟩ := makeDirectories_ok sound written makeable
  exact ⟨made, ends, makeDirectories_eq_ok sound written ends⟩

end Directories

/-! ## Copying files -/

omit sound in
theorem isSameFile_eq_ok {source destination : FileName} {same : Bool}
    (ends : isSameFile source destination world = .ok same reached) : world = reached := by
  rw [isSameFile, disk_bind] at ends
  cases listed : world.disk.existing source with
  | error refused =>
      simp only [listed] at ends
      cases refused with
      | code => cases ends; rfl
      | nullCharacter => cases ends
  | ok place =>
      cases found : world.disk.existing destination with
      | error refused =>
          simp only [listed, found] at ends
          cases refused with
          | code => cases ends; rfl
          | nullCharacter => cases ends
      | ok other =>
          simp only [listed, found] at ends
          cases ends
          rfl

omit sound in
theorem isSameFile_inside {source : FileName} {directory : Path} (written : directory.IsWritten)
    {name : String} (proper : Path.IsSegment name) :
    isSameFile source ((FileName.path directory).inside name) world =
      isSameFile source (.path (directory.join ⟨.current, [name]⟩)) world := by
  rw [isSameFile, disk_bind, isSameFile, disk_bind, existing_inside written proper]

omit sound in
theorem readFile_eq_ok {path : Path} {content : Content}
    (ends : readFile (.path path) world = .ok content reached) :
    world.disk.find? path = some (.file content.1 content.2) ∧ reached = world := by
  obtain ⟨reads, rfl⟩ := granted_eq_ok ends
  exact ⟨find?_of_read reads, rfl⟩

include sound

theorem writeFile_eq_ok {path : Path} {content : ByteArray} {executable : Bool}
    (ends : writeFile (.path path) content executable world = .ok () reached) :
    world.disk.Writable path ∧ reached =
      { world with disk := world.disk.put (world.disk.placeOf path) (.file content executable) } := by
  rw [writeFile, disk_bind] at ends
  obtain ⟨changed, between, grants, ends⟩ := bind_eq_ok_iff.1 ends
  obtain ⟨writes, rfl⟩ := granted_eq_ok grants
  obtain ⟨writable, rfl⟩ := sound.writable_of_write writes
  cases ends
  exact ⟨writable, rfl⟩

theorem copyFile_eq_ok {source target : Path} (source_written : source.IsWritten)
    (target_written : target.IsWritten)
    (ends : copyFile (.path source) target world = .ok () reached) :
    ∃ content : Content, world.disk.find? source = some (.file content.1 content.2) ∧
      ∃ path, world.disk.Goes target (some source.name) path ∧ reached =
        { world with disk :=
            world.disk.put (world.disk.placeOf path) (.file content.1 content.2) } := by
  rw [copyFile, disk_bind] at ends
  obtain ⟨same, between, compared, continues⟩ := bind_eq_ok_iff.1 ends
  cases isSameFile_eq_ok compared
  cases same with
  | true => cases continues
  | false =>
      obtain ⟨⟨content, executable⟩, between, reads, writes⟩ := bind_eq_ok_iff.1 continues
      obtain ⟨found, rfl⟩ := readFile_eq_ok reads
      refine ⟨(content, executable), found, ?_⟩
      dsimp only at writes
      cases directory : between.disk.isDirectory target with
      | false =>
          rw [directory] at writes
          obtain ⟨writable, wrote⟩ := writeFile_eq_ok sound writes
          exact ⟨target, ⟨writable, Or.inl rfl⟩, wrote⟩
      | true =>
          rw [directory, if_pos rfl] at writes
          obtain ⟨others, name, last, isName⟩ :=
            sound.exists_name_of_isFile source_written (isFile_iff.2 ⟨_, _, found⟩)
          have named : source.name = name := by simp [Path.name, last]
          rw [writeFile, disk_bind, Path.base_path last isName.1,
            write_inside target_written isName.1] at writes
          obtain ⟨changed, _, grants, ends⟩ := bind_eq_ok_iff.1 writes
          obtain ⟨writes, rfl⟩ := granted_eq_ok grants
          obtain ⟨writable, rfl⟩ := sound.writable_of_write writes
          cases ends
          exact ⟨_, ⟨writable, Or.inr ⟨name, congrArg some named, directory, rfl⟩⟩, rfl⟩

theorem copyFile_goes {source target path : Path} {content : Content}
    (source_written : source.IsWritten) (target_written : target.IsWritten)
    (file : world.disk.find? source = some (.file content.1 content.2))
    (goes : world.disk.Goes target (some source.name) path)
    (apart : world.disk.placeOf source ≠ world.disk.placeOf path) :
    copyFile (.path source) target world = .ok () { world with
      disk := world.disk.put (world.disk.placeOf path) (.file content.1 content.2) } := by
  obtain ⟨writable, rfl | ⟨name, named, directory, rfl⟩⟩ := goes
  · exact copyFile_ok sound file writable apart
  · obtain ⟨others, base, last, isName⟩ :=
      sound.exists_name_of_isFile source_written (isFile_iff.2 ⟨_, _, file⟩)
    obtain rfl : base = name := by simpa [Path.name, last] using named
    have compared := isSameFile_of_writable sound file writable apart
    have writes := sound.write_of_writable writable content.1 content.2
    rw [← isSameFile_inside target_written isName.1] at compared
    rw [← write_inside target_written isName.1] at writes
    rw [copyFile, disk_bind, directory, if_pos rfl, Path.base_path last isName.1,
      bind_ok compared]
    simp only [Bool.false_eq_true, ↓reduceIte]
    rw [bind_ok (readFile_ok sound file), writeFile, disk_bind, bind_ok (granted_ok writes)]
    rfl

/-! ## Removing -/

section Remove

variable {place : Place} (named : ∀ name ∈ place, Path.IsName name) (more : place ≠ [])

include named more

theorem removeTree_fromRoot {changed : Disk} {code? : Option ErrorCode}
    (removes : world.disk.removeTree (.fromRoot place) = .ok (changed, code?)) :
    changed = world.disk.prune place ∧ code? = none := by
  obtain ⟨front, name, last⟩ := List.eq_nil_or_concat' place |>.resolve_left more
  have cases_ := sound.removeTree_cases (fun name member => (named name member).1) last
    (named name (by simp [last])).2 removes
  rwa [world.disk.placeOf_fromRoot named] at cases_

omit more in
theorem absent_of_removeFile
    (missing : world.disk.removeFile (.fromRoot place) = .error (.code .missing)) :
    hasNull place = false ∧ (∀ front, front <+: place →
      world.disk.node? front = some .directory ∨ world.disk.node? front = none) ∧
        world.disk.node? place = none := by
  have begins : world.disk.node? (world.disk.start .root) = some .directory := world.disk.node?_root
  unfold removeFile at missing
  cases located : world.disk.locate false (.fromRoot place) with
  | error refused =>
      obtain rfl : refused = .code .missing := by
        simpa [located, bind, Except.bind] using missing
      cases noNull : hasNull place with
      | true => simp [locate, locateFrom, Path.fromRoot, noNull] at located
      | false =>
          have descends : world.disk.locateFrom false .root place = .error (.code .missing) := located
          rw [locateFrom_of_directory noNull begins] at descends
          exact ⟨rfl, sound.way_of_missing named begins descends⟩
  | ok other =>
      obtain ⟨noNull, -, passes, rfl⟩ := sound.locate_eq_ok_iff.1 located
      have led := world.disk.placeOf_fromRoot named
      have absent : world.disk.node? place = none := by
        cases held : world.disk.node? place with
        | none => rfl
        | some node =>
            simp only [located, led, held, bind, Except.bind] at missing
            cases node <;> cases missing
      refine ⟨noNull, fun front starts => ?_, absent⟩
      by_cases whole : front = place
      · rw [whole]
        exact Or.inr absent
      · have directory := directory_of_passes passes starts whole
        change world.disk.node? (walk [] front) = _ at directory
        rw [walk_names fun name member => named name (starts.subset member)] at directory
        exact Or.inl directory

theorem remove_eq_ok (ends : remove (.fromRoot place) world = .ok () reached) :
    Cleared place world.disk reached.disk := by
  have written : (Path.fromRoot place).IsWritten := fun name member => (named name member).1
  have led := world.disk.placeOf_fromRoot named
  rw [remove, disk_bind, sound.isLink_eq_false] at ends
  cases directory : world.disk.isDirectory (.fromRoot place) with
  | true =>
      rw [directory] at ends
      obtain ⟨⟨changed, code?⟩, between, grants, continues⟩ := bind_eq_ok_iff.1 ends
      obtain ⟨removes, rfl⟩ := granted_eq_ok grants
      obtain ⟨rfl, rfl⟩ := removeTree_fromRoot sound named more removes
      cases continues
      obtain ⟨noNull, -, -, there⟩ := sound.isDirectory_iff.1 directory
      rw [led] at there
      exact cleared_prune sound noNull more (by simp [there])
  | false =>
      rw [directory] at ends
      simp only [Bool.false_and, Bool.false_eq_true, ↓reduceIte] at ends
      cases removes : world.disk.removeFile (.fromRoot place) with
      | ok changed =>
          simp only [removes] at ends
          cases ends
          obtain ⟨rfl, blocked⟩ := sound.removeFile_cases written removes
          rw [led] at blocked ⊢
          unfold removeFile at removes
          cases located : world.disk.locate false (.fromRoot place) with
          | error refused => simp [located, bind, Except.bind] at removes
          | ok other =>
              obtain ⟨noNull, -, -, rfl⟩ := sound.locate_eq_ok_iff.1 located
              refine cleared_erase sound noNull more (fun absent => ?_) blocked
              simp [located, led, absent, bind, Except.bind] at removes
      | error refused =>
          -- of all refusals only this one is passed over
          have missing : refused = .code .missing ∧ world = reached := by
            simp only [removes] at ends
            cases refused with
            | nullCharacter => cases ends
            | code code =>
                cases code with
                | missing => cases ends; exact ⟨rfl, rfl⟩
                | _ => cases ends
          obtain ⟨rfl, rfl⟩ := missing
          obtain ⟨noNull, way, absent⟩ := absent_of_removeFile sound named removes
          exact cleared_of_absent sound noNull (fun front below => way front below.1) absent

omit more in
theorem removeFile_of_cleared (noNull : hasNull place = false)
    (way : ∀ front, Below place front →
      world.disk.node? front = some .directory ∨ world.disk.node? front = none)
    (absent : world.disk.node? place = none) :
    world.disk.removeFile (.fromRoot place) = .error (.code .missing) := by
  have led := world.disk.placeOf_fromRoot named
  refine sound.removeFile_of_absent noNull world.disk.node?_root (fun other onWay => ?_) (by rwa [led])
  by_cases whole : other = place
  · rw [whole]
    exact Or.inr absent
  · exact way other ⟨onWay_fromRoot named onWay, whole⟩

theorem removeTree_of_directory (found : world.disk.find? (.fromRoot place) = some .directory) :
    world.disk.removeTree (.fromRoot place) = .ok (world.disk.prune place, none) := by
  obtain ⟨noNull, begins, passes, -⟩ := sound.find?_eq_some_iff.1 found
  have located : world.disk.locate true (.fromRoot place) = .ok place :=
    sound.locate_eq_ok_iff.2 ⟨noNull, begins, passes, (world.disk.placeOf_fromRoot named).symm⟩
  obtain ⟨front, name, last⟩ := List.eq_nil_or_concat' place |>.resolve_left more
  have segments : (Path.fromRoot place).segments.isEmpty = false := by
    simp [Path.fromRoot, more]
  have inner : (Path.fromRoot place).name ≠ ".." := by
    simpa [Path.name, Path.fromRoot, last] using (named name (by simp [last])).2
  simp only [removeTree, located, bind, Except.bind, segments, inner, Bool.false_and,
    Bool.false_eq_true, ↓reduceIte]
  rfl

theorem remove_clears (noNull : hasNull place = false)
    (way : ∀ front, Below place front →
      world.disk.node? front = some .directory ∨ world.disk.node? front = none) :
    ∃ removed, remove (.fromRoot place) world = .ok () { world with disk := removed } ∧
      Cleared place world.disk removed := by
  have led := world.disk.placeOf_fromRoot named
  have isDirectory : world.disk.isDirectory (.fromRoot place) = true ↔
      world.disk.node? place = some .directory := by
    rw [Disk.isDirectory, beq_iff_eq, sound.find?_fromRoot_iff named, and_iff_right noNull]
  rw [remove, disk_bind, sound.isLink_eq_false]
  cases held : world.disk.node? place with
  | none =>
      have directory : world.disk.isDirectory (.fromRoot place) = false := by
        simpa [held] using isDirectory
      rw [directory, removeFile_of_cleared sound named noNull way held]
      exact ⟨world.disk, rfl, cleared_of_absent sound noNull way held⟩
  | some node =>
      have found := (sound.find?_fromRoot_iff named).2 ⟨noNull, held⟩
      cases node with
      | link target => exact absurd held (sound.linkFree place target)
      | directory =>
          rw [isDirectory.2 held]
          simp only [Bool.not_false, Bool.and_self, ↓reduceIte]
          rw [bind_ok (granted_ok (removeTree_of_directory sound named more found))]
          exact ⟨_, rfl, cleared_prune sound noNull more (by simp [held])⟩
      | file content executable =>
          have directory : world.disk.isDirectory (.fromRoot place) = false := by
            simpa [held] using isDirectory
          have removes : world.disk.removeFile (.fromRoot place) =
              .ok (world.disk.erase place) := by
            rw [sound.removeFile_of_file found, led]
          rw [directory, removes]
          exact ⟨_, rfl, cleared_erase sound noNull more (by simp [held]) (by simp [held])⟩

end Remove

end Archetype.Action
