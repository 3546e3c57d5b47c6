import Archetype.Proofs.Copying
import Archetype.Proofs.Targets

namespace Archetype.Copier

open Archetype.Action Archetype.Disk

def delivered (copier : Copier) (replacements? : Option Replacements) (file : Path)
    (content : Content) : Content :=
  match replacements? with
  | none => content
  | some replacements =>
    if copier.isBinary file then content
    else ((rendered? replacements content.1).getD content.1, content.2)

theorem delivered_congr (copier : Copier) (replacements? : Option Replacements) {file other : Path}
    (same : file.name = other.name) (content : Content) :
    copier.delivered replacements? file content = copier.delivered replacements? other content := by
  unfold delivered isBinary Path.suffix
  rw [same]

section Results

variable {world : World} (sound : world.disk.Sound) {copier : Copier}

include sound

theorem copyRendered_ok {replacements : Replacements} {source target : Path} {content : Content}
    (file : world.disk.find? source = some (.file content.1 content.2))
    (writable : world.disk.Writable target)
    (apart : world.disk.placeOf source ≠ world.disk.placeOf target) :
    copier.copyRendered replacements source target world =
      .ok () { world with
        disk := world.disk.put (world.disk.placeOf target)
          (.file (copier.delivered (some replacements) source content).1
            (copier.delivered (some replacements) source content).2) } := by
  unfold copyRendered delivered
  split
  · exact copyFile_ok sound file writable apart
  · rw [bind_ok (readFile_ok sound file)]
    dsimp only
    cases rendered? replacements content.1 with
    | none => exact copyFile_ok sound file writable apart
    | some rendered => exact writeFile_ok sound writable rendered content.2

theorem copyOne_into {source target : Path} (target_written : target.IsWritten)
    (accepts : world.disk.Accepts target) {files : Place → Option Content} {ways : Place → Prop}
    (holds : world.disk.Holds (world.disk.placeOf target) files ways)
    {replacements? : Option Replacements} {relative : List String} {content : Content}
    (file : world.disk.find? (source.join ⟨.current, relative⟩) = some (.file content.1 content.2))
    (outside : ∀ place, world.disk.OnWay (source.join ⟨.current, relative⟩) place →
      ¬ world.disk.placeOf target <+: place)
    (names : Names (relativeText replacements? relative))
    (clear : ∀ front, Below (Path.segmentsOf (relativeText replacements? relative)) front →
      files front = none)
    (vacant : ¬ ways (Path.segmentsOf (relativeText replacements? relative))) :
    ∃ reached, copier.copyOne target replacements? source relative world =
        .ok (destination target replacements? relative) reached ∧
      Filled target files ways (Path.segmentsOf (relativeText replacements? relative))
        (copier.delivered replacements? (source.join ⟨.current, relative⟩) content) world.disk
        reached.disk := by
  obtain ⟨made, ends, prepared⟩ :=
    prepare_ok sound accepts holds names clear vacant target_written file outside
  have made_sound : ({ world with disk := made } : World).disk.Sound := prepared.sound
  have kept := prepared.file
  have writable := prepared.writable
  have apart := prepared.apart
  have written := prepared.filled
    (copier.delivered replacements? (source.join ⟨.current, relative⟩) content)
  rw [← destination_eq] at ends writable apart written
  generalize delivery : copier.delivered replacements? (source.join ⟨.current, relative⟩) content =
    result at written ⊢
  refine ⟨{
    disk := made.put (made.placeOf (destination target replacements? relative))
      (.file result.1 result.2)
    journal := world.journal ++ [.wrote (destination target replacements? relative)] }, ?_, written⟩
  subst delivery
  unfold copyOne
  dsimp only
  rw [bind_ok ends]
  cases replacements? with
  | none =>
      dsimp only
      rw [bind_ok (copyFile_ok made_sound kept writable apart)]
      rfl
  | some replacements =>
      dsimp only
      rw [bind_ok (copyRendered_ok made_sound kept writable apart)]
      rfl

end Results

def taken? (copier : Copier) (disk : Disk) (source : Path) (relative : List String) :
    Option Content :=
  if copier.isIgnored relative then none
  else
    match disk.find? (source.join ⟨.current, relative⟩) with
    | some (.file content executable) => some (content, executable)
    | _ => none

def writes (copier : Copier) (disk : Disk) (source : Path) (replacements? : Option Replacements)
    (relatives : List (List String)) : List (Place × Content) :=
  relatives.filterMap fun relative =>
    (copier.taken? disk source relative).map fun content =>
      (Path.segmentsOf (relativeText replacements? relative),
        copier.delivered replacements? (source.join ⟨.current, relative⟩) content)

structure Stands (disk : Disk) (target source : Path) (relatives : List (List String)) : Prop where
  directory : disk.isDirectory source = true
  apart : ∀ place, disk.OnWay source place → ¬ disk.placeOf target <+: place
  named : ∀ relative ∈ relatives, ∀ name ∈ relative, Path.IsName name
  outside : ∀ relative ∈ relatives, ¬ disk.placeOf target <+: disk.placeOf source ++ relative ∨
    disk.placeOf source ++ relative = disk.placeOf target

structure Fits (written : List (Place × Content)) (files : Place → Option Content)
    (ways : Place → Prop) : Prop where
  clear : ∀ write ∈ written, ∀ front, Below write.1 front → files front = none
  vacant : ∀ write ∈ written, ¬ ways write.1
  apart : ∀ write ∈ written, ∀ other ∈ written, ¬ Below write.1 other.1

theorem taken?_eq_some_iff {copier : Copier} {disk : Disk} {source : Path} {relative : List String}
    {content : Content} :
    copier.taken? disk source relative = some content ↔ copier.isIgnored relative = false ∧
      disk.find? (source.join ⟨.current, relative⟩) = some (.file content.1 content.2) := by
  unfold taken?
  cases ignored : copier.isIgnored relative with
  | true => simp
  | false =>
      simp only [Bool.false_eq_true, ↓reduceIte, true_and]
      split
      · rename_i bytes executable found
        rw [found, Option.some_inj, Option.some_inj, Node.file.injEq, Prod.ext_iff]
      · rename_i other
        exact iff_of_false (by simp) fun found => other _ _ found

theorem taken?_isSome (copier : Copier) (disk : Disk) (source : Path) (relative : List String) :
    (disk.isFile (source.join ⟨.current, relative⟩) && !copier.isIgnored relative) =
      (copier.taken? disk source relative).isSome := by
  rw [Bool.eq_iff_iff, Bool.and_eq_true, Option.isSome_iff_exists, isFile_iff, Bool.not_eq_true']
  constructor
  · rintro ⟨⟨content, executable, found⟩, kept⟩
    exact ⟨(content, executable), taken?_eq_some_iff.2 ⟨kept, found⟩⟩
  · rintro ⟨content, taken⟩
    obtain ⟨kept, found⟩ := taken?_eq_some_iff.1 taken
    exact ⟨⟨_, _, found⟩, kept⟩

section Cons

variable {copier : Copier} {world : World} {source target : Path}
  {replacements? : Option Replacements} {relative : List String} {others : List (List String)}

theorem copyEach_cons (relative : List String) (others : List (List String)) :
    copier.copyEach target replacements? source (relative :: others) world =
      (if (copier.taken? world.disk source relative).isSome then do
        let written ← copier.copyOne target replacements? source relative
        return written :: (← copier.copyEach target replacements? source others)
      else copier.copyEach target replacements? source others) world := by
  rw [copyEach, disk_bind, taken?_isSome]

theorem copyEach_cons_of_left (left : copier.taken? world.disk source relative = none) :
    copier.copyEach target replacements? source (relative :: others) world =
      copier.copyEach target replacements? source others world := by
  rw [copyEach_cons, left]
  rfl

theorem copyEach_cons_of_taken {content : Content} {path : Path} {tail : List Path}
    {between last : World} (taken : copier.taken? world.disk source relative = some content)
    (copies : copier.copyOne target replacements? source relative world = .ok path between)
    (copied : copier.copyEach target replacements? source others between = .ok tail last) :
    copier.copyEach target replacements? source (relative :: others) world =
      .ok (path :: tail) last := by
  rw [copyEach_cons, taken]
  simp only [Option.isSome_some, ↓reduceIte]
  rw [bind_ok copies, bind_ok copied]
  rfl

theorem writes_cons_of_left {disk : Disk} (left : copier.taken? disk source relative = none) :
    copier.writes disk source replacements? (relative :: others) =
      copier.writes disk source replacements? others := by
  rw [writes, List.filterMap_cons, left]
  rfl

theorem writes_cons_of_taken {disk : Disk} {content : Content}
    (taken : copier.taken? disk source relative = some content) :
    copier.writes disk source replacements? (relative :: others) =
      (Path.segmentsOf (relativeText replacements? relative),
        copier.delivered replacements? (source.join ⟨.current, relative⟩) content) ::
        copier.writes disk source replacements? others := by
  rw [writes, List.filterMap_cons, taken]
  rfl

end Cons

theorem Fits.tail {write : Place × Content} {others : List (Place × Content)}
    {files : Place → Option Content} {ways : Place → Prop} (fits : Fits (write :: others) files ways) :
    Fits others (Function.update files write.1 (some write.2))
      fun front => ways front ∨ Below write.1 front where
  clear other member front below := by
    have apart : front ≠ write.1 := fun same =>
      fits.apart other (List.mem_cons_of_mem _ member) write List.mem_cons_self (same ▸ below)
    rw [Function.update_of_ne apart]
    exact fits.clear other (List.mem_cons_of_mem _ member) front below
  vacant other member := not_or.2 ⟨fits.vacant other (List.mem_cons_of_mem _ member),
    fits.apart write List.mem_cons_self other (List.mem_cons_of_mem _ member)⟩
  apart first inside other member :=
    fits.apart first (List.mem_cons_of_mem _ inside) other (List.mem_cons_of_mem _ member)

section Each

variable {disk changed : Disk} {target source : Path} {relatives : List (List String)}

theorem not_file_of_accepts (accepts : disk.Accepts target) (content : Content) :
    disk.node? (disk.placeOf target) ≠ some (.file content.1 content.2) := by
  rcases accepts.way _ ⟨_, List.prefix_refl _, rfl⟩ with directory | ⟨absent, -⟩
  · exact fun file => nomatch directory.symm.trans file
  · exact fun file => nomatch absent.symm.trans file

theorem Stands.tail {relative : List String}
    (stands : Stands disk target source (relative :: relatives)) :
    Stands disk target source relatives :=
  ⟨stands.directory, stands.apart,
    fun other member => stands.named other (List.mem_cons_of_mem _ member),
    fun other member => stands.outside other (List.mem_cons_of_mem _ member)⟩

theorem Stands.after (stands : Stands disk target source relatives) (sound : disk.Sound)
    (altered : Altered (.into disk target) disk changed) :
    Stands changed target source relatives := by
  have there : disk.find? source = some .directory := by
    simpa [Disk.isDirectory] using stands.directory
  have kept : changed.find? source = some .directory :=
    altered.find?_eq sound (fun place way => ⟨stands.apart place way, id⟩) there
  refine ⟨by simp [Disk.isDirectory, kept], fun place way => ?_, stands.named, ?_⟩
  · rw [altered.placeOf]
    exact stands.apart place ((onWay_congr altered.current).1 way)
  · rw [altered.placeOf, altered.placeOf]
    exact stands.outside

theorem Stands.taken?_eq (stands : Stands disk target source relatives) (sound : disk.Sound)
    (altered : Altered (.into disk target) disk changed) (accepts : disk.Accepts target)
    (still : changed.Accepts target) (copier : Copier) {relative : List String}
    (member : relative ∈ relatives) :
    copier.taken? changed source relative = copier.taken? disk source relative := by
  have named := stands.named relative member
  refine Option.ext fun content => ?_
  rw [taken?_eq_some_iff, taken?_eq_some_iff, sound.find?_join_iff stands.directory named,
    altered.sound.find?_join_iff (stands.after sound altered).directory named, altered.placeOf]
  refine and_congr_right fun _ => and_congr_right fun _ => ?_
  rcases stands.outside relative member with outside | same
  · rcases altered.node (disk.placeOf source ++ relative) with
      free | kept | ⟨-, absent, directory⟩ | ⟨wrote, -, -⟩
    · exact absurd free outside
    · rw [kept]
    · rw [absent, directory]
      exact iff_of_false (fun same => nomatch same) fun same => nomatch same
    · exact wrote.elim
  · rw [same]
    refine iff_of_false ?_ (not_file_of_accepts accepts content)
    rw [← altered.placeOf target]
    exact not_file_of_accepts still content

theorem Stands.writes_eq (stands : Stands disk target source relatives) (sound : disk.Sound)
    (altered : Altered (.into disk target) disk changed) (accepts : disk.Accepts target)
    (still : changed.Accepts target) (copier : Copier) (replacements? : Option Replacements) :
    copier.writes changed source replacements? relatives =
      copier.writes disk source replacements? relatives :=
  List.filterMap_congr fun relative member => by
    rw [stands.taken?_eq sound altered accepts still copier member]

theorem Stands.outside_of_taken (stands : Stands disk target source relatives) (sound : disk.Sound)
    (accepts : disk.Accepts target) {copier : Copier} {relative : List String}
    (member : relative ∈ relatives) {content : Content}
    (taken : copier.taken? disk source relative = some content) {place : Place}
    (onWay : disk.OnWay (source.join ⟨.current, relative⟩) place) :
    ¬ disk.placeOf target <+: place := by
  have named := stands.named relative member
  have found := (taken?_eq_some_iff.1 taken).2
  have held := ((sound.find?_join_iff stands.directory named).1 found).2
  have outside : ¬ disk.placeOf target <+: disk.placeOf source ++ relative := by
    refine (stands.outside relative member).resolve_right fun same => ?_
    rw [same] at held
    exact not_file_of_accepts accepts content held
  have joined : source.join ⟨.current, relative⟩ = ⟨source.anchor, source.segments ++ relative⟩ :=
    Path.join_of_current source rfl
  rw [joined, onWay_append_iff] at onWay
  rcases onWay with way | ⟨front, starts, rfl⟩
  · exact stands.apart place way
  · rw [walk_names fun name inside => named name (starts.subset inside)]
    exact fun within => outside (within.trans ((List.prefix_append_right_inj _).2 starts))

end Each

theorem copyEach_ok {copier : Copier} {world : World} (sound : world.disk.Sound)
    {source target : Path} (target_written : target.IsWritten) {relatives : List (List String)}
    (stands : Stands world.disk target source relatives) (accepts : world.disk.Accepts target)
    {files : Place → Option Content} {ways : Place → Prop}
    (holds : world.disk.Holds (world.disk.placeOf target) files ways)
    {replacements? : Option Replacements}
    (proper : ∀ relative ∈ relatives, ∀ content,
      copier.taken? world.disk source relative = some content →
        Names (relativeText replacements? relative))
    (fits : Fits (copier.writes world.disk source replacements? relatives) files ways) :
    ∃ written reached,
      copier.copyEach target replacements? source relatives world = .ok written reached ∧
        Altered (.into world.disk target) world.disk reached.disk ∧ reached.disk.Accepts target ∧
          reached.disk.Holds (world.disk.placeOf target)
            (overlay files (copier.writes world.disk source replacements? relatives))
            fun front => ways front ∨
              ∃ write ∈ copier.writes world.disk source replacements? relatives,
                Below write.1 front := by
  induction relatives generalizing world files ways with
  | nil => exact ⟨[], world, rfl, Altered.refl sound, accepts, holds.mono fun _ => Or.inl⟩
  | cons relative others ih =>
      have others_proper := fun other member => proper other (List.mem_cons_of_mem relative member)
      cases taken : copier.taken? world.disk source relative with
      | none =>
          rw [writes_cons_of_left taken] at fits ⊢
          rw [copyEach_cons_of_left taken]
          exact ih sound stands.tail accepts holds others_proper fits
      | some content =>
          rw [writes_cons_of_taken taken] at fits ⊢
          obtain ⟨reached, ends, filled⟩ := copyOne_into sound target_written accepts holds
            (taken?_eq_some_iff.1 taken).2
            (fun place => stands.outside_of_taken sound accepts List.mem_cons_self taken)
            (proper relative List.mem_cons_self content taken) (fits.clear _ List.mem_cons_self)
            (fits.vacant _ List.mem_cons_self)
          have altered := filled.altered
          -- the copy has not touched what is still to be copied
          have same := stands.tail.writes_eq sound altered accepts filled.accepts copier replacements?
          have target_place := altered.placeOf target
          obtain ⟨written, last, last_ends, last_altered, last_accepts, last_holds⟩ :=
            ih altered.sound (stands.tail.after sound altered) filled.accepts
              (by rw [target_place]; exact filled.holds)
              (fun other member found taken => others_proper other member found
                ((stands.tail.taken?_eq sound altered accepts filled.accepts copier member).symm.trans
                  taken))
              (by rw [same]; exact fits.tail)
          rw [same, target_place] at last_holds
          rw [Allowance.into_congr altered.current] at last_altered
          refine ⟨destination target replacements? relative :: written, last,
            copyEach_cons_of_taken taken ends last_ends, altered.trans last_altered, last_accepts,
            last_holds.mono ?_⟩
          rintro front ((way | below) | ⟨write, member, below⟩)
          · exact Or.inl way
          · exact Or.inr ⟨_, List.mem_cons_self, below⟩
          · exact Or.inr ⟨write, List.mem_cons_of_mem _ member, below⟩

theorem copyTree_ok {copier : Copier} {world : World} (sound : world.disk.Sound)
    {source target : Path} (target_written : target.IsWritten)
    (stands : Stands world.disk target source (listing world.disk source))
    (accepts : world.disk.Accepts target) {files : Place → Option Content} {ways : Place → Prop}
    (holds : world.disk.Holds (world.disk.placeOf target) files ways)
    {replacements? : Option Replacements}
    (proper : ∀ relative ∈ listing world.disk source, ∀ content,
      copier.taken? world.disk source relative = some content →
        Names (relativeText (effective replacements?) relative))
    (fits : Fits (copier.writes world.disk source (effective replacements?)
      (listing world.disk source)) files ways) :
    ∃ written reached,
      copier.copyTree target [source] replacements? world = .ok written reached ∧
        Altered (.into world.disk target) world.disk reached.disk ∧ reached.disk.Accepts target ∧
          reached.disk.Holds (world.disk.placeOf target)
            (overlay files (copier.writes world.disk source (effective replacements?)
              (listing world.disk source)))
            fun front => ways front ∨ ∃ write ∈ copier.writes world.disk source
              (effective replacements?) (listing world.disk source), Below write.1 front := by
  obtain ⟨written, reached, ends, altered, still, held⟩ :=
    copyEach_ok sound target_written stands accepts holds proper fits
  have directory : copier.copyDirectory target (effective replacements?) source world =
      .ok written reached := by
    rw [copyDirectory, disk_bind, stands.directory]
    exact ends
  have sources : copier.copySources target (effective replacements?) [source] world =
      .ok (written ++ []) reached := by
    rw [copySources, bind_ok directory]
    rfl
  refine ⟨written ++ [], { reached with
    journal := reached.journal ++ [.noted (.copied (written ++ []).length target.toText)] }, ?_,
      altered, still, held⟩
  rw [copyTree, bind_ok sources]
  rfl

def takes (copier : Copier) (disk : Disk) (source : Path) (front : Place) : Option Content :=
  if copier.isIgnored front || hasNull front then none
  else disk.contentAt (disk.placeOf source ++ front)

section Takes

variable {copier : Copier} {disk : Disk} {source : Path}

theorem takes_eq_some_iff {front : Place} {content : Content} :
    copier.takes disk source front = some content ↔
      copier.isIgnored front = false ∧ hasNull front = false ∧
        disk.node? (disk.placeOf source ++ front) = some (.file content.1 content.2) := by
  rw [takes, ← contentAt_eq_some_iff]
  cases copier.isIgnored front <;> cases hasNull front <;> simp

variable (sound : disk.Sound) (directory : disk.isDirectory source = true)

include sound directory

theorem mem_listing_of_takes {front : Place} {content : Content}
    (takes : copier.takes disk source front = some content) : front ∈ listing disk source := by
  obtain ⟨-, -, held⟩ := takes_eq_some_iff.1 takes
  refine (mem_listing_iff sound directory).2 ⟨?_, by simp [held]⟩
  rintro rfl
  rw [List.append_nil, (sound.isDirectory_iff.1 directory).2.2.2] at held
  cases held

theorem taken?_eq_takes {relative : List String} (listed : relative ∈ listing disk source) :
    copier.taken? disk source relative = copier.takes disk source relative := by
  refine Option.ext fun content => ?_
  rw [taken?_eq_some_iff, takes_eq_some_iff,
    sound.find?_join_iff directory fun _ member => isName_of_mem_listing sound listed member]

theorem mem_writes_iff {replacements? : Option Replacements} {write : Place × Content} :
    write ∈ copier.writes disk source replacements? (listing disk source) ↔
      ∃ relative content, copier.takes disk source relative = some content ∧
        write = (Path.segmentsOf (relativeText replacements? relative),
          copier.delivered replacements? (source.join ⟨.current, relative⟩) content) := by
  rw [writes, List.mem_filterMap]
  constructor
  · rintro ⟨relative, listed, written⟩
    rw [taken?_eq_takes sound directory listed] at written
    obtain ⟨content, takes, rfl⟩ := Option.map_eq_some_iff.1 written
    exact ⟨relative, content, takes, rfl⟩
  · rintro ⟨relative, content, takes, rfl⟩
    have listed := mem_listing_of_takes sound directory takes
    refine ⟨relative, listed, ?_⟩
    rw [taken?_eq_takes sound directory listed, takes]
    rfl

theorem segmentsOf_of_takes {front : Place} {content : Content}
    (takes : copier.takes disk source front = some content) :
    Path.segmentsOf (relativeText none front) = front :=
  Path.segmentsOf_intercalate fun _ member =>
    (isName_of_mem_listing sound (mem_listing_of_takes sound directory takes) member).1

theorem takes_of_mem_writes {write : Place × Content}
    (member : write ∈ copier.writes disk source none (listing disk source)) :
    copier.takes disk source write.1 = some write.2 := by
  obtain ⟨relative, content, takes, rfl⟩ := (mem_writes_iff sound directory).1 member
  rwa [segmentsOf_of_takes sound directory takes]

theorem overlay_writes_none :
    overlay (fun _ => none) (copier.writes disk source none (listing disk source)) =
      copier.takes disk source := by
  funext front
  cases takes : copier.takes disk source front with
  | none =>
      refine overlay_other (fun write member same => ?_) _
      rw [← same, takes_of_mem_writes sound directory member] at takes
      cases takes
  | some content =>
      refine overlay_of_mem ((mem_writes_iff sound directory).2 ⟨front, content, takes, ?_⟩)
        (fun write member same => ?_) _
      · rw [segmentsOf_of_takes sound directory takes]
        rfl
      · have value := takes_of_mem_writes sound directory member
        rw [same, takes] at value
        exact (Option.some.inj value).symm

end Takes

theorem copyTree_none_ok (copier : Copier) {world : World} (sound : world.disk.Sound)
    {source target : Path} (target_written : target.IsWritten)
    (stands : Stands world.disk target source (listing world.disk source))
    (accepts : world.disk.Accepts target)
    (holds : world.disk.Holds (world.disk.placeOf target) (fun _ => none) fun _ => False) :
    ∃ written reached,
      copier.copyTree target [source] none world = .ok written reached ∧
        Altered (.into world.disk target) world.disk reached.disk ∧ reached.disk.Accepts target ∧
          reached.disk.Holds (world.disk.placeOf target) (copier.takes world.disk source)
            fun front => ∃ file, copier.takes world.disk source file ≠ none ∧ Below file front := by
  have directory := stands.directory
  have written : ∀ {write : Place × Content},
      write ∈ copier.writes world.disk source none (listing world.disk source) →
        copier.takes world.disk source write.1 = some write.2 :=
    takes_of_mem_writes sound directory
  have proper : ∀ relative ∈ listing world.disk source, ∀ content,
      copier.taken? world.disk source relative = some content →
        Names (relativeText (effective none) relative) := by
    intro relative listed content taken
    rw [taken?_eq_takes sound directory listed] at taken
    have segments := segmentsOf_of_takes sound directory taken
    refine ⟨Path.inner_intercalate fun _ member => isName_of_mem_listing sound listed member, ?_, ?_⟩
    · exact fun empty => ((mem_listing_iff sound directory).1 listed).1 (segments.symm.trans empty)
    · exact (congrArg hasNull segments).trans (takes_eq_some_iff.1 taken).2.1
  have fits : Fits (copier.writes world.disk source (effective none) (listing world.disk source))
      (fun _ => none) fun _ => False := by
    refine ⟨fun _ _ _ _ => rfl, fun _ _ => id, fun write member other inside below => ?_⟩
    have held := (takes_eq_some_iff.1 (written member)).2.2
    have file := (takes_eq_some_iff.1 (written inside)).2.2
    exact sound.not_below (world.disk.placeOf source) (by simp [file]) (by simp [held]) below
  obtain ⟨copied, reached, ends, altered, still, held⟩ :=
    copyTree_ok sound target_written stands accepts holds proper fits
  refine ⟨copied, reached, ends, altered, still, ?_⟩
  change reached.disk.Holds _ (overlay _ (copier.writes world.disk source none _)) _ at held
  rw [overlay_writes_none sound directory] at held
  refine held.mono ?_
  rintro front (none | ⟨write, member, below⟩)
  · exact none.elim
  · exact ⟨write.1, by simp [written member], below⟩

end Archetype.Copier
