import Archetype.Proofs.CleanNames
import Archetype.Proofs.Containment
import Archetype.Proofs.HookCalls
import Archetype.Proofs.Phases

/-!
# The conduct of actions

What an action may put on record, and in which failures it may end (`Action.Observes`). Work on the
disk records nothing and fails for a file or a path that no disk can hold; copying records notes and
writes, and fails in a fault of transforms or for such a path; looking for a template records what
it notes and what it asks, and what its resolver does.
-/

namespace Archetype

/-- The events that may be put on record, and the failures that may come. -/
structure Conduct where
  logs : Event → Prop
  fails : Failure → Prop

def Conduct.orFile (conduct : Conduct) : Conduct where
  logs := conduct.logs
  fails failure := (∃ error, failure = .file error) ∨ conduct.fails failure

/-- Something is clean, or the conduct allows for the failure of what is not. -/
def Conduct.Bears (conduct : Conduct) (clean : Prop) : Prop :=
  clean ∨ conduct.fails .nullCharacter

theorem Conduct.Bears.mono {conduct : Conduct} {clean other : Prop} (bears : conduct.Bears clean)
    (implies : clean → other) : conduct.Bears other :=
  bears.imp_left implies

theorem Conduct.Bears.and {conduct : Conduct} {clean other : Prop} (bears : conduct.Bears clean)
    (others : conduct.Bears other) : conduct.Bears (clean ∧ other) :=
  bears.elim (fun first => others.mono fun second => ⟨first, second⟩) Or.inr

theorem Conduct.Bears.refused {conduct : Conduct} {α : Type}
    (bears : conduct.Bears (Disk.Coded (.error .nullCharacter : Except Refusal α))) :
    conduct.fails .nullCharacter :=
  bears.elim nofun id

namespace Action

variable {α β : Type} {conduct : Conduct}

def Fails (allowed : Failure → Prop) (work : Action α) : Prop :=
  ∀ ⦃world failure reached⦄, work world = .error failure reached → allowed failure

theorem fails_bind {allowed : Failure → Prop} {work : Action α} {next : α → Action β}
    (first : work.Fails allowed) (rest : ∀ value, (next value).Fails allowed) :
    (work >>= next).Fails allowed := by
  intro world failure reached ends
  cases works : work world with
  | error found between =>
      rw [bind_error works] at ends
      cases ends
      exact first works
  | ok value between =>
      rw [bind_ok works] at ends
      exact rest value ends

theorem fails_pure {allowed : Failure → Prop} (value : α) :
    (pure value : Action α).Fails allowed := by
  rintro _ _ _ ⟨⟩

theorem composes_fails (allowed : Failure → Prop) : Composes fun work => work.Fails allowed :=
  ⟨fails_pure, fails_bind⟩

theorem fails_record {allowed : Failure → Prop} (event : Event) : (record event).Fails allowed := by
  rintro _ _ _ ⟨⟩

structure Observes (conduct : Conduct) (work : Action α) : Prop where
  log : ∀ world, ∃ events, (work.after world).journal = world.journal ++ events ∧
    ∀ event ∈ events, conduct.logs event
  failure : work.Fails conduct.fails

theorem Observes.mono {work : Action α} {wider : Conduct} (observes : work.Observes conduct)
    (logs : ∀ event, conduct.logs event → wider.logs event)
    (fails : ∀ failure, conduct.fails failure → wider.fails failure) : work.Observes wider where
  log world := by
    obtain ⟨events, logged, kind⟩ := observes.log world
    exact ⟨events, logged, fun event member => logs event (kind event member)⟩
  failure _ _ _ ends := fails _ (observes.failure ends)

theorem observes_bind {work : Action α} {next : α → Action β} (first : work.Observes conduct)
    (rest : ∀ value, (next value).Observes conduct) : (work >>= next).Observes conduct where
  log world := by
    obtain ⟨events, logged, kind⟩ := first.log world
    rw [after_bind]
    unfold after at logged
    cases works : work world with
    | error failure between =>
        rw [works] at logged
        exact ⟨events, logged, kind⟩
    | ok value between =>
        rw [works] at logged
        obtain ⟨later, logged_later, kind_later⟩ := (rest value).log between
        refine ⟨events ++ later, ?_, fun event member => ?_⟩
        · exact logged_later.trans (by rw [logged, List.append_assoc])
        · exact (List.mem_append.1 member).elim (kind event) (kind_later event)
  failure := fails_bind first.failure fun value => (rest value).failure

theorem observes_of_silent {work : Action α}
    (silent : ∀ world, (work.after world).journal = world.journal)
    (failure : work.Fails conduct.fails) : work.Observes conduct where
  log world := ⟨[], (silent world).trans (List.append_nil _).symm, List.forall_mem_nil _⟩
  failure := failure

theorem observes_pure (value : α) : (pure value : Action α).Observes conduct :=
  observes_of_silent (fun _ => rfl) (fails_pure value)

theorem composes_observes : Composes fun work => work.Observes conduct :=
  ⟨observes_pure, observes_bind⟩

theorem observes_throw {failure : Failure} (permitted : conduct.fails failure) :
    (throw failure : Action α).Observes conduct := by
  refine observes_of_silent (fun _ => rfl) ?_
  rintro world _ reached ⟨⟩
  exact permitted

theorem observes_record {event : Event} (permitted : conduct.logs event) :
    (record event).Observes conduct where
  log _ := ⟨[event], rfl, by simpa using permitted⟩
  failure := fails_record event

theorem observes_disk : disk.Observes conduct := by
  refine observes_of_silent (fun _ => rfl) ?_
  rintro _ _ _ ⟨⟩

theorem observes_setDisk (changed : Disk) : (setDisk changed).Observes conduct := by
  refine observes_of_silent (fun _ => rfl) ?_
  rintro _ _ _ ⟨⟩

theorem observes_ofExcept {result : Except Failure α}
    (permitted : ∀ failure, result = .error failure → conduct.fails failure) :
    (ofExcept result).Observes conduct := by
  cases result with
  | ok value => exact observes_pure value
  | error failure => exact observes_throw (permitted failure rfl)

theorem observes_ofFault {result : Except Fault α}
    (permitted : ∀ fault, result = .error fault → conduct.fails (.fault fault)) :
    (ofFault result).Observes conduct := by
  cases result with
  | ok value => exact observes_pure value
  | error fault => exact observes_throw (permitted fault rfl)

theorem explaining_fails {explain : FileError → Failure} {work : Action α} {failure : Failure}
    {world reached : World} (ends : work world = .error failure reached)
    (permitted : conduct.orFile.fails failure)
    (explained : ∀ error, conduct.fails (explain error)) :
    ∃ reported, explaining explain work world = .error reported reached ∧
      conduct.fails reported := by
  unfold explaining
  rw [ends]
  rcases permitted with ⟨error, rfl⟩ | permitted
  · exact ⟨_, rfl, explained error⟩
  · cases failure with
    | file error => exact ⟨_, rfl, explained error⟩
    | _ => exact ⟨_, rfl, permitted⟩

theorem observes_explaining {explain : FileError → Failure} {work : Action α}
    (observes : work.Observes conduct.orFile)
    (explained : ∀ error, conduct.fails (explain error)) :
    (explaining explain work).Observes conduct where
  log world := by
    have same : (explaining explain work).after world = work.after world := by
      unfold after explaining
      cases work world with
      | ok value reached => rfl
      | error failure reached => cases failure <;> rfl
    rw [same]
    exact observes.log world
  failure {world failure reached} ends := by
    cases works : work world with
    | ok value between =>
        unfold explaining at ends
        rw [works] at ends
        cases ends
    | error found between =>
        obtain ⟨reported, same, permitted⟩ :=
          explaining_fails works (observes.failure works) explained
        rw [same] at ends
        cases ends
        exact permitted

/-! ## Work on the disk -/

section Disk

variable (onFile : ∀ error, conduct.fails (.file error))

include onFile

theorem observes_refusal (shown : String) {refused : Refusal}
    (bears : conduct.Bears (Disk.Coded (.error refused : Except Refusal β))) :
    (throw (refusal shown refused) : Action α).Observes conduct := by
  cases refused with
  | code code => exact observes_throw (onFile _)
  | nullCharacter => exact observes_throw bears.refused

theorem observes_granted (shown : String) {result : Except Refusal α}
    (bears : conduct.Bears (Disk.Coded result)) : (granted shown result).Observes conduct := by
  cases result with
  | ok value => exact observes_pure value
  | error refused => exact observes_refusal onFile shown bears

theorem observes_withStaging (onNull : conduct.fails .nullCharacter) {work : Path → Action α}
    (observes : ∀ path, (work path).Observes conduct) : (withStaging work).Observes conduct where
  log world := by
    unfold after withStaging
    simp only
    cases world.disk.makeDirectory (Path.fromRoot (stagingPlace world.disk)) with
    | error refused => exact ⟨[], (List.append_nil _).symm, List.forall_mem_nil _⟩
    | ok disk =>
        obtain ⟨events, logged, kind⟩ :=
          (observes (Path.fromRoot (stagingPlace world.disk))).log { world with disk }
        unfold after at logged
        simp only
        generalize work (Path.fromRoot (stagingPlace world.disk)) { world with disk } = ending
          at logged ⊢
        cases ending <;> exact ⟨events, logged, kind⟩
  failure {world failure reached} ends := by
    unfold withStaging at ends
    simp only at ends
    split at ends
    · rename_i refused made
      cases ends
      cases refused with
      | code code => exact onFile _
      | nullCharacter => exact onNull
    · split at ends
      · cases ends
      · rename_i works
        cases ends
        exact (observes _).failure works

theorem observes_readFile {name : FileName} (bears : conduct.Bears name.Clean) :
    (readFile name).Observes conduct :=
  observes_bind observes_disk fun disk => observes_granted onFile _ (bears.mono disk.coded_read)

theorem observes_writeFile {name : FileName} (bears : conduct.Bears name.Clean)
    (content : ByteArray) (executable : Bool) :
    (writeFile name content executable).Observes conduct :=
  observes_bind observes_disk fun disk =>
    observes_bind (observes_granted onFile _ (bears.mono fun clean =>
      disk.coded_write clean content executable)) observes_setDisk

theorem observes_makeDirectory {path : Path} (bears : conduct.Bears path.Clean) :
    (makeDirectory path).Observes conduct := by
  refine observes_bind observes_disk fun disk => ?_
  have coded := bears.mono disk.coded_makeDirectory
  generalize disk.makeDirectory path = result at coded ⊢
  cases result with
  | ok changed => exact observes_setDisk changed
  | error refused =>
      simp only
      split
      · exact observes_refusal onFile _ coded
      · exact observes_pure ()

theorem observes_makeDirectories {path : Path} (bears : conduct.Bears path.Clean) :
    (makeDirectories path).Observes conduct := by
  have starts : ∀ segments, segments <+: path.segments →
      conduct.Bears (Path.Clean ⟨path.anchor, segments⟩) := fun segments starts =>
    bears.mono fun clean => Disk.hasNull_of_subset starts.subset clean
  unfold makeDirectories
  rw [← List.reverse_reverse path.segments] at starts
  generalize path.segments.reverse = segments at starts ⊢
  induction segments with
  | nil => exact observes_makeDirectory onFile (starts [] List.nil_prefix)
  | cons last before ih =>
      have here := observes_makeDirectory onFile (starts _ (List.prefix_refl _))
      refine observes_bind observes_disk fun disk => ?_
      split
      · refine observes_bind (ih fun segments above => starts segments (above.trans ?_)) fun _ => here
        rw [List.reverse_cons]
        exact List.prefix_append _ _
      · exact here

omit onFile in
theorem observes_isSameFile {source destination : FileName}
    (source_bears : conduct.Bears source.Clean) (bears : conduct.Bears destination.Clean) :
    (isSameFile source destination).Observes conduct := by
  refine observes_bind observes_disk fun disk => ?_
  have source_coded := source_bears.mono disk.coded_existing
  have coded := bears.mono disk.coded_existing
  split
  · rename_i refused
    rw [refused] at source_coded
    exact observes_throw source_coded.refused
  · exact observes_pure false
  · split
    · rename_i refused
      rw [refused] at coded
      exact observes_throw coded.refused
    · exact observes_pure false
    · exact observes_pure _

theorem observes_copyFile {source : FileName} {target : Path}
    (source_bears : conduct.Bears source.Clean) (bears : conduct.Bears target.Clean) :
    (copyFile source target).Observes conduct := by
  refine observes_bind observes_disk fun disk => ?_
  have destination_bears : conduct.Bears (if disk.isDirectory target then
      (FileName.path target).inside source.base else .path target).Clean := by
    refine (source_bears.and bears).mono fun ⟨source_clean, clean⟩ => ?_
    split
    · exact FileName.Clean.inside_base clean source_clean
    · exact clean
  refine observes_bind (observes_isSameFile source_bears destination_bears) fun same => ?_
  cases same with
  | true => exact observes_throw (onFile _)
  | false =>
      exact observes_bind (observes_readFile onFile source_bears) fun read =>
        observes_writeFile onFile destination_bears _ _

theorem observes_remove {path : Path} (bears : conduct.Bears path.Clean) :
    (remove path).Observes conduct := by
  refine observes_bind observes_disk fun disk => ?_
  split
  · refine observes_bind (observes_granted onFile _ (bears.mono disk.coded_removeTree))
      fun removed => ?_
    refine observes_bind (observes_setDisk _) fun _ => ?_
    cases removed.2 with
    | none => exact observes_pure ()
    | some code => exact observes_throw (onFile _)
  · have coded := bears.mono disk.coded_removeFile
    split
    · exact observes_setDisk _
    · exact observes_pure ()
    · rename_i refused
      rw [refused] at coded
      exact observes_refusal onFile _ coded

end Disk

end Action

/-! ## Copying -/

inductive Event.OfCopying : Event → Prop
  | noted (note : Note) : OfCopying (.noted note)
  | wrote (path : Path) : OfCopying (.wrote path)

structure Conduct.Copies (conduct : Conduct) : Prop where
  logs : ∀ event : Event, event.OfCopying → conduct.logs event
  file : ∀ error, conduct.fails (.file error)

namespace Copier

open Archetype.Action (observes_bind observes_pure observes_disk observes_record)

variable (copier : Copier) {conduct : Conduct} (copies : conduct.Copies)

include copies

theorem observes_copyRendered (replacements : Replacements) {source target : Path}
    (source_bears : conduct.Bears source.Clean) (bears : conduct.Bears target.Clean) :
    (copier.copyRendered replacements source target).Observes conduct := by
  have target_bears : conduct.Bears (FileName.path target).Clean := bears
  have copied : (Action.copyFile (.path source) target).Observes conduct :=
    Action.observes_copyFile copies.file source_bears bears
  unfold copyRendered
  split
  · exact copied
  · refine observes_bind (Action.observes_readFile copies.file source_bears)
      fun (content, executable) => ?_
    simp only
    split
    · exact Action.observes_writeFile copies.file target_bears _ _
    · exact copied

theorem observes_copyOne {target source : Path} {replacements? : Option Replacements}
    {relative : List String}
    (source_bears : conduct.Bears (source.join ⟨.current, relative⟩).Clean)
    (bears : conduct.Bears (destination target replacements? relative).Clean) :
    (copier.copyOne target replacements? source relative).Observes conduct := by
  have wrote (path : Path) : (do
      Action.record (.wrote path)
      return path : Action Path).Observes conduct :=
    observes_bind (observes_record (copies.logs _ (.wrote path))) fun _ => observes_pure path
  refine observes_bind (Action.observes_makeDirectories copies.file
    (bears.mono Path.Clean.parent)) fun _ => ?_
  cases replacements? with
  | none =>
      exact observes_bind (Action.observes_copyFile copies.file source_bears bears) fun _ => wrote _
  | some replacements =>
      exact observes_bind (copier.observes_copyRendered copies replacements source_bears bears)
        fun _ => wrote _

theorem observes_copyEach {target : Path} {replacements? : Option Replacements}
    (bears : ∀ relative, Disk.hasNull relative = false →
      conduct.Bears (destination target replacements? relative).Clean) (source : Path)
    (relatives : List (List String)) :
    (copier.copyEach target replacements? source relatives).Observes conduct := by
  induction relatives with
  | nil => exact observes_pure []
  | cons relative others ih =>
      refine observes_bind observes_disk fun disk => ?_
      split
      · rename_i taken
        obtain ⟨_, _, found⟩ := Disk.isFile_iff.1 (Bool.and_eq_true_iff.1 taken).1
        have clean := Disk.clean_of_find? found
        exact observes_bind (copier.observes_copyOne copies (Or.inl clean)
          (bears relative clean.of_join)) fun written => observes_bind ih fun _ => observes_pure _
      · exact ih

theorem observes_copyTree {target : Path} {replacements? : Option Replacements}
    (bears : ∀ relative, Disk.hasNull relative = false →
      conduct.Bears (destination target (effective replacements?) relative).Clean)
    (sources : List Path) : (copier.copyTree target sources replacements?).Observes conduct := by
  refine observes_bind ?_ fun written =>
    observes_bind (observes_record (copies.logs _ (.noted _))) fun _ => observes_pure _
  induction sources with
  | nil => exact observes_pure []
  | cons source sources ih =>
      refine observes_bind ?_ fun written => observes_bind ih fun _ => observes_pure _
      refine observes_bind observes_disk fun disk => ?_
      split
      · exact observes_bind (Action.observes_throw (copies.file _)) fun _ =>
          copier.observes_copyEach copies bears _ _
      · exact copier.observes_copyEach copies bears _ _

theorem observes_copyFile {source : FileName} {target : Path}
    (source_bears : conduct.Bears source.Clean) (bears : conduct.Bears target.Clean) :
    (Copier.copyFile source target).Observes conduct :=
  observes_bind (Action.observes_makeDirectories copies.file (bears.mono Path.Clean.parent))
    fun _ => observes_bind (Action.observes_copyFile copies.file source_bears bears) fun _ =>
      observes_pure target

omit copies in
theorem clean_destination {target : Path} (clean : target.Clean) {relative : List String}
    (relative_clean : Disk.hasNull relative = false) : (destination target none relative).Clean :=
  Path.clean_div clean (Disk.hasNull_segmentsOf (Path.not_mem_intercalate relative_clean))

end Copier

namespace Template

open Archetype.Action (observes_bind observes_pure observes_disk observes_record)

inductive CopyFailure : Failure → Prop
  | fault {fault : Fault} (stage : fault.cause.stage = .transform) : CopyFailure (.fault fault)
  | nullCharacter : CopyFailure .nullCharacter

def copying : Conduct where
  logs := Event.OfCopying
  fails := CopyFailure

theorem copies_copying : copying.orFile.Copies where
  logs _ kind := kind
  file error := Or.inl ⟨error, rfl⟩

theorem bears_copying (clean : Prop) : copying.orFile.Bears clean :=
  Or.inr (Or.inr .nullCharacter)

variable (copier : Copier)

namespace Entry

section Stage

variable {conduct : Conduct} (copies : conduct.Copies) {entry : Entry}
  (missing : ∀ path, conduct.fails (.of (.noFile path) (some entry.label))) {copied source : Path}
  (bears : conduct.Bears copied.Clean) (source_bears : conduct.Bears source.Clean)
  {replacements : Replacements}

include copies missing bears source_bears

theorem observes_rename {files : List (String × String)}
    (listed : ∀ pair ∈ files, conduct.Bears (Disk.hasNull (Path.segmentsOf pair.1) = false))
    (renamed : ∀ pair ∈ files,
      conduct.Bears (Disk.hasNull (Path.segmentsOf (replacements.apply pair.2)) = false)) :
    (rename copied source entry.label replacements files).Observes conduct := by
  have led {base : Path} {text : String} (base_bears : conduct.Bears base.Clean)
      (text_bears : conduct.Bears (Disk.hasNull (Path.segmentsOf text) = false)) :
      conduct.Bears (base / text).Clean :=
    (base_bears.and text_bears).mono fun ⟨base_clean, clean⟩ => Path.clean_div base_clean clean
  induction files with
  | nil => exact observes_pure ()
  | cons pair others ih =>
      obtain ⟨file_bears, others_listed⟩ := List.forall_mem_cons.1 listed
      obtain ⟨renamed_bears, others_renamed⟩ := List.forall_mem_cons.1 renamed
      refine observes_bind observes_disk fun disk => ?_
      have moves : (do
          Action.note (.moving pair.1 (replacements.apply pair.2))
          Action.remove (copied / pair.1)
          let _ ← Copier.copyFile (.path (source / pair.1))
            (copied / replacements.apply pair.2)
          rename copied source entry.label replacements others : Action Unit).Observes conduct :=
        observes_bind (observes_record (copies.logs _ (.noted _))) fun _ =>
          observes_bind (Action.observes_remove copies.file (led bears file_bears)) fun _ =>
            observes_bind (Copier.observes_copyFile copies (led source_bears file_bears)
              (led bears renamed_bears)) fun _ => ih others_listed others_renamed
      split
      · exact observes_bind (Action.observes_throw (missing _)) fun _ => moves
      · exact moves

theorem observes_stage
    (listed : ∀ pair ∈ entry.files.entries,
      conduct.Bears (Disk.hasNull (Path.segmentsOf pair.1) = false))
    (renamed : ∀ pair ∈ entry.files.entries,
      conduct.Bears (Disk.hasNull (Path.segmentsOf (replacements.apply pair.2)) = false)) :
    (entry.stage copier source copied replacements).Observes conduct := by
  have renames : (rename copied source entry.label replacements entry.files.entries).Observes
      conduct :=
    observes_rename copies missing bears source_bears listed renamed
  unfold stage
  split
  · refine observes_bind (copier.observes_copyTree copies (fun relative clean => ?_) _) fun _ =>
      renames
    exact bears.mono fun copied_clean => Copier.clean_destination copied_clean clean
  · exact renames

end Stage

theorem observes_copy (entry : Entry) (template target : Path) (replacements : Replacements) :
    (entry.copy copier template target replacements).Observes copying := by
  have trees (target : Path) (sources : List Path) (replacements? : Option Replacements) :
      (copier.copyTree target sources replacements?).Observes copying.orFile :=
    copier.observes_copyTree copies_copying (fun _ _ => bears_copying _) sources
  have copies : (Action.explaining
      (fun error => .of (.notCopied (template / entry.source).toText error) (some entry.label))
      (if entry.files.isEmpty then entry.copyNamed copier (template / entry.source) target
        replacements
      else entry.copyRenamed copier (template / entry.source) target replacements)).Observes
        copying := by
    refine Action.observes_explaining ?_ fun error => .fault rfl
    split
    · unfold copyNamed
      split
      · exact observes_bind (observes_record (.noted _)) fun _ => observes_pure []
      · exact observes_bind (observes_record (.noted _)) fun _ => trees _ _ _
    · rw [copyRenamed_eq]
      refine Action.observes_withStaging copies_copying.file (Or.inr .nullCharacter)
        fun staging => observes_bind ?_ fun _ => trees _ _ _
      exact observes_stage copier copies_copying (fun _ => Or.inr (.fault rfl)) (bears_copying _)
        (bears_copying _) (fun _ _ => bears_copying _) fun _ _ => bears_copying _
  refine observes_bind observes_disk fun disk => ?_
  cases disk.isDirectory (template / entry.source) with
  | true => exact copies
  | false => exact observes_bind (Action.observes_throw (.fault rfl)) fun _ => copies

end Entry

theorem Entry.observes_copyAll (template target : Path) (replacements : Replacements)
    (entries : List Entry) :
    (copyAll copier template target replacements entries).Observes copying := by
  induction entries with
  | nil => exact observes_pure []
  | cons entry entries ih =>
      exact observes_bind (observes_record (.noted _)) fun _ =>
        observes_bind (entry.observes_copy copier template target replacements) fun _ =>
          observes_bind ih fun _ => observes_pure _

theorem Descriptor.observes_copyFiles (descriptor : Descriptor) (template target : Path)
    (replacements : Replacements) :
    (descriptor.copyFiles copier template target replacements).Observes copying :=
  observes_bind observes_disk fun _ => Entry.observes_copyAll copier template target replacements _

theorem Descriptor.observes_load {conduct : Conduct} (fails : ∀ failure, conduct.fails failure)
    (path : Path) : (Descriptor.load path).Observes conduct := by
  refine observes_bind (Action.observes_explaining ?_ fun _ => fails _) fun read =>
    Action.observes_ofExcept fun failure _ => fails failure
  exact Action.observes_readFile (fun error => Or.inr (fails _)) (Or.inr (Or.inr (fails _)))

end Template

/-! ## Looking for a template -/

structure Conduct.Searches (conduct : Conduct) : Prop where
  notes : ∀ note, conduct.logs (.noted note)
  asks : ∀ question, conduct.logs (.asked question)
  faults : ∀ fault, conduct.fails (.fault fault)

structure Git.Resolver.Observes (resolver : Git.Resolver) (conduct : Conduct) : Prop where
  address : ∀ name, (resolver.address? name).Observes conduct
  commit : ∀ address reference?, (resolver.commit? address reference?).Observes conduct
  checkOut : ∀ address name commit, (resolver.checkOut address name commit).Observes conduct.orFile

section

open Archetype.Action (observes_bind observes_pure observes_disk observes_record)

variable {conduct : Conduct} (searches : conduct.Searches)

include searches

theorem Git.Resolver.Observes.findCommit {resolver : Git.Resolver}
    (observes : resolver.Observes conduct) (name address : String) (reference? : Option String) :
    (resolver.findCommit name address reference?).Observes conduct := by
  have asks (reference? : Option String) :
      (resolver.askCommit address reference?).Observes conduct :=
    observes_bind (observes_record (searches.asks _)) fun _ => observes.commit address reference?
  exact Action.composes_observes.findCommit asks
    (fun _ => observes_record (searches.notes _)) fun _ => Action.observes_throw (searches.faults _)

theorem Git.Resolver.Observes.checkOut? {resolver : Git.Resolver}
    (observes : resolver.Observes conduct) (name : String) (reference? : Option String) :
    (resolver.checkOut? name reference?).Observes conduct := by
  refine Action.composes_observes.checkOut?
    (observes_bind (observes_record (searches.asks _)) fun _ => observes.address name)
    (observes_record (searches.notes _))
    (fun address => observes.findCommit searches name address reference?) fun address commit => ?_
  refine Action.observes_explaining ?_ fun error => searches.faults _
  exact observes_bind (observes_record (searches.asks _)) fun _ =>
    observes.checkOut address name commit

theorem Template.observes_locate (resources : List Path) (roots : List FileName)
    (template : String) : (Template.locate resources roots template).Observes conduct := by
  refine observes_bind observes_disk fun disk => ?_
  split
  · exact observes_bind (observes_record (searches.notes _)) fun _ => observes_pure _
  · exact Action.observes_throw (searches.faults _)

theorem Project.Generator.observes_find {generator : Project.Generator}
    (observes : generator.resolver.Observes conduct) (options : Data) :
    (generator.find options).Observes conduct := by
  refine observes_bind ?_ fun prepared =>
    observes_bind (Template.observes_locate searches _ _ _) fun location => observes_pure _
  unfold Project.prepare
  split
  · refine observes_bind (Action.observes_ofFault fun fault _ => searches.faults fault)
      fun identity => ?_
    refine observes_bind (Action.observes_ofFault fun fault _ => searches.faults fault)
      fun template => ?_
    exact observes_bind (observes.checkOut? searches _ _) fun checkout? => observes_pure _
  · exact Action.observes_throw (searches.faults _)

end

end Archetype
