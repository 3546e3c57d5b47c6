import Archetype.Proofs.Phases
import Archetype.Proofs.Precedence

/-!
# The course of a generation

Once its descriptor is read, a generation passes through four phases: the data are extended, the
descriptor is replaced, the files are copied, and the last hook is called. What each phase works on
is settled by the phases before it. A `Schedule` gathers what is settled, `Generator.Reaches` tells
in which world a phase begins, and `Generator.Ends` in which phase and how a generation ends.

* `Generator.generate_eq_iff`: a generation fails while its descriptor is read, or else it ends in
  one of the phases, as that phase does.
-/

namespace Archetype

namespace Hook

variable {registry : Registry} {descriptor replacement : Template.Descriptor} {data added : Data}
  {world reached : World}

theorem extendData_of_adds (adds : Adds registry descriptor data world added reached) :
    extendData registry descriptor data world = .ok (data.union added) reached := by
  unfold extendData
  cases adds with
  | unnamed unnamed =>
      rw [unnamed]
      rfl
  | nothing named answers =>
      rw [named]
      exact Action.bind_ok answers _
  | map named answers =>
      rw [named]
      exact Action.bind_ok answers _

theorem replaceDescriptor_of_replaces
    (replaces : Replaces registry descriptor data world replacement reached) :
    replaceDescriptor registry descriptor data world = .ok replacement reached := by
  unfold replaceDescriptor
  cases replaces with
  | unnamed unnamed =>
      rw [unnamed]
      rfl
  | descriptor named answers =>
      rw [named]
      exact Action.bind_ok answers _
  | map named answers shaped =>
      rw [named]
      refine (Action.bind_ok answers _).trans ?_
      exact Action.ofExcept_eq_ok_iff.2 ⟨ofReplacement_eq_ok_iff.2 shaped, rfl⟩

end Hook

namespace Template.Entry

def apply (copier : Copier) (template target : Path) (replacements : Replacements)
    (entry : Entry) : Action (List Path) := do
  Action.note (.applying entry.label)
  entry.copy copier template target replacements

inductive AllCopied (copier : Copier) (template target : Path) (replacements : Replacements) :
    List Entry → World → List Path → World → Prop
  | nil (world : World) : AllCopied copier template target replacements [] world [] world
  | cons {entry : Entry} {entries : List Entry} {world between reached : World}
      {first others : List Path}
      (copies : entry.apply copier template target replacements world = .ok first between)
      (rest : AllCopied copier template target replacements entries between others reached) :
      AllCopied copier template target replacements (entry :: entries) world (first ++ others)
        reached

variable {copier : Copier} {template target : Path} {replacements : Replacements}

theorem copyAll_cons (entry : Entry) (entries : List Entry) :
    copyAll copier template target replacements (entry :: entries) = (do
      let first ← entry.apply copier template target replacements
      let others ← copyAll copier template target replacements entries
      return first ++ others) := by
  simp only [copyAll, apply, bind_assoc]

theorem copyAll_eq_ok_iff {entries : List Entry} {world reached : World} {written : List Path} :
    copyAll copier template target replacements entries world = .ok written reached ↔
      AllCopied copier template target replacements entries world written reached := by
  induction entries generalizing world written with
  | nil =>
      constructor
      · rintro ⟨⟩
        exact .nil _
      · rintro ⟨⟩
        rfl
  | cons entry entries ih =>
      rw [copyAll_cons]
      constructor
      · intro ends
        obtain ⟨first, between, copies, ends⟩ := Action.bind_eq_ok_iff.1 ends
        obtain ⟨others, last, rest, ends⟩ := Action.bind_eq_ok_iff.1 ends
        cases ends
        exact .cons copies (ih.1 rest)
      · rintro (_ | ⟨copies, rest⟩)
        exact (Action.bind_ok copies _).trans (Action.bind_ok (ih.2 rest) _)

end Template.Entry

namespace Project

open Archetype.Template (Descriptor Entry)
open Archetype.Hook (Adds Replaces)

inductive Phase
  | extending
  | replacing
  | copying
  | finishing
deriving DecidableEq, Repr

/-- What is settled in the course of a generation. -/
structure Schedule where
  prepared : Prepared
  location : Template.Location
  loaded : Descriptor
  added : Data
  final : Descriptor
  target : Path
  written : List Path

namespace Schedule

variable (schedule : Schedule)

def seen : Data :=
  Hook.context schedule.location.directory.toText schedule.prepared.data

def extended : Data :=
  schedule.seen.union schedule.added

def data : Data :=
  Hook.finalData schedule.final schedule.extended

def draft : Draft where
  prepared := schedule.prepared
  location := schedule.location
  data := schedule.data
  descriptor := schedule.final

def result (postFault? : Option Fault) : Result where
  target := schedule.target
  template := schedule.location.directory
  data := schedule.data
  descriptor := schedule.final
  written := schedule.written
  postFault?

/-- What the descriptor names that counts for a hook: the one that is read for the first two, the
final one for the last. -/
@[simp] def hook? : HookRole → Option String
  | .data => schedule.loaded.dataHook?
  | .template => schedule.loaded.templateHook?
  | .post => schedule.final.postHook?

@[simp] def arguments : HookRole → List Argument
  | .data => [.data schedule.seen]
  | .template => [.descriptor schedule.loaded, .data schedule.extended]
  | .post => [.data schedule.data, .descriptor schedule.final]

def announced (world : World) : World :=
  { world with journal := world.journal ++ [.noted (.creating schedule.prepared.identity.name
      schedule.prepared.template.template schedule.target.toText)] }

end Schedule

def targetNamed (data : Data) : String :=
  ((data.find? targetEntry).map Value.toText).getD ""

theorem resolveTarget_eq (environment : Environment) (data : Data) (world : World) :
    resolveTarget environment data world =
      match environment.expand (.ofText (targetNamed data)) with
      | .error failure => .error failure world
      | .ok path =>
        if Disk.hasNull path.segments then .error .nullCharacter world
        else match world.disk.resolve path with
          | .ok target => .ok target world
          | .error stuck => .error (.linkCircle stuck.toText) world := by
  unfold resolveTarget targetNamed
  simp only
  cases environment.expand (.ofText ((data.find? targetEntry).map Value.toText |>.getD "")) with
  | error failure => rfl
  | ok path =>
      cases null : Disk.hasNull path.segments with
      | true =>
          simp only [Action.ofExcept, pure_bind, null, if_true]
          rfl
      | false =>
          simp only [Action.ofExcept, pure_bind, null, Bool.false_eq_true, if_false]
          rw [Action.disk_bind]
          cases world.disk.resolve path <;> rfl

theorem resolveTarget_world {environment : Environment} {data : Data} {target : Path}
    {world reached : World}
    (resolves : resolveTarget environment data world = .ok target reached) : reached = world := by
  rw [resolveTarget_eq] at resolves
  split at resolves
  · cases resolves
  · split at resolves
    · cases resolves
    · split at resolves <;> cases resolves
      rfl

namespace Generator

inductive Reaches (generator : Generator) (options : Data) (world : World) (schedule : Schedule) :
    Phase → World → Prop
  | extending {located ready : World}
      (finds : generator.find options world = .ok (schedule.prepared, schedule.location) located)
      (loads : Descriptor.load schedule.location.descriptor located =
        .ok schedule.loaded ready) :
      Reaches generator options world schedule .extending ready
  | replacing {ready called : World}
      (before : Reaches generator options world schedule .extending ready)
      (adds : Adds generator.registry schedule.loaded schedule.seen ready schedule.added called) :
      Reaches generator options world schedule .replacing called
  | copying {called drafted : World}
      (before : Reaches generator options world schedule .replacing called)
      (replaces : Replaces generator.registry schedule.loaded schedule.extended called
        schedule.final drafted) :
      Reaches generator options world schedule .copying drafted
  | finishing {drafted built : World}
      (before : Reaches generator options world schedule .copying drafted)
      (resolves : resolveTarget generator.environment schedule.data drafted =
        .ok schedule.target drafted)
      (copied : Entry.AllCopied generator.copier schedule.location.directory schedule.target
        (.ofData schedule.data)
        (schedule.final.entries drafted.disk schedule.location.directory)
        (schedule.announced drafted) schedule.written built) :
      Reaches generator options world schedule .finishing built

inductive Ends (generator : Generator) (options : Data) (world : World) (schedule : Schedule) :
    Phase → EStateM.Result Failure World Result → Prop
  | unextended {ready reached : World} {failure : Failure}
      (begins : generator.Reaches options world schedule .extending ready)
      (fails : Hook.extendData generator.registry schedule.loaded schedule.seen ready =
        .error failure reached) :
      Ends generator options world schedule .extending (.error failure reached)
  | unreplaced {called reached : World} {failure : Failure}
      (begins : generator.Reaches options world schedule .replacing called)
      (fails : Hook.replaceDescriptor generator.registry schedule.loaded schedule.extended called =
        .error failure reached) :
      Ends generator options world schedule .replacing (.error failure reached)
  | unbuilt {drafted reached : World} {failure : Failure}
      (begins : generator.Reaches options world schedule .copying drafted)
      (fails : generator.build schedule.draft drafted = .error failure reached) :
      Ends generator options world schedule .copying (.error failure reached)
  | unfinished {built reached : World} {failure : Failure}
      (begins : generator.Reaches options world schedule .finishing built)
      (fails : Hook.finish generator.registry schedule.data schedule.final built =
        .error failure reached) :
      Ends generator options world schedule .finishing (.error failure reached)
  | finished {built reached : World} {postFault? : Option Fault}
      (begins : generator.Reaches options world schedule .finishing built)
      (finishes : Hook.finish generator.registry schedule.data schedule.final built =
        .ok postFault? reached) :
      Ends generator options world schedule .finishing (.ok (schedule.result postFault?) reached)

variable {generator : Generator} {options : Data} {world : World} {schedule : Schedule}

theorem build_eq_ok_iff {draft : Draft} {target : Path} {written : List Path}
    {drafted reached : World} :
    generator.build draft drafted = .ok (target, written) reached ↔
      resolveTarget generator.environment draft.data drafted = .ok target drafted ∧
        Entry.AllCopied generator.copier draft.location.directory target (.ofData draft.data)
          (draft.descriptor.entries drafted.disk draft.location.directory)
          { drafted with journal := drafted.journal ++ [.noted (.creating
            draft.prepared.identity.name draft.prepared.template.template target.toText)] }
          written reached := by
  have noted (target : Path) : (do
      Action.note (.creating draft.prepared.identity.name draft.prepared.template.template
        target.toText)
      let written ← draft.descriptor.copyFiles generator.copier draft.location.directory target
        (.ofData draft.data)
      return (target, written) : Action (Path × List Path)) drafted = (do
        let written ← Entry.copyAll generator.copier draft.location.directory target
          (.ofData draft.data) (draft.descriptor.entries drafted.disk draft.location.directory)
        return (target, written) : Action (Path × List Path))
          { drafted with journal := drafted.journal ++ [.noted (.creating
            draft.prepared.identity.name draft.prepared.template.template target.toText)] } := rfl
  unfold build
  constructor
  · intro ends
    obtain ⟨resolved, between, resolves, continues⟩ := Action.bind_eq_ok_iff.1 ends
    cases resolveTarget_world resolves
    rw [noted] at continues
    obtain ⟨written, last, copies, returns⟩ := Action.bind_eq_ok_iff.1 continues
    cases returns
    exact ⟨resolves, Entry.copyAll_eq_ok_iff.1 copies⟩
  · rintro ⟨resolves, copied⟩
    rw [Action.bind_ok resolves, noted]
    exact Action.bind_ok (Entry.copyAll_eq_ok_iff.2 copied) _

theorem generate_of_loads {found : Prepared × Template.Location} {loaded : Descriptor}
    {located ready : World} (finds : generator.find options world = .ok found located)
    (loads : Descriptor.load found.2.descriptor located = .ok loaded ready) :
    generator.generate options world =
      (generator.draftFrom found loaded >>= generator.realize) ready := by
  rw [generate_eq, draft, bind_assoc, Action.bind_ok finds, bind_assoc, Action.bind_ok loads]

theorem generate_of_unread {failure : Failure} {reached : World}
    (fails : generator.read options world = .error failure reached) :
    generator.generate options world = .error failure reached := by
  rw [generate_eq, draft, bind_assoc]
  unfold read at fails
  cases finds : generator.find options world with
  | error found between =>
      rw [Action.bind_error finds] at fails ⊢
      cases fails
      rfl
  | ok found located =>
      rw [Action.bind_ok finds] at fails ⊢
      rw [bind_assoc, Action.bind_error fails]

theorem generate_of_extending {ready : World}
    (begins : generator.Reaches options world schedule .extending ready) :
    generator.generate options world = (do
      let extended ← Hook.extendData generator.registry schedule.loaded schedule.seen
      let final ← Hook.replaceDescriptor generator.registry schedule.loaded extended
      generator.realize
        ⟨schedule.prepared, schedule.location, Hook.finalData final extended, final⟩) ready := by
  cases begins with
  | extending finds loads =>
      rw [generate_of_loads finds loads]
      simp only [draftFrom, Hook.apply, bind_assoc, pure_bind]
      rfl

theorem generate_of_replacing {called : World}
    (begins : generator.Reaches options world schedule .replacing called) :
    generator.generate options world = (do
      let final ← Hook.replaceDescriptor generator.registry schedule.loaded schedule.extended
      generator.realize ⟨schedule.prepared, schedule.location,
        Hook.finalData final schedule.extended, final⟩) called := by
  cases begins with
  | replacing before adds =>
      rw [generate_of_extending before, Action.bind_ok (Hook.extendData_of_adds adds)]
      rfl

theorem generate_of_copying {drafted : World}
    (begins : generator.Reaches options world schedule .copying drafted) :
    generator.generate options world = generator.realize schedule.draft drafted := by
  cases begins with
  | copying before replaces =>
      rw [generate_of_replacing before, Action.bind_ok (Hook.replaceDescriptor_of_replaces replaces)]
      rfl

theorem generate_of_finishing {built : World}
    (begins : generator.Reaches options world schedule .finishing built) :
    generator.generate options world = (do
      let postFault? ← Hook.finish generator.registry schedule.data schedule.final
      return schedule.result postFault?) built := by
  cases begins with
  | finishing before resolves copied =>
      have builds : generator.build schedule.draft _ = .ok (schedule.target, schedule.written) built :=
        build_eq_ok_iff.2 ⟨resolves, copied⟩
      rw [generate_of_copying before, realize, Action.bind_ok builds]
      rfl

theorem generate_of_ends {phase : Phase} {ending : EStateM.Result Failure World Result}
    (ends : generator.Ends options world schedule phase ending) :
    generator.generate options world = ending := by
  cases ends with
  | unextended begins fails => rw [generate_of_extending begins, Action.bind_error fails]
  | unreplaced begins fails => rw [generate_of_replacing begins, Action.bind_error fails]
  | unbuilt begins fails => rw [generate_of_copying begins, realize, Action.bind_error fails]
  | unfinished begins fails => rw [generate_of_finishing begins, Action.bind_error fails]
  | finished begins finishes =>
      rw [generate_of_finishing begins, Action.bind_ok finishes]
      rfl

theorem exists_ends {phase : Phase} {ending : EStateM.Result Failure World Result}
    (ends : generator.Ends options world schedule phase ending) :
    ∃ schedule phase, generator.Ends options world schedule phase
      (generator.generate options world) :=
  ⟨schedule, phase, (generate_of_ends ends).symm ▸ ends⟩

theorem exists_ends_of_copying (schedule : Schedule) {drafted : World}
    (begins : ∀ target written, generator.Reaches options world
      { schedule with target, written } .copying drafted) :
    ∃ schedule phase, generator.Ends options world schedule phase
      (generator.generate options world) := by
  cases builds : generator.build schedule.draft drafted with
  | error failure reached =>
      exact exists_ends (.unbuilt (begins schedule.target schedule.written) builds)
  | ok copies built =>
      obtain ⟨target, written⟩ := copies
      obtain ⟨resolves, copied⟩ := build_eq_ok_iff.1 builds
      have finishing : generator.Reaches options world { schedule with target, written } .finishing
          built := .finishing (begins target written) resolves copied
      cases finishes : Hook.finish generator.registry schedule.data schedule.final built with
      | error failure reached => exact exists_ends (.unfinished finishing finishes)
      | ok postFault? reached => exact exists_ends (.finished finishing finishes)

theorem exists_ends_of_extending (schedule : Schedule) {ready : World}
    (begins : ∀ added final target written, generator.Reaches options world
      { schedule with added, final, target, written } .extending ready) :
    ∃ schedule phase, generator.Ends options world schedule phase
      (generator.generate options world) := by
  cases extend : Hook.extendData generator.registry schedule.loaded schedule.seen ready with
  | error failure reached =>
      exact exists_ends (.unextended
        (begins schedule.added schedule.final schedule.target schedule.written) extend)
  | ok extended called =>
      obtain ⟨added, adds, rfl⟩ := Hook.adds_of_extendData extend
      have replacing (final : Descriptor) (target : Path) (written : List Path) :
          generator.Reaches options world { schedule with added, final, target, written }
            .replacing called :=
        .replacing (begins added final target written) adds
      cases replaces : Hook.replaceDescriptor generator.registry schedule.loaded
          (schedule.seen.union added) called with
      | error failure reached =>
          exact exists_ends (.unreplaced
            (replacing schedule.final schedule.target schedule.written) replaces)
      | ok final drafted =>
          exact exists_ends_of_copying { schedule with added, final }
            fun target written => .copying (replacing final target written)
              (Hook.replaces_of_replaceDescriptor replaces)

theorem generate_eq_iff {ending : EStateM.Result Failure World Result} :
    generator.generate options world = ending ↔
      (∃ failure reached, generator.read options world = .error failure reached ∧
        ending = .error failure reached) ∨
      ∃ schedule phase, generator.Ends options world schedule phase ending := by
  constructor
  · rintro rfl
    cases finds : generator.find options world with
    | error failure reached =>
        have unread : generator.read options world = .error failure reached :=
          Action.bind_error finds
        exact Or.inl ⟨failure, reached, unread, generate_of_unread unread⟩
    | ok found located =>
        cases loads : Descriptor.load found.2.descriptor located with
        | error failure reached =>
            have unread : generator.read options world = .error failure reached :=
              (Action.bind_ok finds _).trans loads
            exact Or.inl ⟨failure, reached, unread, generate_of_unread unread⟩
        | ok loaded ready =>
            exact Or.inr (exists_ends_of_extending
              ⟨found.1, found.2, loaded, ∅, loaded, found.2.directory, []⟩
              fun added final target written => .extending finds loads)
  · rintro (⟨failure, reached, unread, rfl⟩ | ⟨schedule, phase, ends⟩)
    · exact generate_of_unread unread
    · exact generate_of_ends ends

end Generator

end Project

end Archetype
