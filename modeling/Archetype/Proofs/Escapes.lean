import Archetype.Command.Run
import Archetype.Proofs.Conduct
import Archetype.Proofs.Courses
import Archetype.Proofs.HookReferences
import Archetype.Proofs.LastHook
import Archetype.Proofs.Raising

/-!
# Failures that escape

A generation reports its failures as faults, but for some: those of a resolver that cannot read a
file, of a module that is imported for a hook, of a replacement that is no descriptor in a way that
is not looked for, and of paths. `Generator.Escapes` lists them.

* `Generator.generate_fails_iff`: a generation ends in a failure that is no fault if and only if that
  failure escapes it.
* `failures_surface`: the same, with the endings of the command.
* `failure_escapes`: the home of an unknown user.
-/

namespace Archetype

open Archetype.Action (fails_bind)

/-! ## Resolvers -/

namespace Git

inductive RemoteFailure : Failure → Prop
  | fault {fault : Fault} (stage : fault.cause.stage = .remote) : RemoteFailure (.fault fault)
  | file (error : FileError) : RemoteFailure (.file error)

structure Resolver.RaisesFiles (resolver : Resolver) : Prop where
  address : ∀ name, (resolver.address? name).Fails RemoteFailure
  commit : ∀ address reference?, (resolver.commit? address reference?).Fails RemoteFailure
  checkOut : ∀ address name commit, (resolver.checkOut address name commit).Fails RemoteFailure

namespace Resolver

variable {resolver : Resolver} {name : String} {reference? : Option String}
  {world reached : World} {failure : Failure}

inductive Breaks (resolver : Resolver) (name : String) (reference? : Option String)
    (world : World) : Failure → World → Prop
  | address {error : FileError} {reached : World}
      (fails : ask (.address name) (resolver.address? name) world = .error (.file error) reached) :
      Breaks resolver name reference? world (.file error) reached
  | commit {address : String} {asked reached : World} {error : FileError}
      (answers : ask (.address name) (resolver.address? name) world = .ok (some address) asked)
      (fails : (do
          Action.note (.resolving name reference?)
          resolver.findCommit name address reference?) asked = .error (.file error) reached) :
      Breaks resolver name reference? world (.file error) reached

theorem file_of_other (kind : RemoteFailure failure) (other : failure.fault? = none) :
    ∃ error, failure = .file error := by
  cases kind with
  | fault stage => cases other
  | file error => exact ⟨error, rfl⟩

theorem fails_ask {α : Type} {allowed : Failure → Prop} {question : Question} {answer : Action α}
    (fails : answer.Fails allowed) : (ask question answer).Fails allowed :=
  fails_bind (Action.fails_record _) fun _ => fails

theorem RaisesFiles.findCommit (raises : resolver.RaisesFiles) (address : String) :
    (resolver.findCommit name address reference?).Fails RemoteFailure := by
  have unresolved (reference : String) :
      (Action.fault (.unresolvedReference reference address) (some name) :
        Action String).Fails RemoteFailure := by
    rintro _ _ _ ⟨⟩
    exact .fault rfl
  exact (Action.composes_fails RemoteFailure).findCommit
    (fun reference? => fails_ask (raises.commit address reference?))
    (fun _ => Action.fails_record _) unresolved

theorem RaisesFiles.checkOut_reports (raises : resolver.RaisesFiles) (address commit : String) :
    (Action.explaining
      (fun error => .of (.notCheckedOut address commit error) (some name))
      (ask (.checkout address name commit) (resolver.checkOut address name commit))).Fails
        fun failure => failure.fault? ≠ none := by
  intro world failure reached fails
  unfold Action.explaining at fails
  split at fails
  · cases fails
    exact Option.some_ne_none _
  · rename_i other
    rcases fails_ask (raises.checkOut address name commit) fails with _ | error
    · exact Option.some_ne_none _
    · exact (other error reached fails).elim

theorem checkOut?_of_address {address : String} {asked : World}
    (answers : ask (.address name) (resolver.address? name) world = .ok (some address) asked) :
    resolver.checkOut? name reference? world = (do
      let commit ← (do
        Action.note (.resolving name reference?)
        resolver.findCommit name address reference?)
      let path ← Action.explaining
        (fun error => .of (.notCheckedOut address commit error) (some name))
        (ask (.checkout address name commit) (resolver.checkOut address name commit))
      return some ⟨address, commit, path⟩ : Action (Option Checkout)) asked := by
  unfold checkOut?
  rw [Action.bind_ok answers]
  simp only [bind_assoc]

theorem RaisesFiles.checkOut?_fails_iff (raises : resolver.RaisesFiles) :
    resolver.checkOut? name reference? world = .error failure reached ∧ failure.fault? = none ↔
      resolver.Breaks name reference? world failure reached := by
  constructor
  · rintro ⟨fails, other⟩
    cases answers : ask (.address name) (resolver.address? name) world with
    | error found between =>
        rw [checkOut?, Action.bind_error answers] at fails
        cases fails
        obtain ⟨error, rfl⟩ := file_of_other (fails_ask (raises.address name) answers) other
        exact .address answers
    | ok address? asked =>
        cases address? with
        | none =>
            rw [checkOut?, Action.bind_ok answers] at fails
            cases fails
        | some address =>
            rw [checkOut?_of_address answers] at fails
            cases finds : (do
                Action.note (.resolving name reference?)
                resolver.findCommit name address reference?) asked with
            | error found between =>
                rw [Action.bind_error finds] at fails
                cases fails
                have kind := fails_bind (Action.fails_record _)
                  (fun _ : Unit => raises.findCommit address) finds
                obtain ⟨error, rfl⟩ := file_of_other kind other
                exact .commit answers finds
            | ok commit found =>
                -- a failure of the checkout itself is reported
                rw [Action.bind_ok finds] at fails
                have reported := fails_bind (raises.checkOut_reports address commit)
                  (fun _ => Action.fails_pure _) fails
                exact (reported other).elim
  · rintro (fails | ⟨answers, fails⟩)
    · exact ⟨Action.bind_error fails, rfl⟩
    · exact ⟨(checkOut?_of_address answers).trans (Action.bind_error fails), rfl⟩

end Resolver

end Git

/-! ## Hooks -/

namespace Hook

variable {registry : Registry} {reference : String} {failure : Failure} {world reached : World}

inductive Registry.Breaks (registry : Registry) (reference : String) : Failure → Prop
  | relative (seeks : registry.Seeks reference)
      (named : (moduleOf reference).toList.head? = some '.') :
      Breaks registry reference (.relativeModule (moduleOf reference))
  | raised {failure : Failure} (seeks : registry.Seeks reference)
      (named : (moduleOf reference).toList.head? ≠ some '.')
      (raises : registry.library.modules (moduleOf reference) = .error (.raised failure))
      (other : failure.fault? = none) :
      Breaks registry reference failure

theorem breaks_iff_letsThrough :
    registry.Breaks reference failure ↔
      registry.LetsThrough reference failure ∧ failure.fault? = none := by
  constructor
  · rintro (⟨seeks, named⟩ | ⟨seeks, named, raises, other⟩)
    · exact ⟨.relative seeks named, rfl⟩
    · exact ⟨.raised seeks named raises, other⟩
  · rintro ⟨⟨seeks, named⟩ | ⟨seeks, named, raises⟩, other⟩
    · exact .relative seeks named
    · exact .raised seeks named raises other

theorem breaks_iff :
    registry.Breaks reference failure ↔
      registry.resolve reference = .error failure ∧ failure.fault? = none := by
  rw [breaks_iff_letsThrough]
  refine and_congr_left fun other => ⟨fun lets => lets.resolve_eq, fun fails => ?_⟩
  rcases Registry.reported_or_letsThrough fails with ⟨_, -, rfl⟩ | lets
  · cases other
  · exact lets

theorem invoke_fails_iff {role : HookRole} {arguments : List Argument} :
    registry.invoke role reference arguments world = .error failure reached ∧
        failure.fault? = none ↔
      registry.Breaks reference failure ∧ reached = world := by
  rw [breaks_iff, Registry.invoke_eq]
  cases resolves : registry.resolve reference with
  | error found =>
      constructor
      · rintro ⟨⟨⟩, other⟩
        exact ⟨⟨rfl, other⟩, rfl⟩
      · rintro ⟨⟨⟨⟩, other⟩, rfl⟩
        exact ⟨rfl, other⟩
  | ok target =>
      -- what is called ends in faults of hooks
      have reported (problem : Problem) : (problem.toFailure role reference).fault? ≠ none := by
        obtain ⟨fault, same, -⟩ := Problem.stage_toFailure role reference problem
        rw [same]
        exact Option.some_ne_none _
      constructor
      · rintro ⟨fails, other⟩
        cases target with
        | value value =>
            cases fails
            exact (reported _ other).elim
        | function function =>
            simp only at fails
            split at fails <;> cases fails
            exact (reported _ other).elim
      · rintro ⟨⟨⟨⟩, -⟩, -⟩

/-- A hook that fails in what is no fault does so before it is called, and nothing that is done with
its answer changes that. -/
theorem bind_invoke_fails_iff {α : Type} {role : HookRole} {arguments : List Argument}
    {next : Answer → Action α} :
    (registry.invoke role reference arguments >>= next) world = .error failure reached ∧
        failure.fault? = none ↔
      registry.Breaks reference failure ∧ reached = world ∨
      ∃ answer between, registry.invoke role reference arguments world = .ok answer between ∧
        next answer between = .error failure reached ∧ failure.fault? = none := by
  cases invokes : registry.invoke role reference arguments world with
  | error found between =>
      rw [Action.bind_error invokes, ← invoke_fails_iff, invokes]
      simp
  | ok answer between =>
      have called : ¬(registry.Breaks reference failure ∧ reached = world) := fun breaks => by
        have fails : registry.invoke role reference arguments world = .error failure reached ∧
            failure.fault? = none := invoke_fails_iff.2 breaks
        rw [invokes] at fails
        cases fails.1
      rw [Action.bind_ok invokes]
      simp [called]

theorem extendData_fails_iff {descriptor : Template.Descriptor} {data : Data} :
    extendData registry descriptor data world = .error failure reached ∧ failure.fault? = none ↔
      ∃ reference, named? descriptor.dataHook? = some reference ∧
        registry.Breaks reference failure ∧ reached = world := by
  unfold extendData
  cases named : named? descriptor.dataHook? with
  | none =>
      constructor
      · rintro ⟨⟨⟩, -⟩
      · rintro ⟨_, ⟨⟩, -⟩
  | some reference =>
      simp only [bind_invoke_fails_iff, Option.some.injEq, exists_eq_left', or_iff_left_iff_imp]
      rintro ⟨answer, between, -, fails, other⟩
      split at fails <;> cases fails <;> cases other

inductive Misshapes (registry : Registry) (descriptor : Template.Descriptor) (data : Data)
    (world : World) : String → World → Prop
  | answered {reference kind : String} {entries : List (Value × Value)} {reached : World}
      (named : named? descriptor.templateHook? = some reference)
      (answers : registry.invoke .template reference [.descriptor descriptor, .data data] world =
        .ok (.value (.map entries)) reached)
      (shapeless : Template.Descriptor.ofMap entries = .error (.noItems kind)) :
      Misshapes registry descriptor data world kind reached

theorem ofReplacement_fails_iff {entries : List (Value × Value)} :
    ofReplacement reference entries = .error failure ∧ failure.fault? = none ↔
      ∃ kind, failure = .noItems kind ∧
        Template.Descriptor.ofMap entries = .error (.noItems kind) := by
  rw [ofReplacement]
  cases Template.Descriptor.ofMap entries with
  | ok descriptor => simp
  | error problem =>
      cases problem with
      | violations found =>
          simp only [Except.error.injEq, reduceCtorEq, and_false, exists_false, iff_false, not_and]
          rintro rfl ⟨⟩
      | noItems kind =>
          simp only [Except.error.injEq]
          constructor
          · rintro ⟨rfl, -⟩
            exact ⟨kind, rfl, rfl⟩
          · rintro ⟨_, rfl, ⟨⟩⟩
            exact ⟨rfl, rfl⟩

theorem replaceDescriptor_fails_iff {descriptor : Template.Descriptor} {data : Data} :
    replaceDescriptor registry descriptor data world = .error failure reached ∧
        failure.fault? = none ↔
      (∃ reference, named? descriptor.templateHook? = some reference ∧
        registry.Breaks reference failure ∧ reached = world) ∨
      ∃ kind, failure = .noItems kind ∧
        Misshapes registry descriptor data world kind reached := by
  unfold replaceDescriptor
  cases named : named? descriptor.templateHook? with
  | none =>
      constructor
      · rintro ⟨⟨⟩, -⟩
      · rintro (⟨_, ⟨⟩, -⟩ | ⟨_, -, ⟨other, -, -⟩⟩)
        rw [named] at other
        cases other
  | some reference =>
      simp only [bind_invoke_fails_iff, Option.some.injEq, exists_eq_left']
      refine or_congr_right ⟨?_, ?_⟩
      · rintro ⟨answer, between, answers, fails, other⟩
        split at fails
        · cases fails
        · rename_i entries
          cases replaces : ofReplacement reference entries with
          | ok replacement =>
              rw [replaces] at fails
              cases fails
          | error found =>
              rw [replaces] at fails
              cases fails
              obtain ⟨kind, rfl, shapeless⟩ := ofReplacement_fails_iff.1 ⟨replaces, other⟩
              exact ⟨kind, rfl, .answered named answers shapeless⟩
        · cases fails
          cases other
      · rintro ⟨kind, rfl, @⟨_, _, entries, _, other, answers, shapeless⟩⟩
        rw [named] at other
        cases other
        refine ⟨_, reached, answers, ?_, rfl⟩
        have replaces : ofReplacement reference entries = .error (.noItems kind) :=
          (ofReplacement_fails_iff.2 ⟨kind, rfl, shapeless⟩).1
        simp only [replaces]
        rfl

theorem finish_fails_iff {descriptor : Template.Descriptor} {data : Data} :
    finish registry data descriptor world = .error failure reached ∧ failure.fault? = none ↔
      ∃ reference, named? descriptor.postHook? = some reference ∧
        registry.Breaks reference failure ∧ reached = world := by
  unfold finish
  cases named : named? descriptor.postHook? with
  | none =>
      constructor
      · rintro ⟨⟨⟩, -⟩
      · rintro ⟨_, ⟨⟩, -⟩
  | some reference =>
      have noted (work : Action Unit) : noting work world = .error failure reached ∧
          failure.fault? = none ↔ work world = .error failure reached ∧ failure.fault? = none := by
        unfold noting
        cases work world with
        | ok value between => simp
        | error found between =>
            cases found with
            | fault fault =>
                constructor
                · rintro ⟨fails, other⟩
                  simp only at fails
                  split at fails <;> cases fails
                  cases other
                · rintro ⟨⟨⟩, ⟨⟩⟩
            | _ => simp only [EStateM.Result.error.injEq]
      simp only [noted, bind_invoke_fails_iff, Option.some.injEq, exists_eq_left',
        or_iff_left_iff_imp]
      rintro ⟨answer, between, -, ⟨⟩, -⟩

end Hook

namespace Project

open Archetype.Template (Descriptor)

/-! ## The search for the template -/

def wanted? (settings : Settings) (options : Data) : Option Template.TemplateName :=
  match option? options "template", option? options "name" with
  | some template, some name =>
    match Identity.resolve settings.groupPrefix Git.address? name.toText,
      Template.TemplateName.parse settings.space template.toText with
    | .ok _, .ok wanted => some wanted
    | _, _ => none
  | _, _ => none

variable {settings : Settings} {environment : Environment} {resolver : Git.Resolver}
  {options : Data} {world reached : World} {failure : Failure}

theorem prepare_fails_iff (raises : resolver.RaisesFiles) :
    prepare settings environment resolver options world = .error failure reached ∧
        failure.fault? = none ↔
      ∃ wanted, wanted? settings options = some wanted ∧
        resolver.Breaks wanted.repository wanted.reference? world failure reached := by
  have reported (cause : Cause) :
      ¬((Action.fault cause none : Action Prepared) world = .error failure reached ∧
        failure.fault? = none) := by
    rintro ⟨⟨⟩, ⟨⟩⟩
  unfold prepare wanted?
  cases option? options "template" with
  | none => simpa using reported _
  | some template =>
      cases option? options "name" with
      | none => simpa using reported _
      | some name =>
          simp only
          cases Identity.resolve settings.groupPrefix Git.address? name.toText with
          | error fault =>
              simp only [reduceCtorEq, false_and, exists_false, iff_false]
              rintro ⟨⟨⟩, ⟨⟩⟩
          | ok identity =>
              cases Template.TemplateName.parse settings.space template.toText with
              | error fault =>
                  simp only [reduceCtorEq, false_and, exists_false, iff_false]
                  rintro ⟨⟨⟩, ⟨⟩⟩
              | ok wanted =>
                  simp only [Action.ofFault, pure_bind, Option.some.injEq, exists_eq_left',
                    ← raises.checkOut?_fails_iff]
                  cases checks : resolver.checkOut? wanted.repository wanted.reference? world with
                  | error found between =>
                      rw [Action.bind_error checks]
                      simp only [EStateM.Result.error.injEq]
                  | ok checkout? between =>
                      rw [Action.bind_ok checks]
                      constructor
                      · rintro ⟨⟨⟩, -⟩
                      · rintro ⟨⟨⟩, -⟩

namespace Generator

variable {generator : Generator}

theorem find_fails_iff (raises : generator.resolver.RaisesFiles) :
    generator.find options world = .error failure reached ∧ failure.fault? = none ↔
      ∃ wanted, wanted? generator.settings options = some wanted ∧
        generator.resolver.Breaks wanted.repository wanted.reference? world failure reached := by
  rw [← show prepare generator.settings generator.environment generator.resolver options world =
      .error failure reached ∧ failure.fault? = none ↔ _ from prepare_fails_iff raises, find]
  cases prepares : prepare generator.settings generator.environment generator.resolver options
      world with
  | error found between =>
      rw [Action.bind_error prepares]
      simp only [EStateM.Result.error.injEq]
  | ok prepared between =>
      rw [Action.bind_ok prepares]
      constructor
      · rintro ⟨fails, other⟩
        have reported : (do
            let location ← Template.locate generator.resources (prepared.roots.map .path)
              prepared.template.template
            return (prepared, location) : Action (Prepared × Template.Location)).Fails
              fun failure => failure.fault? ≠ none := by
          refine fails_bind ?_ fun _ => Action.fails_pure _
          intro before failure after fails
          rw [Template.locate, Action.disk_bind] at fails
          generalize Template.find? _ _ _ = location? at fails
          cases location? <;> cases fails
          exact Option.some_ne_none _
        exact (reported fails other).elim
      · rintro ⟨⟨⟩, -⟩

end Generator

/-! ## The directory of the project -/

inductive Unfound (environment : Environment) (data : Data) (disk : Disk) : Failure → Prop
  | homeless (unknown : environment.homes.expand? (.ofText (targetNamed data)) = none) :
      Unfound environment data disk .noHome
  | nullCharacter {path : Path}
      (expands : environment.homes.expand? (.ofText (targetNamed data)) = some path)
      (null : Disk.hasNull path.segments = true) :
      Unfound environment data disk .nullCharacter
  | circle {path stuck : Path}
      (expands : environment.homes.expand? (.ofText (targetNamed data)) = some path)
      (clear : Disk.hasNull path.segments = false) (circles : disk.resolve path = .error stuck) :
      Unfound environment data disk (.linkCircle stuck.toText)

theorem unfound_iff {data : Data} :
    Unfound environment data world.disk failure ∧ reached = world ↔
      resolveTarget environment data world = .error failure reached := by
  rw [resolveTarget_eq, Environment.expand]
  constructor
  · rintro ⟨unknown | ⟨expands, null⟩ | ⟨expands, clear, circles⟩, rfl⟩
    · simp only [unknown]
    · simp only [expands, null, if_true]
    · simp only [expands, clear, circles, Bool.false_eq_true, if_false]
  · intro fails
    cases expands : environment.homes.expand? (.ofText (targetNamed data)) with
    | none =>
        simp only [expands] at fails
        cases fails
        exact ⟨.homeless expands, rfl⟩
    | some path =>
        simp only [expands] at fails
        split at fails
        · rename_i null
          cases fails
          exact ⟨.nullCharacter expands null, rfl⟩
        · rename_i clear
          split at fails <;> cases fails
          rename_i circles
          exact ⟨.circle expands (Bool.not_eq_true _ ▸ clear) circles, rfl⟩

theorem Unfound.other {data : Data} {disk : Disk}
    (unfound : Unfound environment data disk failure) : failure.fault? = none := by
  cases unfound <;> rfl

/-! ## Generations -/

def Phase.role? : Phase → Option HookRole
  | extending => some .data
  | replacing => some .template
  | copying => none
  | finishing => some .post

namespace Generator

variable {generator : Generator}

def copy (generator : Generator) (schedule : Schedule) (target : Path) : Action (List Path) := do
  Action.note (.creating schedule.prepared.identity.name schedule.prepared.template.template
    target.toText)
  schedule.final.copyFiles generator.copier schedule.location.directory target
    (.ofData schedule.data)

/-- A failure that escapes a generation, by its cause. -/
inductive Escapes (generator : Generator) (options : Data) (world : World) :
    Failure → World → Prop
  | repository {wanted : Template.TemplateName} {failure : Failure} {reached : World}
      (wants : wanted? generator.settings options = some wanted)
      (breaks : generator.resolver.Breaks wanted.repository wanted.reference? world failure
        reached) :
      Escapes generator options world failure reached
  | hook {schedule : Schedule} {phase : Phase} {role : HookRole} {reference : String}
      {failure : Failure} {begun : World}
      (begins : generator.Reaches options world schedule phase begun)
      (calls : phase.role? = some role)
      (named : Hook.named? (schedule.hook? role) = some reference)
      (breaks : generator.registry.Breaks reference failure) :
      Escapes generator options world failure begun
  | replacement {schedule : Schedule} {called reached : World} {kind : String}
      (begins : generator.Reaches options world schedule .replacing called)
      (misshapes : Hook.Misshapes generator.registry schedule.loaded schedule.extended called kind
        reached) :
      Escapes generator options world (.noItems kind) reached
  | target {schedule : Schedule} {drafted : World} {failure : Failure}
      (begins : generator.Reaches options world schedule .copying drafted)
      (unfound : Unfound generator.environment schedule.data drafted.disk failure) :
      Escapes generator options world failure drafted
  | path {schedule : Schedule} {drafted reached : World} {target : Path}
      (begins : generator.Reaches options world schedule .copying drafted)
      (resolves : resolveTarget generator.environment schedule.data drafted = .ok target drafted)
      (copies : generator.copy schedule target drafted = .error .nullCharacter reached) :
      Escapes generator options world .nullCharacter reached

def Loads (generator : Generator) (options : Data) (world : World) : Prop :=
  ∀ {found located}, generator.find options world = .ok found located →
    ∃ loaded ready, Descriptor.load found.2.descriptor located = .ok loaded ready

theorem build_fails_iff {schedule : Schedule} {drafted : World} :
    generator.build schedule.draft drafted = .error failure reached ∧ failure.fault? = none ↔
      (Unfound generator.environment schedule.data drafted.disk failure ∧ reached = drafted) ∨
      ∃ target, resolveTarget generator.environment schedule.data drafted = .ok target drafted ∧
        generator.copy schedule target drafted = .error .nullCharacter reached ∧
        failure = .nullCharacter := by
  have builds : generator.build schedule.draft = (do
      let target ← resolveTarget generator.environment schedule.data
      let written ← generator.copy schedule target
      return (target, written)) := by
    simp only [build, copy, bind_assoc]
    rfl
  rw [builds, unfound_iff]
  cases resolves : resolveTarget generator.environment schedule.data drafted with
  | error found between =>
      rw [Action.bind_error resolves]
      constructor
      · rintro ⟨⟨⟩, -⟩
        exact Or.inl rfl
      · rintro (⟨⟨⟩⟩ | ⟨_, ⟨⟩, -⟩)
        exact ⟨rfl, (unfound_iff.2 resolves).1.other⟩
  | ok target between =>
      cases resolveTarget_world resolves
      rw [Action.bind_ok resolves]
      constructor
      · rintro ⟨fails, other⟩
        cases copies : generator.copy schedule target drafted with
        | ok written between =>
            rw [Action.bind_ok copies] at fails
            cases fails
        | error found between =>
            rw [Action.bind_error copies] at fails
            cases fails
            have kind := fails_bind (Action.fails_record _) (fun _ : Unit =>
              (schedule.final.observes_copyFiles generator.copier schedule.location.directory
                target (.ofData schedule.data)).failure) copies
            cases kind with
            | fault stage => cases other
            | nullCharacter => exact Or.inr ⟨target, rfl, copies, rfl⟩
      · rintro (⟨⟨⟩⟩ | ⟨_, ⟨⟩, copies, rfl⟩)
        exact ⟨Action.bind_error copies, rfl⟩

theorem read_fails_iff (raises : generator.resolver.RaisesFiles)
    (loads : generator.Loads options world) :
    generator.read options world = .error failure reached ∧ failure.fault? = none ↔
      ∃ wanted, wanted? generator.settings options = some wanted ∧
        generator.resolver.Breaks wanted.repository wanted.reference? world failure reached := by
  rw [← find_fails_iff raises, read]
  cases finds : generator.find options world with
  | error found between =>
      rw [Action.bind_error finds]
      simp only [EStateM.Result.error.injEq]
  | ok found located =>
      obtain ⟨loaded, ready, read⟩ := loads finds
      rw [Action.bind_ok finds, read]
      constructor
      · rintro ⟨⟨⟩, -⟩
      · rintro ⟨⟨⟩, -⟩

theorem Escapes.of_ends {schedule : Schedule} {phase : Phase}
    (ends : generator.Ends options world schedule phase (.error failure reached))
    (other : failure.fault? = none) : generator.Escapes options world failure reached := by
  cases ends with
  | unextended begins ends =>
      obtain ⟨reference, named, breaks, rfl⟩ := Hook.extendData_fails_iff.1 ⟨ends, other⟩
      exact .hook begins rfl named breaks
  | unreplaced begins ends =>
      rcases Hook.replaceDescriptor_fails_iff.1 ⟨ends, other⟩ with
        ⟨reference, named, breaks, rfl⟩ | ⟨kind, rfl, misshapes⟩
      · exact .hook begins rfl named breaks
      · exact .replacement begins misshapes
  | unbuilt begins ends =>
      rcases build_fails_iff.1 ⟨ends, other⟩ with ⟨unfound, rfl⟩ | ⟨target, resolves, copies, rfl⟩
      · exact .target begins unfound
      · exact .path begins resolves copies
  | unfinished begins ends =>
      obtain ⟨reference, named, breaks, rfl⟩ := Hook.finish_fails_iff.1 ⟨ends, other⟩
      exact .hook begins rfl named breaks

theorem generate_of_breaks {schedule : Schedule} {phase : Phase} {role : HookRole}
    {reference : String} {begun : World}
    (begins : generator.Reaches options world schedule phase begun)
    (calls : phase.role? = some role) (named : Hook.named? (schedule.hook? role) = some reference)
    (breaks : generator.registry.Breaks reference failure) :
    generator.generate options world = .error failure begun := by
  cases phase with
  | extending =>
      cases calls
      exact generate_of_ends (.unextended begins
        (Hook.extendData_fails_iff.2 ⟨reference, named, breaks, rfl⟩).1)
  | replacing =>
      cases calls
      exact generate_of_ends (.unreplaced begins
        (Hook.replaceDescriptor_fails_iff.2 (Or.inl ⟨reference, named, breaks, rfl⟩)).1)
  | copying => cases calls
  | finishing =>
      cases calls
      exact generate_of_ends (.unfinished begins
        (Hook.finish_fails_iff.2 ⟨reference, named, breaks, rfl⟩).1)

theorem generate_fails_iff (raises : generator.resolver.RaisesFiles)
    (loads : generator.Loads options world) :
    generator.generate options world = .error failure reached ∧ failure.fault? = none ↔
      generator.Escapes options world failure reached := by
  constructor
  · rintro ⟨fails, other⟩
    rcases generate_eq_iff.1 fails with ⟨_, _, unread, ⟨⟩⟩ | ⟨schedule, phase, ends⟩
    · obtain ⟨wanted, wants, breaks⟩ := (read_fails_iff raises loads).1 ⟨unread, other⟩
      exact .repository wants breaks
    · exact .of_ends ends other
  · intro escapes
    cases escapes with
    | repository wants breaks =>
        obtain ⟨unread, other⟩ := (read_fails_iff raises loads).2 ⟨_, wants, breaks⟩
        exact ⟨generate_of_unread unread, other⟩
    | hook begins calls named breaks =>
        exact ⟨generate_of_breaks begins calls named breaks, (Hook.breaks_iff.1 breaks).2⟩
    | replacement begins misshapes =>
        exact ⟨generate_of_ends (.unreplaced begins
          (Hook.replaceDescriptor_fails_iff.2 (Or.inr ⟨_, rfl, misshapes⟩)).1), rfl⟩
    | target begins unfound =>
        exact ⟨generate_of_ends (.unbuilt begins
          (build_fails_iff.2 (Or.inl ⟨unfound, rfl⟩)).1), unfound.other⟩
    | path begins resolves copies =>
        exact ⟨generate_of_ends (.unbuilt begins
          (build_fails_iff.2 (Or.inr ⟨_, resolves, copies, rfl⟩)).1), rfl⟩

end Generator

end Project

/-! ## The command -/

namespace Command

theorem bind_fails {α β : Type} {allowed : Failure → Prop} {first : Except Failure α}
    {next : α → Except Failure β} (fails : ∀ failure, first = .error failure → allowed failure)
    (later : ∀ value failure, next value = .error failure → allowed failure) (failure : Failure)
    (ends : first >>= next = .error failure) : allowed failure := by
  cases first with
  | error found =>
      cases ends
      exact fails _ rfl
  | ok value => exact later value failure ends

theorem pure_fails {α : Type} {allowed : Failure → Prop} (value : α) (failure : Failure)
    (ends : (pure value : Except Failure α) = .error failure) : allowed failure := by
  cases ends

theorem mapM_fails {α β : Type} {allowed : Failure → Prop} {read : α → Except Failure β}
    (fails : ∀ value failure, read value = .error failure → allowed failure) (values : List α)
    (failure : Failure) (ends : values.mapM read = .error failure) : allowed failure := by
  induction values generalizing failure with
  | nil => cases ends
  | cons value values ih =>
      rw [List.mapM_cons] at ends
      exact bind_fails (fails value) (fun _ => bind_fails ih fun _ => pure_fails _) failure ends

inductive OrderFailure : Failure → Prop
  | noHome : OrderFailure .noHome
  | pairWithoutSign (pair : String) : OrderFailure (.pairWithoutSign pair)
  | pairWithoutKey : OrderFailure .pairWithoutKey

theorem expand_fails (environment : Environment) (path : Path) (failure : Failure)
    (fails : environment.expand path = .error failure) : OrderFailure failure := by
  unfold Environment.expand at fails
  split at fails <;> cases fails
  exact .noHome

theorem parsePair_fails (pair : String) (failure : Failure)
    (fails : parsePair pair = .error failure) : OrderFailure failure := by
  unfold parsePair at fails
  split at fails
  · cases fails
    exact .pairWithoutSign pair
  · simp only at fails
    split at fails <;> cases fails
    exact .pairWithoutKey

theorem order_fails {setup : Setup} {request : Request} {current : Path} {failure : Failure}
    (fails : setup.order request current = .error failure) : OrderFailure failure := by
  refine bind_fails (bind_fails ?_ fun _ => pure_fails _) (fun settings => ?_) failure fails
  · refine bind_fails (expand_fails _ _) fun usual => ?_
    refine bind_fails (mapM_fails (fun entry => expand_fails _ _) _) fun extra => ?_
    simp only
    split
    · exact bind_fails (expand_fails _ _) fun _ => pure_fails _
    · exact bind_fails (pure_fails _) fun _ => pure_fails _
  · refine bind_fails (fun failure fails => ?_) fun _ => pure_fails _
    unfold parsePairs at fails
    cases parses : request.pairs.mapM parsePair with
    | ok pairs =>
        rw [parses] at fails
        cases fails
    | error found =>
        rw [parses] at fails
        cases fails
        exact mapM_fails parsePair_fails _ _ parses

section Endings

variable {setup : Setup} {arguments : List String} {request : Request} {world reached : World}
  (parses : Request.parse arguments = .ok request)

include parses

theorem Setup.run_of_created {result : Project.Result}
    (created : setup.createWith id request world = .ok result reached) :
    (setup.run arguments world).1 = .created result := by
  simp only [run_eq, runWith, parses, created]

theorem Setup.run_of_failure {failure : Failure}
    (fails : setup.createWith id request world = .error failure reached) :
    (setup.run arguments world).1 = endingOf failure := by
  simp only [run_eq, runWith, parses, fails]

end Endings

end Command

/-- A generation ends with a project, in a fault, or in a failure that escapes it; the command that
orders it ends accordingly, or it fails before the generation, for an unknown home directory or a
pair that is none. -/
theorem failures_surface (world : World) :
    (∀ (generator : Project.Generator) options, generator.resolver.RaisesFiles →
      generator.Loads options world → ∀ failure reached,
        generator.generate options world = .error failure reached ∧ failure.fault? = none ↔
          generator.Escapes options world failure reached) ∧
    ∀ (setup : Command.Setup) arguments request,
      Command.Request.parse arguments = .ok request →
      (∀ failure, setup.order request (.fromRoot world.disk.current) = .error failure →
        (setup.run arguments world).1 = Command.endingOf failure ∧
          Command.OrderFailure failure) ∧
      ∀ generator options, setup.order request (.fromRoot world.disk.current) =
          .ok (generator, options) →
        generator.resolver.RaisesFiles → generator.Loads options world →
        (∃ result, (setup.run arguments world).1 = .created result) ∨
        (∃ fault, (setup.run arguments world).1 = .failed fault) ∨
        ∃ failure reached, generator.Escapes options world failure reached ∧
          (setup.run arguments world).1 = Command.endingOf failure := by
  refine ⟨fun generator options raises loads failure reached =>
    generator.generate_fails_iff raises loads, fun setup arguments request parses => ?_⟩
  constructor
  · intro failure fails
    have ends : setup.createWith id request world = .error failure world := by
      rw [Command.Setup.createWith_eq, fails]
    exact ⟨Command.Setup.run_of_failure parses ends, Command.order_fails fails⟩
  · intro generator options orders raises loads
    have creates : setup.createWith id request world = generator.generate options world := by
      rw [Command.Setup.createWith_eq, orders]
      exact congrFun (Project.Generator.generateWith_id generator options) world
    cases generates : generator.generate options world with
    | ok result reached =>
        exact Or.inl ⟨result, Command.Setup.run_of_created parses (creates.trans generates)⟩
    | error failure reached =>
        have ends := Command.Setup.run_of_failure parses (creates.trans generates)
        cases reported : failure.fault? with
        | some fault =>
            cases failure <;> cases reported
            exact Or.inr (Or.inl ⟨_, ends⟩)
        | none =>
            have escapes := (generator.generate_fails_iff raises loads).1 ⟨generates, reported⟩
            exact Or.inr (Or.inr ⟨failure, reached, escapes, ends⟩)

/-! ## The home of an unknown user -/

namespace Project

theorem Generator.loads_of_read {generator : Generator} {options : Data} {world : World}
    (reads : (generator.read options).Yields world fun _ => True) :
    generator.Loads options world := by
  intro found located finds
  obtain ⟨loaded, ready, read, -⟩ := reads
  exact ⟨loaded, ready, (Action.bind_ok finds _).symm.trans read⟩

def silent : Git.Resolver :=
  ⟨fun _ => return none, fun _ _ => return none, fun _ _ _ => return .ofText "/"⟩

theorem raisesFiles_silent : silent.RaisesFiles where
  address _ := Action.fails_pure none
  commit _ _ := Action.fails_pure none
  checkOut _ _ _ := Action.fails_pure _

def homelessSetup : Command.Setup where
  environment := ⟨∅, ⟨some "/home", fun _ => none⟩, some "jane", ⟨2024, 3, 9⟩⟩
  resolver _ := silent
  resources := [.ofText "/t"]

def homelessArguments : List String :=
  ["create", "acme/base", "acme/tool", "--target-dir", "~ghost/out"]

def homelessRequest : Command.Request :=
  ⟨0, some "acme/base", some "acme/tool", some "~ghost/out", [], []⟩

def homelessGenerator : Generator where
  settings := { roots := [.fromRoot []], cache := .ofText "/home/.cache/stencil" }
  environment := homelessSetup.environment
  resolver := silent
  registry := { hooks := ∅, library := .empty }
  resources := [.ofText "/t"]

def homelessOptions : Data :=
  Command.options homelessRequest ∅

/-- The home of an unknown user ends the generation in a failure that is none of its faults,
although the template is in order. -/
theorem failure_escapes :
    homelessGenerator.resolver.RaisesFiles ∧
      homelessGenerator.Loads homelessOptions templateWorld ∧
      ∃ reached, homelessGenerator.generate homelessOptions templateWorld = .error .noHome reached ∧
        ∀ fault, Failure.noHome ≠ .fault fault := by
  refine ⟨raisesFiles_silent, Generator.loads_of_read (by decide +kernel), ?_⟩
  obtain ⟨_, reached, fails, rfl⟩ : (homelessGenerator.generate homelessOptions).EndsIn
      templateWorld fun failure _ => failure = .noHome := by
    decide +kernel
  exact ⟨reached, fails, nofun⟩

theorem homeless_failures_surface :
    (∃ reached, homelessGenerator.Escapes homelessOptions templateWorld .noHome reached) ∧
      ∃ failure reached, homelessGenerator.Escapes homelessOptions templateWorld failure reached ∧
        (homelessSetup.run homelessArguments templateWorld).1 = Command.endingOf failure := by
  have loads : homelessGenerator.Loads homelessOptions templateWorld :=
    Generator.loads_of_read (by decide +kernel)
  obtain ⟨_, reached, fails, rfl⟩ : (homelessGenerator.generate homelessOptions).EndsIn
      templateWorld fun failure _ => failure = .noHome := by
    decide +kernel
  obtain ⟨surface, ordered⟩ := failures_surface templateWorld
  refine ⟨⟨reached, ((surface homelessGenerator homelessOptions raisesFiles_silent loads) .noHome
    reached).1 ⟨fails, rfl⟩⟩, ?_⟩
  have orders : homelessSetup.order homelessRequest (.fromRoot templateWorld.disk.current) =
      .ok (homelessGenerator, homelessOptions) := by
    rfl
  have broken : (match (homelessSetup.run homelessArguments templateWorld).1 with
      | .broken failure => decide (failure = .noHome)
      | _ => false) = true := by
    decide +kernel
  rcases (ordered homelessSetup homelessArguments homelessRequest (by decide +kernel)).2
    homelessGenerator homelessOptions orders raisesFiles_silent loads with
    ⟨result, created⟩ | ⟨fault, failed⟩ | escapes
  · rw [created] at broken
    cases broken
  · rw [failed] at broken
    cases broken
  · exact escapes

end Project

end Archetype
