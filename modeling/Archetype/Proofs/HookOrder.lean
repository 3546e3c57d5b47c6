import Archetype.Proofs.Conduct
import Archetype.Proofs.Courses
import Archetype.Proofs.Fetching

/-!
# The order of hooks and writes

Of what a generation puts on record, the calls of hooks and the writes of files are its deeds. They
follow the phases of its schedule.

* `Generator.hooks_in_order`: the deeds of a generation begin the deeds of its schedule; each hook is
  called once at most, with what its schedule gives to it, and the last one after all copying.
* `Client.quiet_resolver`: the client of the git program calls no hook and writes no such file.
-/

namespace Archetype

def Event.isDeed : Event → Bool
  | .called _ | .wrote _ => true
  | _ => false

def Event.isCall (role : HookRole) : Event → Bool
  | .called call => call.role = role
  | _ => false

theorem Event.isDeed_of_isCall {role : HookRole} {event : Event} (call : event.isCall role = true) :
    event.isDeed = true := by
  cases event with
  | called _ => rfl
  | _ => cases call

def deeds (events : List Event) : List Event :=
  events.filter Event.isDeed

def World.Does (before after : World) (done : List Event) : Prop :=
  ∃ events, after.journal = before.journal ++ events ∧ deeds events = done

def quiet : Conduct where
  logs event := event.isDeed = false
  fails _ := True

theorem World.Does.trans {first second third : World} {done later : List Event}
    (does : first.Does second done) (goes_on : second.Does third later) :
    first.Does third (done ++ later) := by
  obtain ⟨events, logged, rfl⟩ := does
  obtain ⟨others, logged_later, rfl⟩ := goes_on
  refine ⟨events ++ others, ?_, List.filter_append ..⟩
  rw [logged_later, logged, List.append_assoc]

theorem World.Does.of_journal {first second : World} (same : second.journal = first.journal) :
    first.Does second [] :=
  ⟨[], by rw [same, List.append_nil], rfl⟩

section

variable {α : Type} {work : Action α} {before world reached : World} {done : List Event}

theorem World.Does.of_ok (does : before.Does (work.after world) done) {value : α}
    (ends : work world = .ok value reached) : before.Does reached done := by
  rwa [Action.after_of_ok ends] at does

theorem World.Does.of_error (does : before.Does (work.after world) done) {failure : Failure}
    (ends : work world = .error failure reached) : before.Does reached done := by
  rwa [Action.after, ends] at does

end

theorem deeds_of_quiet {events : List Event} (quiets : ∀ event ∈ events, event.isDeed = false) :
    deeds events = [] :=
  List.filter_eq_nil_iff.2 fun event member => by simp [quiets event member]

theorem deeds_of_copying {events : List Event} (kind : ∀ event ∈ events, event.OfCopying) :
    ∃ writes : List Path, deeds events = writes.map .wrote := by
  induction events with
  | nil => exact ⟨[], rfl⟩
  | cons event events ih =>
      obtain ⟨writes, same⟩ := ih fun other member => kind other (List.mem_cons_of_mem _ member)
      cases kind event List.mem_cons_self with
      | noted note => exact ⟨writes, same⟩
      | wrote path => exact ⟨path :: writes, congrArg _ same⟩

namespace Action

variable {α : Type} {work : Action α} {world : World}

theorem does_of_quiet (observes : work.Observes quiet) : world.Does (work.after world) [] := by
  obtain ⟨events, logged, kind⟩ := observes.log world
  exact ⟨events, logged, deeds_of_quiet kind⟩

theorem does_of_copying {conduct : Conduct} (observes : work.Observes conduct)
    (logs : ∀ event, conduct.logs event → event.OfCopying) :
    ∃ writes : List Path, world.Does (work.after world) (writes.map .wrote) := by
  obtain ⟨events, logged, kind⟩ := observes.log world
  obtain ⟨writes, same⟩ := deeds_of_copying fun event member => logs event (kind event member)
  exact ⟨writes, events, logged, same⟩

end Action

/-! ## Calls -/

namespace Hook

variable (registry : Registry)

def Registry.calls (role : HookRole) (hook? : Option String) (arguments : List Argument) :
    List Event :=
  match named? hook? with
  | none => []
  | some reference =>
    match registry.resolve reference with
    | .ok (.function function) => [.called ⟨role, reference, function.name, arguments⟩]
    | _ => []

theorem mem_calls {role : HookRole} {hook? : Option String} {arguments : List Argument}
    {event : Event} (member : event ∈ registry.calls role hook? arguments) :
    ∃ reference function, named? hook? = some reference ∧
      registry.resolve reference = .ok (.function function) ∧
        event = .called ⟨role, reference, function.name, arguments⟩ := by
  unfold Registry.calls at member
  split at member
  · cases member
  · rename_i reference named
    split at member
    · rename_i function resolves
      exact ⟨reference, function, named, resolves, List.mem_singleton.1 member⟩
    · cases member

theorem countP_calls_le (role called : HookRole) (hook? : Option String)
    (arguments : List Argument) :
    (registry.calls called hook? arguments).countP (Event.isCall role) ≤
      if called = role then 1 else 0 := by
  unfold Registry.calls
  split
  · exact Nat.zero_le _
  · split
    · simp only [List.countP_singleton, Event.isCall, decide_eq_true_eq]
      exact Nat.le_refl _
    · exact Nat.zero_le _

theorem does_invoke {role : HookRole} {hook? : Option String} {reference : String}
    (named : named? hook? = some reference) (arguments : List Argument) (world : World) :
    world.Does ((registry.invoke role reference arguments).after world)
      (registry.calls role hook? arguments) := by
  unfold Action.after Registry.calls
  simp only [Registry.invoke_eq, named]
  cases registry.resolve reference with
  | error failure => exact .of_journal rfl
  | ok target =>
      cases target with
      | value value => exact ⟨[.noted (.calling role reference)], rfl, rfl⟩
      | function function =>
          have called : world.Does (Registry.afterCall role reference arguments function world)
              [.called ⟨role, reference, function.name, arguments⟩] :=
            ⟨[.noted (.calling role reference),
              .called ⟨role, reference, function.name, arguments⟩],
              by simp [Registry.afterCall], rfl⟩
          simp only
          cases (function.run arguments world.disk).1 <;> exact called

theorem does_bind_invoke {α : Type} {role : HookRole} {hook? : Option String} {reference : String}
    (named : named? hook? = some reference) (arguments : List Argument)
    {next : Answer → Action α} (still : ∀ answer world, (next answer).after world = world)
    (world : World) :
    world.Does ((registry.invoke role reference arguments >>= next).after world)
      (registry.calls role hook? arguments) := by
  have does : world.Does _ (registry.calls role hook? arguments) :=
    does_invoke registry named arguments world
  rw [Action.after_bind]
  cases calls : registry.invoke role reference arguments world with
  | error failure reached => exact does.of_error calls
  | ok answer reached =>
      simp only [still]
      exact does.of_ok calls

theorem does_extendData (descriptor : Template.Descriptor) (data : Data) (world : World) :
    world.Does ((extendData registry descriptor data).after world)
      (registry.calls .data descriptor.dataHook? [.data data]) := by
  unfold extendData
  cases named : named? descriptor.dataHook? with
  | none =>
      rw [Registry.calls, named]
      exact .of_journal rfl
  | some reference =>
      refine does_bind_invoke registry named _ (fun answer between => ?_) world
      cases answer with
      | descriptor replacement => rfl
      | value value => cases value <;> rfl

theorem does_replaceDescriptor (descriptor : Template.Descriptor) (data : Data) (world : World) :
    world.Does ((replaceDescriptor registry descriptor data).after world)
      (registry.calls .template descriptor.templateHook? [.descriptor descriptor, .data data]) := by
  unfold replaceDescriptor
  cases named : named? descriptor.templateHook? with
  | none =>
      rw [Registry.calls, named]
      exact .of_journal rfl
  | some reference =>
      refine does_bind_invoke registry named _ (fun answer between => ?_) world
      cases answer with
      | descriptor replacement => rfl
      | value value =>
          cases value with
          | map entries =>
              simp only
              cases ofReplacement reference entries <;> rfl
          | _ => rfl

theorem does_noting (work : Action Unit) (world : World) {done : List Event}
    (does : world.Does (work.after world) done) : world.Does ((noting work).after world) done := by
  unfold Action.after noting
  cases works : work world with
  | ok value reached => exact does.of_ok works
  | error failure reached =>
      have same := does.of_error works
      cases failure with
      | fault fault =>
          have noted : reached.Does { reached with
              journal := reached.journal ++ [.noted (.postFailed fault.message)] } [] :=
            ⟨[.noted (.postFailed fault.message)], rfl, rfl⟩
          by_cases stage : fault.cause.stage = .hook
          · simp only [stage, if_true]
            rw [← List.append_nil done]
            exact same.trans noted
          · simp only [stage, if_false]
            exact same
      | _ => exact same

theorem does_finish (data : Data) (descriptor : Template.Descriptor) (world : World) :
    world.Does ((finish registry data descriptor).after world)
      (registry.calls .post descriptor.postHook? [.data data, .descriptor descriptor]) := by
  unfold finish
  cases named : named? descriptor.postHook? with
  | none =>
      rw [Registry.calls, named]
      exact .of_journal rfl
  | some reference =>
      exact does_noting _ _ (does_bind_invoke registry named _ (fun _ _ => rfl) world)

end Hook

/-! ## The client of the git program -/

namespace Git.Client

open Archetype.Action (observes_bind observes_pure observes_disk observes_record observes_of_silent)

variable (client : Client)

theorem quiet_call (arguments : List String) (directory? : Option Path) :
    (client.call arguments directory?).Observes quiet := by
  refine observes_bind (observes_record rfl) fun _ => ?_
  refine observes_bind (observes_of_silent (fun _ => rfl) fun _ _ _ _ => trivial) fun world => ?_
  refine observes_bind (observes_record rfl) fun _ => ?_
  refine observes_bind (Action.observes_setDisk _) fun _ => ?_
  cases (client.run world
    ⟨client.program :: arguments, directory?.map Path.toText⟩).1 with
  | finished status output errors => exact observes_pure _
  | noProgram => exact Action.observes_throw trivial
  | timedOut => exact Action.observes_throw trivial

theorem quiet_commit? (address : String) (reference? : Option String) :
    (client.commit? address reference?).Observes quiet := by
  unfold commit?
  simp only
  split
  · exact observes_pure _
  · refine observes_bind (client.quiet_call _ _) fun answer => ?_
    obtain ⟨status, output, errors⟩ := answer
    simp only
    split
    · exact observes_bind (Action.observes_throw trivial) fun _ => observes_pure _
    · exact observes_pure _

theorem quiet_require (arguments : List String) (directory? : Option Path)
    (cause : String → Cause) : (client.require arguments directory? cause).Observes quiet := by
  refine observes_bind (client.quiet_call _ _) fun answer => ?_
  obtain ⟨status, output, errors⟩ := answer
  simp only
  split
  · exact Action.observes_throw trivial
  · exact observes_pure ()

theorem quiet_fetch (address commit : String) (path : Path) :
    (client.fetch address commit path).Observes quiet := by
  rw [fetch_eq]
  exact observes_bind (client.quiet_require _ _ _) fun _ => client.quiet_require _ _ _

theorem quiet_undoing {path : Path} {work : Action Unit} (observes : work.Observes quiet) :
    (undoing path work).Observes quiet where
  log world := by
    have same : ((undoing path work).after world).journal = (work.after world).journal := by
      unfold Action.after undoing
      cases work world with
      | ok value reached => rfl
      | error failure reached => cases failure <;> rfl
    rw [same]
    exact observes.log world
  failure _ _ _ _ := trivial

theorem quiet_resolver : client.resolver.Observes quiet where
  address _ := observes_pure _
  commit address reference? := client.quiet_commit? address reference?
  checkOut address name commit := by
    have checks : (client.checkOut address name commit).Observes quiet := by
      have fetches : (do
          Action.makeDirectories (client.checkoutPath name commit).parent
          Action.note (.cloning address (String.ofList (commit.toList.take 12)))
          undoing (client.checkoutPath name commit)
            (client.fetch address commit (client.checkoutPath name commit))
          return client.checkoutPath name commit : Action Path).Observes quiet :=
        observes_bind (Action.observes_makeDirectories (fun _ => trivial) (Or.inr trivial)) fun _ =>
          observes_bind (observes_record rfl) fun _ =>
            observes_bind (quiet_undoing (client.quiet_fetch _ _ _)) fun _ => observes_pure _
      refine observes_bind observes_disk fun disk => ?_
      split
      · exact observes_bind (observes_record rfl) fun _ => observes_pure _
      · exact fetches
    exact checks.mono (fun _ quiets => quiets) fun _ _ => Or.inr trivial

end Git.Client

/-! ## The deeds of a schedule -/

namespace Project

open Archetype.Template (Descriptor Entry)
open Archetype.Hook (Adds Replaces)

namespace Phase

def all : List Phase :=
  [extending, replacing, copying, finishing]

@[simp] def before : Phase → List Phase
  | extending => []
  | replacing => [extending]
  | copying => [extending, replacing]
  | finishing => [extending, replacing, copying]

@[simp] def upTo (phase : Phase) : List Phase :=
  phase.before ++ [phase]

theorem upTo_prefix_all (phase : Phase) : phase.upTo <+: all := by
  cases phase <;> decide

end Phase

namespace Schedule

variable (schedule : Schedule)

@[simp] def calls (registry : Hook.Registry) (role : HookRole) : List Event :=
  registry.calls role (schedule.hook? role) (schedule.arguments role)

@[simp] def deedsOf (registry : Hook.Registry) (writes : List Path) : Phase → List Event
  | .extending => schedule.calls registry .data
  | .replacing => schedule.calls registry .template
  | .copying => writes.map .wrote
  | .finishing => schedule.calls registry .post

variable {schedule} {registry : Hook.Registry} {writes : List Path}

theorem countP_deedsOf_le (role : HookRole) :
    (Phase.all.flatMap (schedule.deedsOf registry writes)).countP (Event.isCall role) ≤ 1 := by
  have data := Hook.countP_calls_le registry role .data (schedule.hook? .data)
    (schedule.arguments .data)
  have template := Hook.countP_calls_le registry role .template (schedule.hook? .template)
    (schedule.arguments .template)
  have post := Hook.countP_calls_le registry role .post (schedule.hook? .post)
    (schedule.arguments .post)
  have copying : (writes.map Event.wrote).countP (Event.isCall role) = 0 :=
    List.countP_eq_zero.2 fun event member => by
      obtain ⟨path, -, rfl⟩ := List.mem_map.1 member
      nofun
  simp only [Phase.all, List.flatMap_cons, List.flatMap_nil, List.append_nil, deedsOf, calls,
    List.countP_append, copying]
  cases role <;> simp only [reduceCtorEq, if_true, if_false] at data template post <;> omega

theorem of_called {call : HookCall}
    (member : Event.called call ∈ Phase.all.flatMap (schedule.deedsOf registry writes)) :
    Hook.named? (schedule.hook? call.role) = some call.reference ∧
      call.arguments = schedule.arguments call.role := by
  obtain ⟨phase, -, inside⟩ := List.mem_flatMap.1 member
  have called (role : HookRole) (inside : Event.called call ∈ schedule.calls registry role) :
      Hook.named? (schedule.hook? call.role) = some call.reference ∧
        call.arguments = schedule.arguments call.role := by
    obtain ⟨reference, function, named, -, same⟩ := Hook.mem_calls registry inside
    cases same
    exact ⟨named, rfl⟩
  cases phase with
  | extending => exact called .data inside
  | replacing => exact called .template inside
  | copying =>
      obtain ⟨path, -, same⟩ := List.mem_map.1 inside
      cases same
  | finishing => exact called .post inside

end Schedule

namespace Generator

variable {generator : Generator} {options : Data} {world : World} {schedule : Schedule}

theorem searches_quiet : quiet.Searches where
  notes _ := rfl
  asks _ := rfl
  faults _ := trivial

theorem observes_resolveTarget (environment : Environment) (data : Data) :
    (resolveTarget environment data).Observes ⟨Event.OfCopying, fun _ => True⟩ := by
  refine Action.observes_of_silent (fun world => ?_) fun _ _ _ _ => trivial
  rw [Action.after, resolveTarget_eq]
  cases environment.expand (.ofText (targetNamed data)) with
  | error failure => rfl
  | ok path =>
      dsimp only
      cases Disk.hasNull path.segments with
      | true => rfl
      | false => cases world.disk.resolve path <;> rfl

theorem observes_build (draft : Draft) :
    (generator.build draft).Observes ⟨Event.OfCopying, fun _ => True⟩ := by
  refine Action.observes_bind (observes_resolveTarget _ _) fun target => ?_
  refine Action.observes_bind (Action.observes_record (.noted _)) fun _ => ?_
  refine Action.observes_bind ?_ fun written => Action.observes_pure _
  exact (draft.descriptor.observes_copyFiles generator.copier draft.location.directory target
    (.ofData draft.data)).mono (fun _ kind => kind) fun _ _ => trivial

theorem does_build (draft : Draft) (drafted : World) :
    ∃ writes : List Path,
      drafted.Does ((generator.build draft).after drafted) (writes.map .wrote) :=
  Action.does_of_copying (observes_build draft) fun _ kind => kind

section

variable (quiets : generator.resolver.Observes quiet)

include quiets

theorem does_read : world.Does ((generator.read options).after world) [] :=
  Action.does_of_quiet (Action.observes_bind (observes_find searches_quiet quiets options)
    fun _ => Descriptor.observes_load (fun _ => trivial) _)

theorem does_extending {ready : World}
    (begins : generator.Reaches options world schedule .extending ready) :
    world.Does ready [] := by
  cases begins with
  | extending finds loads =>
      have reads : generator.read options world = .ok schedule.loaded ready :=
        (Action.bind_ok finds _).trans loads
      exact (does_read quiets).of_ok reads

theorem does_replacing {called : World}
    (begins : generator.Reaches options world schedule .replacing called) :
    world.Does called (schedule.calls generator.registry .data) := by
  cases begins with
  | replacing before adds =>
      exact (does_extending quiets before).trans
        ((Hook.does_extendData generator.registry _ _ _).of_ok (Hook.extendData_of_adds adds))

theorem does_copying {drafted : World}
    (begins : generator.Reaches options world schedule .copying drafted) :
    world.Does drafted
      (schedule.calls generator.registry .data ++ schedule.calls generator.registry .template) := by
  cases begins with
  | copying before replaces =>
      exact (does_replacing quiets before).trans
        ((Hook.does_replaceDescriptor generator.registry _ _ _).of_ok
          (Hook.replaceDescriptor_of_replaces replaces))

theorem does_finishing {built : World}
    (begins : generator.Reaches options world schedule .finishing built) :
    ∃ writes : List Path, world.Does built (schedule.calls generator.registry .data ++
      schedule.calls generator.registry .template ++ writes.map .wrote) := by
  cases begins with
  | @finishing drafted _ before resolves copied =>
      obtain ⟨writes, does⟩ := generator.does_build schedule.draft drafted
      have builds : generator.build schedule.draft drafted =
          .ok (schedule.target, schedule.written) built :=
        build_eq_ok_iff.2 ⟨resolves, copied⟩
      exact ⟨writes, (does_copying quiets before).trans (does.of_ok builds)⟩

theorem does_of_ends {phase : Phase} {ending : EStateM.Result Failure World Result}
    (ends : generator.Ends options world schedule phase ending) :
    ∃ begun writes, generator.Reaches options world schedule phase begun ∧
      world.Does ((generator.generate options).after world)
        (phase.upTo.flatMap (schedule.deedsOf generator.registry writes)) := by
  have generates := generate_of_ends ends
  unfold Action.after
  rw [generates]
  cases ends with
  | unextended begins fails =>
      have does := (does_extending quiets begins).trans
        ((Hook.does_extendData generator.registry _ _ _).of_error fails)
      exact ⟨_, [], begins, by simpa using does⟩
  | unreplaced begins fails =>
      have does := (does_replacing quiets begins).trans
        ((Hook.does_replaceDescriptor generator.registry _ _ _).of_error fails)
      exact ⟨_, [], begins, by simpa using does⟩
  | @unbuilt drafted _ _ begins fails =>
      obtain ⟨writes, writing⟩ := generator.does_build schedule.draft drafted
      have does := (does_copying quiets begins).trans (writing.of_error fails)
      exact ⟨_, writes, begins, by simpa using does⟩
  | unfinished begins fails =>
      obtain ⟨writes, before⟩ := does_finishing quiets begins
      have does := before.trans ((Hook.does_finish generator.registry _ _ _).of_error fails)
      exact ⟨_, writes, begins, by simpa using does⟩
  | finished begins finishes =>
      obtain ⟨writes, before⟩ := does_finishing quiets begins
      have does := before.trans ((Hook.does_finish generator.registry _ _ _).of_ok finishes)
      exact ⟨_, writes, begins, by simpa using does⟩

end

theorem finishing_of_post {phase : Phase} {writes : List Path} {call : HookCall}
    (member : Event.called call ∈
      phase.upTo.flatMap (schedule.deedsOf generator.registry writes)) (post : call.role = .post) :
    phase = .finishing := by
  have other {role : HookRole} (inside : Event.called call ∈ schedule.calls generator.registry role)
      (apart : role ≠ .post) : False := by
    obtain ⟨reference, function, -, -, same⟩ := Hook.mem_calls generator.registry inside
    cases same
    exact apart post
  obtain ⟨begun, inside, member⟩ := List.mem_flatMap.1 member
  cases begun with
  | extending => exact (other member nofun).elim
  | replacing => exact (other member nofun).elim
  | copying =>
      obtain ⟨path, -, same⟩ := List.mem_map.1 member
      cases same
  | finishing => cases phase <;> simp at inside ⊢

/-- What a generation does follows its schedule: the hook for data and the hook for descriptors that
the descriptor names that is read, the writes of the entries of the final descriptor, and the last
hook that the final descriptor names. -/
theorem hooks_in_order (quiets : generator.resolver.Observes quiet) (options : Data)
    (world : World) :
    ∃ events, ((generator.generate options).after world).journal = world.journal ++ events ∧
      (∀ role, events.countP (Event.isCall role) ≤ 1) ∧
      ((deeds events = [] ∧ ∃ failure reached,
          generator.read options world = .error failure reached) ∨
        ∃ schedule phase writes,
          generator.Ends options world schedule phase (generator.generate options world) ∧
          deeds events = phase.upTo.flatMap (schedule.deedsOf generator.registry writes) ∧
          deeds events <+: Phase.all.flatMap (schedule.deedsOf generator.registry writes) ∧
          ∀ call, .called call ∈ events →
            Hook.named? (schedule.hook? call.role) = some call.reference ∧
            call.arguments = schedule.arguments call.role ∧
            (call.role = .post → phase = .finishing)) := by
  -- calls are deeds, so it is enough to count in the deeds
  have counts (role : HookRole) (events : List Event) :
      events.countP (Event.isCall role) = (deeds events).countP (Event.isCall role) := by
    rw [deeds, List.countP_filter]
    exact List.countP_congr fun event _ => by
      simpa using Event.isDeed_of_isCall
  rcases generate_eq_iff.1 (rfl : generator.generate options world = _) with
    ⟨failure, reached, unread, fails⟩ | ⟨schedule, phase, ends⟩
  · have reads : world.Does ((generator.read options).after world) [] := does_read quiets
    obtain ⟨events, logged, none_done⟩ := reads.of_error unread
    refine ⟨events, ?_, fun role => ?_, Or.inl ⟨none_done, failure, reached, unread⟩⟩
    · rw [Action.after, fails]
      exact logged
    · rw [counts, none_done]
      exact Nat.zero_le _
  · obtain ⟨-, writes, -, events, logged, done⟩ := does_of_ends quiets ends
    -- the deeds up to the last phase are the start of those of all phases
    have begins :
        deeds events <+: Phase.all.flatMap (schedule.deedsOf generator.registry writes) := by
      obtain ⟨later, whole⟩ := Phase.upTo_prefix_all phase
      rw [done, ← whole, List.flatMap_append]
      exact List.prefix_append _ _
    refine ⟨events, logged, fun role => ?_, Or.inr ⟨schedule, phase, writes, ends, done, begins, ?_⟩⟩
    · rw [counts]
      exact Nat.le_trans begins.sublist.countP_le (Schedule.countP_deedsOf_le role)
    · intro call member
      have deed : Event.called call ∈ deeds events := List.mem_filter.2 ⟨member, rfl⟩
      obtain ⟨named, given⟩ := Schedule.of_called (begins.subset deed)
      exact ⟨named, given, finishing_of_post (done ▸ deed)⟩

end Generator

/-! ## A descriptor that names other hooks than the one it replaces -/

def answering (name : String) (answer : Hook.Answer) : String × Hook.Target :=
  (name, .function ⟨name, fun _ disk => (.ok answer, disk)⟩)

def swappingGenerator : Generator where
  settings := ⟨[.ofText "/t"], .ofText "/cache", "lib", "net.", "0.1.0"⟩
  environment := ⟨∅, ⟨none, fun _ => none⟩, some "jane", ⟨2024, 3, 9⟩⟩
  resolver := Git.Client.resolver
    { cache := .ofText "/cache", run := fun world _ => (.noProgram, world.disk) }
  registry := { hooks := Table.ofList [
    answering "extend" (.value (.map [(.text "level", .text "low")])),
    answering "swap" (.descriptor
      { dataHook? := some "again", templateHook? := some "again", postHook? := some "last" }),
    answering "again" (.value .null), answering "last" (.value .null),
    answering "first" (.value .null)] }

def swappingOptions : Data :=
  Data.ofEntries [(.text "template", .text "acme/base"), (.text "name", .text "acme/tool"),
    (.text "target-dir", .text "/out")]

def swappingWorld : World where
  disk := .holding
    [(["t"], .directory), (["t", "acme"], .directory), (["t", "acme", "base"], .directory),
      (["t", "acme", "base", "template.yaml"],
        .file "data_fn: extend\ntemplate_fn: swap\npost_process_fn: first\n".toUTF8 false),
      (["t", "acme", "base", "root"], .directory),
      (["t", "acme", "base", "root", "one.txt"], .file "".toUTF8 false)]
    [] []

def told : Event → Option (String × String)
  | .called call => some (call.role.name, call.reference)
  | .wrote path => some ("write", path.toText)
  | _ => none

theorem swapped_hooks_in_order :
    swappingGenerator.resolver.Observes quiet ∧
      ∃ events schedule phase writes,
        ((swappingGenerator.generate swappingOptions).after swappingWorld).journal =
          swappingWorld.journal ++ events ∧
        events.filterMap told = [("data_fn", "extend"), ("template_fn", "swap"),
          ("write", "/out/one.txt"), ("post_process_fn", "last")] ∧
        swappingGenerator.Ends swappingOptions swappingWorld schedule phase
          (swappingGenerator.generate swappingOptions swappingWorld) ∧
        deeds events =
          phase.upTo.flatMap (schedule.deedsOf swappingGenerator.registry writes) := by
  have quiets : swappingGenerator.resolver.Observes quiet := Git.Client.quiet_resolver _
  have journal : ((swappingGenerator.generate swappingOptions).after
      swappingWorld).journal.filterMap told = [("data_fn", "extend"), ("template_fn", "swap"),
        ("write", "/out/one.txt"), ("post_process_fn", "last")] := by
    decide +kernel
  have reads : (swappingGenerator.read swappingOptions).Yields swappingWorld fun _ => True := by
    decide +kernel
  obtain ⟨events, logged, -, ⟨-, failure, reached, unread⟩ | ⟨schedule, phase, writes, ends, done, -⟩⟩ :=
    Generator.hooks_in_order quiets swappingOptions swappingWorld
  · obtain ⟨loaded, ready, read, -⟩ := reads
    rw [unread] at read
    cases read
  · rw [logged] at journal
    exact ⟨quiets, events, schedule, phase, writes, logged, journal, ends, done⟩

end Project

end Archetype
