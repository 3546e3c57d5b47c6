import Archetype.Proofs.Raising
import Mathlib.Logic.Relation

namespace Archetype

namespace Action

variable {α β : Type} {step : World → World → Prop}

def MovesBy (step : World → World → Prop) (work : Action α) : Prop :=
  ∀ world, Relation.ReflTransGen step world (work.after world)

theorem movesBy_bind {work : Action α} {next : α → Action β} (first : work.MovesBy step)
    (rest : ∀ value, (next value).MovesBy step) : (work >>= next).MovesBy step := by
  intro world
  have moves := first world
  rw [after_bind]
  unfold after at moves
  cases works : work world with
  | ok value between =>
      rw [works] at moves
      exact moves.trans (rest value between)
  | error failure between =>
      rw [works] at moves
      exact moves

theorem movesBy_pure (value : α) : (pure value : Action α).MovesBy step :=
  fun _ => .refl

theorem composes_movesBy (step : World → World → Prop) :
    Composes fun work => work.MovesBy step :=
  ⟨movesBy_pure, movesBy_bind⟩

theorem movesBy_throw (failure : Failure) : (throw failure : Action α).MovesBy step :=
  fun _ => .refl

theorem movesBy_disk : disk.MovesBy step := fun _ => .refl

theorem movesBy_granted (shown : String) (result : Except Refusal α) :
    (granted shown result).MovesBy step := by
  cases result with
  | ok value => exact movesBy_pure value
  | error refused => exact movesBy_throw _

theorem movesBy_ofExcept (result : Except Failure α) : (ofExcept result).MovesBy step := by
  cases result with
  | ok value => exact movesBy_pure value
  | error failure => exact movesBy_throw failure

theorem movesBy_ofFault (result : Except Fault α) : (ofFault result).MovesBy step := by
  cases result with
  | ok value => exact movesBy_pure value
  | error fault => exact movesBy_throw _

theorem after_explaining (explain : FileError → Failure) (work : Action α) (world : World) :
    (explaining explain work).after world = work.after world := by
  unfold after explaining
  cases work world with
  | ok value reached => rfl
  | error failure reached => cases failure <;> rfl

theorem movesBy_explaining (explain : FileError → Failure) {work : Action α}
    (moves : work.MovesBy step) : (explaining explain work).MovesBy step := by
  intro world
  rw [after_explaining]
  exact moves world

end Action

namespace Project

open Archetype.Action (movesBy_bind movesBy_pure movesBy_throw movesBy_disk raises_bind)
open Archetype.Template (Descriptor)

/-- What a world becomes when something is put on record, when the resolver does something, or when
the function of a hook is called. -/
inductive Generator.PartnerStep (generator : Generator) : World → World → Prop
  | recorded (event : Event) (world : World) :
      PartnerStep generator world { world with journal := world.journal ++ [event] }
  | addressed (name : String) (world : World) :
      PartnerStep generator world ((generator.resolver.address? name).after world)
  | referred (address : String) (reference? : Option String) (world : World) :
      PartnerStep generator world ((generator.resolver.commit? address reference?).after world)
  | checkedOut (address name commit : String) (world : World) :
      PartnerStep generator world ((generator.resolver.checkOut address name commit).after world)
  | called {reference : String} {function : Hook.Function} (arguments : List Argument)
      (world : World)
      (resolves : generator.registry.resolve reference = .ok (.function function)) :
      PartnerStep generator world
        { world with disk := (function.run arguments world.disk).2 }

namespace Generator

variable (generator : Generator)

theorem movesBy_record (event : Event) :
    (Action.record event).MovesBy generator.PartnerStep :=
  fun world => .single (.recorded event world)

theorem movesBy_fault {α : Type} (cause : Cause) (subject? : Option String) :
    (Action.fault cause subject? : Action α).MovesBy generator.PartnerStep :=
  movesBy_throw _

theorem movesBy_invoke (role : HookRole) (reference : String) (arguments : List Argument) :
    (generator.registry.invoke role reference arguments).MovesBy generator.PartnerStep := by
  intro world
  have called := Hook.Registry.invoke_eq generator.registry role reference arguments world
  unfold Action.after
  rw [called]
  cases resolved : generator.registry.resolve reference with
  | error failure => exact .refl
  | ok target =>
      cases target with
      | value value => exact .single (.recorded _ world)
      | function function =>
          have moves : Relation.ReflTransGen generator.PartnerStep world
              (Hook.Registry.afterCall role reference arguments function world) :=
            ((Relation.ReflTransGen.single (.recorded (.noted (.calling role reference)) world)).tail
              (.recorded (.called ⟨role, reference, function.name, arguments⟩) _)).tail
                (.called arguments _ resolved)
          simp only
          split
          · rename_i ends
            split at ends <;> cases ends
            exact moves
          · rename_i ends
            split at ends <;> cases ends
            exact moves

theorem movesBy_findCommit (name address : String) (reference? : Option String) :
    (generator.resolver.findCommit name address reference?).MovesBy generator.PartnerStep := by
  have asks (reference? : Option String) : (generator.resolver.askCommit address reference?).MovesBy
      generator.PartnerStep :=
    movesBy_bind (generator.movesBy_record _) fun _ world =>
      .single (.referred address reference? world)
  exact (Action.composes_movesBy generator.PartnerStep).findCommit asks
    (fun _ => generator.movesBy_record _) fun _ => generator.movesBy_fault _ _

theorem movesBy_checkOut? (name : String) (reference? : Option String) :
    (generator.resolver.checkOut? name reference?).MovesBy generator.PartnerStep := by
  refine (Action.composes_movesBy generator.PartnerStep).checkOut?
    (movesBy_bind (generator.movesBy_record _) fun _ world => .single (.addressed name world))
    (generator.movesBy_record _) (fun address => generator.movesBy_findCommit name address reference?)
    fun address commit => Action.movesBy_explaining _ ?_
  exact movesBy_bind (generator.movesBy_record _) fun _ world =>
    .single (.checkedOut address name commit world)

theorem movesBy_find (options : Data) : (generator.find options).MovesBy generator.PartnerStep := by
  refine movesBy_bind ?_ fun prepared => movesBy_bind ?_ fun location => movesBy_pure _
  · unfold prepare
    split
    · refine movesBy_bind (Action.movesBy_ofFault _) fun identity => ?_
      refine movesBy_bind (Action.movesBy_ofFault _) fun template => ?_
      exact movesBy_bind (generator.movesBy_checkOut? _ _) fun checkout? => movesBy_pure _
    · exact generator.movesBy_fault _ _
  · refine movesBy_bind movesBy_disk fun disk => ?_
    split
    · exact movesBy_bind (generator.movesBy_record _) fun _ => movesBy_pure _
    · exact generator.movesBy_fault _ _

theorem movesBy_load (path : Path) : (Descriptor.load path).MovesBy generator.PartnerStep := by
  refine movesBy_bind (Action.movesBy_explaining _ ?_) fun read => Action.movesBy_ofExcept _
  exact movesBy_bind movesBy_disk fun disk => Action.movesBy_granted _ _

theorem movesBy_draftFrom (found : Prepared × Template.Location) (loaded : Descriptor) :
    (generator.draftFrom found loaded).MovesBy generator.PartnerStep := by
  refine movesBy_bind (movesBy_bind ?_ fun extended => movesBy_bind ?_ fun _ => movesBy_pure _)
    fun _ => movesBy_pure _
  · unfold Hook.extendData
    split
    · exact movesBy_pure _
    · refine movesBy_bind (generator.movesBy_invoke _ _ _) fun answer => ?_
      split
      · exact movesBy_pure _
      · exact movesBy_pure _
      · exact generator.movesBy_fault _ _
      · exact generator.movesBy_fault _ _
  · unfold Hook.replaceDescriptor
    split
    · exact movesBy_pure _
    · refine movesBy_bind (generator.movesBy_invoke _ _ _) fun answer => ?_
      split
      · exact movesBy_pure _
      · exact Action.movesBy_ofExcept _
      · exact generator.movesBy_fault _ _

theorem movesBy_draft (options : Data) :
    (generator.draft options).MovesBy generator.PartnerStep :=
  movesBy_bind (generator.movesBy_find options) fun found =>
    movesBy_bind (generator.movesBy_load _) fun loaded => generator.movesBy_draftFrom found loaded

end Generator

end Project

namespace Git.Resolver

open Archetype.Action (raises_bind raises_pure raises_record)

abbrev OfRemote (fault : Fault) : Prop :=
  fault.cause.stage = .remote

structure RaisesRemote (resolver : Resolver) : Prop where
  address : ∀ name, (resolver.address? name).Raises OfRemote
  commit : ∀ address reference?, (resolver.commit? address reference?).Raises OfRemote
  checkOut : ∀ address name commit, (resolver.checkOut address name commit).Raises OfRemote

variable {resolver : Resolver}

theorem RaisesRemote.findCommit (remote : resolver.RaisesRemote) (name address : String)
    (reference? : Option String) :
    (resolver.findCommit name address reference?).Raises OfRemote := by
  have asks (reference? : Option String) :
      (resolver.askCommit address reference?).Raises OfRemote :=
    raises_bind (raises_record _) fun _ => remote.commit address reference?
  exact (Action.composes_raises OfRemote).findCommit asks (fun _ => raises_record _)
    fun _ => Action.raises_fault rfl

theorem RaisesRemote.checkOut? (remote : resolver.RaisesRemote) (name : String)
    (reference? : Option String) : (resolver.checkOut? name reference?).Raises OfRemote := by
  refine (Action.composes_raises OfRemote).checkOut?
    (raises_bind (raises_record _) fun _ => remote.address name) (raises_record _)
    (fun address => remote.findCommit name address reference?) fun address commit => ?_
  refine Action.raises_explaining ?_ ?_
  · exact raises_bind (raises_record _) fun _ => remote.checkOut address name commit
  · rintro error fault ⟨⟩
    rfl

end Git.Resolver

namespace Project

open Archetype.Action (movesBy_bind movesBy_pure movesBy_throw movesBy_disk raises_bind)
open Archetype.Template (Descriptor)

def OfOptions (fault : Fault) : Prop :=
  fault.cause.stage = .options ∨ fault.cause.stage = .identity

theorem stage_of_resolve {groupPrefix token : String} {addressOf : String → Option String}
    {fault : Fault} (fails : Identity.resolve groupPrefix addressOf token = .error fault) :
    fault.cause.stage = .identity := by
  unfold Identity.resolve at fails
  simp only at fails
  split at fails
  · cases fails
    rfl
  · split at fails <;> cases fails
    rfl

theorem stage_of_parse {space text : String} {fault : Fault}
    (fails : Template.TemplateName.parse space text = .error fault) :
    fault.cause.stage = .options := by
  unfold Template.TemplateName.parse at fails
  simp only at fails
  split at fails <;> cases fails
  rfl

theorem fails_of_prepare {settings : Settings} {environment : Environment}
    {resolver : Git.Resolver} (remote : resolver.RaisesRemote) {options : Data}
    {world reached : World} {fault : Fault}
    (fails : prepare settings environment resolver options world = .error (.fault fault) reached) :
    (OfOptions fault ∧ reached = world ∧ ∀ other : Git.Resolver,
        prepare settings environment other options world = .error (.fault fault) world) ∨
      Git.Resolver.OfRemote fault := by
  unfold prepare at fails ⊢
  rcases given : option? options "template" with - | template <;>
    rcases named : option? options "name" with - | name <;> simp only [given, named] at fails ⊢
  · cases fails
    exact Or.inl ⟨Or.inl rfl, rfl, fun _ => rfl⟩
  · cases fails
    exact Or.inl ⟨Or.inl rfl, rfl, fun _ => rfl⟩
  · cases fails
    exact Or.inl ⟨Or.inl rfl, rfl, fun _ => rfl⟩
  · cases identifies : Identity.resolve settings.groupPrefix Git.address? name.toText with
    | error found =>
        rw [identifies] at fails
        cases fails
        exact Or.inl ⟨Or.inr (stage_of_resolve identifies), rfl, fun _ => rfl⟩
    | ok identity =>
        cases parses : Template.TemplateName.parse settings.space template.toText with
        | error found =>
            rw [identifies, parses] at fails
            cases fails
            exact Or.inl ⟨Or.inl (stage_of_parse parses), rfl, fun _ => rfl⟩
        | ok named =>
            rw [identifies, parses] at fails
            exact Or.inr (raises_bind (remote.checkOut? named.repository named.reference?)
              (fun _ => Action.raises_pure _) world fault reached fails)

namespace Generator

variable {generator : Generator}

def withPartners (generator : Generator) (resolver : Git.Resolver) (registry : Hook.Registry) :
    Generator :=
  { generator with resolver, registry }

theorem fails_of_draft (remote : generator.resolver.RaisesRemote) {options : Data}
    {world reached : World} {fault : Fault}
    (fails : generator.draft options world = .error (.fault fault) reached) :
    (OfOptions fault ∧ reached = world ∧ ∀ resolver registry,
        (generator.withPartners resolver registry).generate options world =
          .error (.fault fault) world) ∨
      Git.Resolver.OfRemote fault ∨ fault.cause.stage = .location ∨
        Template.OfDescriptor fault ∨ generator.registry.OfHooks fault := by
  unfold draft find at fails
  rw [bind_assoc] at fails
  cases prepares : prepare generator.settings generator.environment generator.resolver options
      world with
  | error failure between =>
      rw [Action.bind_error prepares] at fails
      cases fails
      rcases fails_of_prepare remote prepares with ⟨early, same, others⟩ | belongs
      · exact Or.inl ⟨early, same, fun resolver _ => Action.bind_error (others resolver)⟩
      · exact Or.inr (Or.inl belongs)
  | ok prepared between =>
      rw [Action.bind_ok prepares] at fails
      refine Or.inr (Or.inr ?_)
      have raises : ((do
          let location ← Template.locate generator.resources (prepared.roots.map .path)
            prepared.template.template
          let loaded ← Descriptor.load location.descriptor
          generator.draftFrom (prepared, location) loaded) : Action Draft).Raises fun fault =>
            fault.cause.stage = .location ∨ Template.OfDescriptor fault ∨
              generator.registry.OfHooks fault := by
        refine raises_bind ((Template.raises_locate _ _ _).mono fun _ => Or.inl) fun location => ?_
        refine raises_bind ((Descriptor.raises_load _).mono fun _ => Or.inr ∘ Or.inl)
          fun loaded => ?_
        exact raises_bind ((Hook.raises_apply _ _ _ _).mono fun _ => Or.inr ∘ Or.inr)
          fun _ => Action.raises_pure _
      simp only [bind_assoc, pure_bind] at fails
      exact raises between fault reached fails

theorem faultless_resolveTarget (environment : Environment) (data : Data) :
    (resolveTarget environment data).Faultless := by
  refine raises_bind (Action.raises_ofExcept ?_) fun path => ?_
  · intro fault fails
    unfold Environment.expand at fails
    split at fails <;> cases fails
  · cases Disk.hasNull path.segments with
    | true =>
        refine raises_bind (Action.faultless_throw rfl) fun _ =>
          raises_bind Action.raises_disk fun disk => ?_
        split
        · exact Action.raises_pure _
        · exact Action.faultless_throw rfl
    | false =>
        refine raises_bind Action.raises_disk fun disk => ?_
        split
        · exact Action.raises_pure _
        · exact Action.faultless_throw rfl

theorem raises_realize (draft : Draft) :
    (generator.realize draft).Raises fun fault => Template.OfTransform fault ∨
      ∃ name, generator.registry.library.modules name = .error (.raised (.fault fault)) := by
  refine raises_bind ?_ fun (target, written) => ?_
  · refine raises_bind (faultless_resolveTarget _ _).of_faultless fun target => ?_
    refine raises_bind (Action.raises_record _) fun _ => ?_
    exact raises_bind ((Descriptor.raises_copyFiles _ _ _ _ _).mono fun _ => Or.inl)
      fun _ => Action.raises_pure _
  · exact raises_bind ((Hook.raises_finish _ _ _).mono fun _ => Or.inr)
      fun _ => Action.raises_pure _

/-- A fault that comes before the copying of files leaves the world as the partners of the
generator have made it, and nothing that comes later ends in such a fault. If the options are at
fault, no partner has been asked: the generation ends in the same way whatever they do. All this
needs that no module of a hook ends in the fault while it is imported. -/
theorem generate_fails_early (remote : generator.resolver.RaisesRemote) {options : Data}
    {world reached : World} {fault : Fault}
    (unraised : ∀ name, generator.registry.library.modules name ≠ .error (.raised (.fault fault)))
    (early : fault.cause.stage ∈
      [Stage.options, .identity, .remote, .location, .descriptor, .hook])
    (fails : generator.generate options world = .error (.fault fault) reached) :
    generator.draft options world = .error (.fault fault) reached ∧
      (∀ draft before after, generator.realize draft before ≠ .error (.fault fault) after) ∧
      Relation.ReflTransGen generator.PartnerStep world reached ∧
      (OfOptions fault → reached = world ∧ ∀ resolver registry,
        (generator.withPartners resolver registry).generate options world =
          .error (.fault fault) world) := by
  -- what comes later ends in faults of transforms, or in what a module of a hook raises
  have later (draft : Draft) (before after : World) :
      generator.realize draft before ≠ .error (.fault fault) after := by
    intro ends
    rcases generator.raises_realize draft before fault after ends with transform | ⟨name, raised⟩
    · rw [transform] at early
      simp at early
    · exact unraised name raised
  rw [generate_eq] at fails
  have drafts : generator.draft options world = .error (.fault fault) reached := by
    cases drafts : generator.draft options world with
    | ok draft between =>
        rw [Action.bind_ok drafts] at fails
        exact absurd fails (later draft between reached)
    | error failure between =>
        rw [Action.bind_error drafts] at fails
        cases fails
        rfl
  have moves := generator.movesBy_draft options world
  rw [Action.after, drafts] at moves
  refine ⟨drafts, later, moves, fun belongs => ?_⟩
  rcases fails_of_draft remote drafts with ⟨-, unmoved⟩ | others
  · exact unmoved
  · -- all other faults that a draft ends in belong to a stage that is not one of options
    exfalso
    have apart {stage : Stage} (found : fault.cause.stage = stage)
        (other : stage ≠ .options ∧ stage ≠ .identity) : False :=
      belongs.elim (fun same => other.1 (found.symm.trans same))
        fun same => other.2 (found.symm.trans same)
    rcases others with stage | stage | stage | stage | ⟨name, raised⟩
    · exact apart stage (by decide)
    · exact apart stage (by decide)
    · exact apart stage (by decide)
    · exact apart stage (by decide)
    · exact unraised name raised

end Generator

def spilling : Hook.Function :=
  ⟨"spill", fun _ disk => (.error (.other "spilled" []), disk.put ["spilled"] .directory)⟩

def spilled : Cause :=
  .hookFailed "data_fn" "spill" "spilled" []

def spillingGenerator : Generator where
  settings := ⟨[.ofText "/t"], .ofText "/cache", "lib", "net.", "0.1.0"⟩
  environment := ⟨∅, ⟨none, fun _ => none⟩, some "jane", ⟨2024, 3, 9⟩⟩
  resolver := ⟨fun _ => return none, fun _ _ => return none, fun _ _ _ => return .ofText "/"⟩
  registry := { hooks := Table.ofList [("spill", .function spilling)] }

def spillingOptions : Data :=
  Data.ofEntries [(.text "template", .text "acme/base"), (.text "name", .text "acme/tool"),
    (.text "target-dir", .text "/out")]

def spillingWorld : World where
  disk := .holding
    [(["t"], .directory), (["t", "acme"], .directory), (["t", "acme", "base"], .directory),
      (["t", "acme", "base", "template.yaml"], .file "data_fn: spill".toUTF8 false),
      (["t", "acme", "base", "root"], .directory),
      (["t", "acme", "base", "root", "one.txt"], .file "".toUTF8 false)]
    [] []

theorem raisesRemote_spilling : spillingGenerator.resolver.RaisesRemote where
  address _ := Action.raises_pure none
  commit _ _ := Action.raises_pure none
  checkOut _ _ _ := Action.raises_pure _

theorem generate_spills :
    ∃ reached, spillingGenerator.generate spillingOptions spillingWorld =
        .error (.of spilled (some "spill")) reached ∧
      reached.disk.node? ["spilled"] = some .directory ∧ reached.disk.node? ["out"] = none ∧
      spillingGenerator.draft spillingOptions spillingWorld =
        .error (.of spilled (some "spill")) reached ∧
      Relation.ReflTransGen spillingGenerator.PartnerStep spillingWorld reached := by
  obtain ⟨_, reached, fails, rfl, written, absent⟩ :
      (spillingGenerator.generate spillingOptions).EndsIn spillingWorld fun failure reached =>
        failure = .of spilled (some "spill") ∧
          reached.disk.node? ["spilled"] = some .directory ∧ reached.disk.node? ["out"] = none := by
    decide +kernel
  obtain ⟨drafts, -, moves, -⟩ := Generator.generate_fails_early raisesRemote_spilling
    (fun _ => nofun) (by decide) fails
  exact ⟨reached, fails, written, absent, drafts, moves⟩

def misconfigured : Fault :=
  ⟨.reported .options none "not configured", none⟩

def lateGenerator : Generator :=
  { spillingGenerator with registry :=
      { library := { Hook.Library.empty with
          modules := fun _ => .error (.raised (.fault misconfigured)) } } }

def lateWorld : World where
  disk := spillingWorld.disk.put ["t", "acme", "base", "template.yaml"]
    (.file "post_process_fn: setup:run".toUTF8 false)

theorem member_late (reference : String) :
    ∃ failure, lateGenerator.registry.library.member reference = .error failure := by
  unfold Hook.Library.member
  simp only
  split
  · exact ⟨_, rfl⟩
  · unfold Hook.Library.find
    split
    · exact ⟨_, rfl⟩
    · exact ⟨_, rfl⟩

theorem not_resolves_late (reference : String) (target : Hook.Target) :
    lateGenerator.registry.resolve reference ≠ .ok target := by
  intro resolves
  obtain ⟨failure, fails⟩ := member_late reference
  change (lateGenerator.registry.library.member reference >>= _) = _ at resolves
  rw [fails] at resolves
  cases resolves

theorem keeps_of_partnerStep {world reached : World}
    (step : lateGenerator.PartnerStep world reached) : reached.disk = world.disk := by
  cases step with
  | recorded event => rfl
  | addressed name => rfl
  | referred address reference? => rfl
  | checkedOut address name commit => rfl
  | called arguments world resolves => exact absurd resolves (not_resolves_late _ _)

/-- The files are written before the module of the last hook is imported, and its fault is not one
that the last hook may end in. -/
theorem generate_fails_late : ∃ reached,
    lateGenerator.resolver.RaisesRemote ∧ misconfigured.cause.stage = .options ∧
    lateGenerator.generate spillingOptions lateWorld = .error (.fault misconfigured) reached ∧
    lateWorld.disk.node? ["out"] = none ∧
    reached.disk.node? ["out", "one.txt"] = some (.file "".toUTF8 false) ∧
    ¬ Relation.ReflTransGen lateGenerator.PartnerStep lateWorld reached := by
  obtain ⟨_, reached, fails, rfl, written⟩ :
      (lateGenerator.generate spillingOptions).EndsIn lateWorld fun failure reached =>
        failure = .fault misconfigured ∧
          reached.disk.node? ["out", "one.txt"] = some (.file "".toUTF8 false) := by
    decide +kernel
  have absent : lateWorld.disk.node? ["out", "one.txt"] = none := by decide +kernel
  refine ⟨reached, raisesRemote_spilling, rfl, fails, by decide +kernel, written, fun moves => ?_⟩
  have same : reached.disk = lateWorld.disk := by
    clear fails written
    induction moves with
    | refl => rfl
    | tail _ step ih => exact (keeps_of_partnerStep step).trans ih
  rw [same, absent] at written
  cases written

end Project

end Archetype
