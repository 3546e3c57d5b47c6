import Archetype.Proofs.EarlyFailures
import Archetype.Proofs.Precedence
import Archetype.Proofs.Requests

/-!
# The search for templates

A template is looked for on the roots of resources, then in the checkout if there is one, then on
the roots of the settings; the first root that has its descriptor file counts. The command takes the
roots of its arguments first, then those that the environment lists, then the current directory.

* `find?_eq_some_of_isFirst`, `find?_eq_none_iff`: what a search comes to.
* `find?_of_sameHit`: which roots do not count.
* `generate_eq_search`: a generation is a search and what follows it.
* `first_root_counts`: the search of a generation, and of the command.
-/

namespace Archetype

theorem Path.div_empty (path : Path) : path / "" = path := by
  change path.join (ofText "") = path
  rw [join_of_current path rfl]
  change (⟨path.anchor, path.segments ++ segmentsOf ""⟩ : Path) = path
  rw [segmentsOf_empty, List.append_nil]

namespace Template

variable {disk : Disk} {template : String} {roots : List Path}

def offers (disk : Disk) (template : String) (root : Path) : Bool :=
  disk.isFile (root / descriptorOf template)

def IsFirst (disk : Disk) (template : String) (roots : List Path) (root : Path) : Prop :=
  ∃ before after, roots = before ++ root :: after ∧
    (∀ other ∈ before, offers disk template other = false) ∧ offers disk template root = true

def locationOn (disk : Disk) (template : String) (root : Path) : Location :=
  let file := followed disk (root / descriptorOf template)
  ⟨file.parent, file⟩

theorem find?_eq_map (disk : Disk) (roots : List Path) (template : String) :
    find? disk roots template =
      (roots.find? (offers disk template)).map (locationOn disk template) := by
  unfold offers locationOn
  simp only [find?, findFile?, List.find?_map, Option.map_map, Function.comp_def]

theorem find?_eq_some_of_isFirst {root : Path} (first : IsFirst disk template roots root) :
    find? disk roots template = some (locationOn disk template root) := by
  obtain ⟨before, after, rfl, missed, hit⟩ := first
  have none_before : before.find? (offers disk template) = none :=
    List.find?_eq_none.2 fun other member => by rw [missed other member]; exact Bool.false_ne_true
  rw [find?_eq_map, List.find?_append, none_before, Option.none_or, List.find?_cons_of_pos hit,
    Option.map_some]

theorem find?_eq_none_iff :
    find? disk roots template = none ↔ ∀ root ∈ roots, offers disk template root = false := by
  rw [find?_eq_map, Option.map_eq_none_iff, List.find?_eq_none]
  simp only [Bool.not_eq_true]

theorem find?_insert {before extra after : List Path}
    (idle : (∃ root ∈ before, offers disk template root = true) ∨
      ∀ root ∈ extra, offers disk template root = false) :
    find? disk (before ++ extra ++ after) template = find? disk (before ++ after) template := by
  simp only [find?_eq_map, List.find?_append]
  rcases idle with ⟨root, member, hit⟩ | absent
  · cases first : before.find? (offers disk template) with
    | none => exact absurd hit (List.find?_eq_none.1 first root member)
    | some found => simp only [Option.some_or]
  · have missed : extra.find? (offers disk template) = none :=
      List.find?_eq_none.2 fun root member => by rw [absent root member]; exact Bool.false_ne_true
    rw [missed, Option.or_none]

/-- Lists of roots that differ in roots after the hit, or in roots on which the template does not
lie. -/
inductive SameHit (disk : Disk) (template : String) : List Path → List Path → Prop
  | insert (before extra after : List Path)
      (idle : (∃ root ∈ before, offers disk template root = true) ∨
        ∀ root ∈ extra, offers disk template root = false) :
      SameHit disk template (before ++ after) (before ++ extra ++ after)
  | remove (before extra after : List Path)
      (idle : (∃ root ∈ before, offers disk template root = true) ∨
        ∀ root ∈ extra, offers disk template root = false) :
      SameHit disk template (before ++ extra ++ after) (before ++ after)

theorem find?_of_sameHit {others : List Path} (same : SameHit disk template roots others) :
    find? disk others template = find? disk roots template := by
  cases same with
  | insert before extra after idle => exact find?_insert idle
  | remove before extra after idle => exact (find?_insert idle).symm

end Template

namespace Project

open Archetype.Action (raises_bind)
open Archetype.Template (Descriptor Location offers IsFirst SameHit locationOn descriptorOf)

section

variable {settings : Settings} {environment : Environment} {resolver : Git.Resolver}
  {options : Data} {prepared : Prepared} {world ready : World}

theorem roots_of_prepare
    (prepares : prepare settings environment resolver options world = .ok prepared ready) :
    prepared.roots = prepared.checkoutRoots ++ settings.roots ∧
      resolver.checkOut? prepared.template.repository prepared.template.reference? world =
        .ok prepared.checkout? ready := by
  unfold prepare at prepares
  rcases given : option? options "template" with - | template <;>
    rcases named : option? options "name" with - | name <;>
      simp only [given, named] at prepares
  · cases prepares
  · cases prepares
  · cases prepares
  · obtain ⟨identity, _, resolves, prepares⟩ := Action.bind_eq_ok_iff.1 prepares
    obtain ⟨-, rfl⟩ := Action.ofFault_eq_ok_iff.1 resolves
    obtain ⟨wanted, _, parses, prepares⟩ := Action.bind_eq_ok_iff.1 prepares
    obtain ⟨-, rfl⟩ := Action.ofFault_eq_ok_iff.1 parses
    obtain ⟨checkout?, _, checks_out, returns⟩ := Action.bind_eq_ok_iff.1 prepares
    cases returns
    exact ⟨rfl, checks_out⟩

theorem prepare_of_roots (roots : List Path)
    (prepares : prepare settings environment resolver options world = .ok prepared ready) :
    prepare { settings with roots } environment resolver options world =
      .ok { prepared with roots := prepared.checkoutRoots ++ roots } ready := by
  unfold prepare at prepares ⊢
  rcases given : option? options "template" with - | template <;>
    rcases named : option? options "name" with - | name <;>
      simp only [given, named] at prepares ⊢
  · cases prepares
  · cases prepares
  · cases prepares
  · obtain ⟨identity, _, resolves, prepares⟩ := Action.bind_eq_ok_iff.1 prepares
    obtain ⟨wanted, _, parses, prepares⟩ := Action.bind_eq_ok_iff.1 prepares
    obtain ⟨checkout?, _, checks_out, returns⟩ := Action.bind_eq_ok_iff.1 prepares
    rw [Action.bind_ok resolves, Action.bind_ok parses, Action.bind_ok checks_out]
    cases returns
    rfl

end

namespace Generator

def proceed (generator : Generator) (prepared : Prepared) (location : Location) :
    Action Result := do
  let loaded ← Descriptor.load location.descriptor
  let draft ← generator.draftFrom (prepared, location) loaded
  generator.realize draft

def searching (generator : Generator) (resources roots : List Path) : Generator :=
  { generator with resources, settings := { generator.settings with roots } }

variable {generator : Generator} {options : Data} {prepared : Prepared} {world ready : World}

theorem proceed_searching (resources roots others : List Path) (location : Location) :
    (generator.searching resources roots).proceed { prepared with roots := others } location =
      generator.proceed prepared location := by
  simp only [proceed, draftFrom, realize, build, bind_assoc, pure_bind]
  rfl

theorem generate_of_prepare
    (prepares : prepare generator.settings generator.environment generator.resolver options world =
      .ok prepared ready) :
    generator.generate options world =
      (Template.locate generator.resources (prepared.roots.map .path) prepared.template.template >>=
        generator.proceed prepared) ready := by
  rw [generate_eq]
  simp only [draft, find, bind_assoc, pure_bind]
  rw [Action.bind_ok prepares]
  rfl

def searched (generator : Generator) (prepared : Prepared) : List Path :=
  generator.resources ++ prepared.checkoutRoots ++ generator.settings.roots

theorem generate_eq_search
    (prepares : prepare generator.settings generator.environment generator.resolver options world =
      .ok prepared ready) :
    generator.generate options world =
      match Template.find? ready.disk (generator.searched prepared) prepared.template.template with
      | some location => generator.proceed prepared location
          { ready with journal := ready.journal ++
            [.noted (.found prepared.template.template location.directory.toText)] }
      | none => .error (.of (.templateNotFound (descriptorOf prepared.template.template)
          ((prepared.checkoutRoots ++ generator.settings.roots).map Path.toText))
          (some prepared.template.template)) ready := by
  have paths : (prepared.roots.map FileName.path).map FileName.toPath = prepared.roots := by
    rw [List.map_map]
    exact List.map_id _
  have texts : (prepared.roots.map FileName.path).map FileName.toText =
      prepared.roots.map Path.toText := by
    rw [List.map_map]
    rfl
  rw [generate_of_prepare prepares, Template.locate, bind_assoc, Action.disk_bind, paths, texts,
    (roots_of_prepare prepares).1, searched, List.append_assoc]
  cases Template.find? ready.disk
    (generator.resources ++ (prepared.checkoutRoots ++ generator.settings.roots))
    prepared.template.template <;> rfl

theorem raises_proceed (prepared : Prepared) (location : Location) :
    (generator.proceed prepared location).Raises fun fault =>
      fault.cause.stage ≠ .location ∨
        ∃ name, generator.registry.library.modules name = .error (.raised (.fault fault)) := by
  refine raises_bind ((Descriptor.raises_load _).mono fun fault stage => Or.inl ?_) fun loaded => ?_
  · rw [stage]; decide
  refine raises_bind (raises_bind ((Hook.raises_apply _ _ _ _).mono ?_)
    fun _ => Action.raises_pure _) fun draft => (generator.raises_realize draft).mono ?_
  · rintro fault (stage | raised)
    · exact Or.inl (by rw [stage]; decide)
    · exact Or.inr raised
  · rintro fault (stage | raised)
    · exact Or.inl (by rw [stage]; decide)
    · exact Or.inr raised

theorem location_fault_iff
    (prepares : prepare generator.settings generator.environment generator.resolver options world =
      .ok prepared ready)
    (unraised : ∀ name fault, generator.registry.library.modules name =
      .error (.raised (.fault fault)) → fault.cause.stage ≠ .location) :
    (∃ fault reached, generator.generate options world = .error (.fault fault) reached ∧
        fault.cause.stage = .location) ↔
      ∀ root ∈ generator.searched prepared,
        offers ready.disk prepared.template.template root = false := by
  rw [← Template.find?_eq_none_iff, generate_eq_search prepares]
  cases found : Template.find? ready.disk (generator.searched prepared)
      prepared.template.template with
  | none =>
      refine iff_of_true ⟨⟨.templateNotFound (descriptorOf prepared.template.template)
        ((prepared.checkoutRoots ++ generator.settings.roots).map Path.toText),
        some prepared.template.template⟩, ready, ?_, rfl⟩ rfl
      rfl
  | some location =>
      refine iff_of_false ?_ nofun
      rintro ⟨fault, reached, ends, stage⟩
      simp only at ends
      rcases raises_proceed prepared location _ fault reached ends with other | ⟨name, raised⟩
      · exact other stage
      · exact unraised name fault raised stage

theorem generate_searching
    (prepares : prepare generator.settings generator.environment generator.resolver options world =
      .ok prepared ready) {resources roots : List Path} {location : Location}
    (found : Template.find? ready.disk (generator.searched prepared)
      prepared.template.template = some location)
    (same : Template.find? ready.disk (resources ++ prepared.checkoutRoots ++ roots)
      prepared.template.template = some location) :
    (generator.searching resources roots).generate options world =
      generator.generate options world := by
  have prepares_others : prepare (generator.searching resources roots).settings
      (generator.searching resources roots).environment
      (generator.searching resources roots).resolver options world =
        .ok { prepared with roots := prepared.checkoutRoots ++ roots } ready :=
    prepare_of_roots roots prepares
  rw [generate_eq_search prepares, generate_eq_search prepares_others, found]
  have searches : (generator.searching resources roots).searched
      { prepared with roots := prepared.checkoutRoots ++ roots } =
        resources ++ prepared.checkoutRoots ++ roots := rfl
  rw [searches]
  simp only [same, proceed_searching]

end Generator

end Project

namespace Git.Resolver

variable {resolver : Resolver} {name : String} {reference? : Option String}
  {checkout? : Option Checkout} {world ready : World}

theorem answers_of_checkOut?
    (ends : resolver.checkOut? name reference? world = .ok checkout? ready) :
    (∃ told, ask (.address name) (resolver.address? name) world =
        .ok (checkout?.map Checkout.address) told) ∧
      ∀ checkout ∈ checkout?, ∃ before after,
        resolver.checkOut checkout.address name checkout.commit before = .ok checkout.path after := by
  unfold checkOut? at ends
  obtain ⟨address?, told, asks, ends⟩ := Action.bind_eq_ok_iff.1 ends
  cases address? with
  | none =>
      cases ends
      exact ⟨⟨_, asks⟩, nofun⟩
  | some address =>
      obtain ⟨_, _, -, ends⟩ := Action.bind_eq_ok_iff.1 ends
      obtain ⟨commit, _, -, ends⟩ := Action.bind_eq_ok_iff.1 ends
      obtain ⟨path, after, checks_out, returns⟩ := Action.bind_eq_ok_iff.1 ends
      cases returns
      refine ⟨⟨_, asks⟩, ?_⟩
      rintro _ ⟨⟩
      obtain ⟨_, before, -, checks_out⟩ :=
        Action.bind_eq_ok_iff.1 (Action.explaining_eq_ok_iff.1 checks_out)
      exact ⟨before, _, checks_out⟩

end Git.Resolver

namespace Command.Setup

variable {setup : Setup} {request : Request} {current : Path} {generator : Project.Generator}
  {options : Data}

theorem roots_of_parse {arguments : List String} (parses : Request.parse arguments = .ok request) :
    ∃ first second others, general.parse arguments = .ok first ∧
      valuesAt "command" first.uses = createName :: others ∧
      creation.parse others = .ok second ∧ request.roots = valuesOf rootFlag second.uses := by
  unfold Request.parse at parses
  cases first : general.parse arguments with
  | error stop => rw [first] at parses; cases parses
  | ok reading =>
      rw [first] at parses
      simp only [bind, Except.bind] at parses
      cases command : valuesAt "command" reading.uses with
      | nil => simp only [command] at parses; cases parses
      | cons named others =>
          simp only [command] at parses
          by_cases other : named ≠ createName
          · rw [if_pos other] at parses
            cases parses
          · rw [if_neg other] at parses
            cases second : creation.parse others with
            | error stop => simp only [second] at parses; cases parses
            | ok used =>
                simp only [second] at parses
                split at parses <;> cases parses
                refine ⟨reading, used, others, rfl, ?_, second, rfl⟩
                rw [command, not_not.1 other]

theorem forall₂_of_mapM {α β ε : Type} {read : α → Except ε β} {values : List α}
    {results : List β} (reads : values.mapM read = .ok results) :
    List.Forall₂ (fun value result => read value = .ok result) values results := by
  induction values generalizing results with
  | nil => cases reads; exact .nil
  | cons value values ih =>
      rw [List.mapM_cons] at reads
      cases first : read value with
      | error failure => rw [first] at reads; cases reads
      | ok result =>
          cases rest : values.mapM read with
          | error failure => rw [first, rest] at reads; cases reads
          | ok others =>
              rw [first, rest] at reads
              cases reads
              exact .cons first (ih rest)

def listedRoots (environment : Environment) : List String :=
  (Text.split ':' ((environment.given? "STENCIL_TEMPLATE_PATH").getD "")).filter (!·.isEmpty)

theorem roots_ofEnvironment {environment : Environment} {current : Path} {settings : Settings}
    (settles : Settings.ofEnvironment environment current = .ok settings) :
    ∃ extra, (listedRoots environment).mapM (fun entry => environment.expand (.ofText entry)) =
        .ok extra ∧
      settings.roots = extra ++ [current] := by
  unfold Settings.ofEnvironment at settles
  cases usual : environment.expand Settings.defaultCache with
  | error failure => rw [usual] at settles; cases settles
  | ok directory =>
      cases lists : Settings.listed environment
          ((environment.given? "STENCIL_TEMPLATE_PATH").getD "") with
      | error failure => rw [usual, lists] at settles; cases settles
      | ok extra =>
          refine ⟨extra, lists, ?_⟩
          rw [usual, lists] at settles
          cases given : environment.given? "STENCIL_CACHE_DIR" with
          | none =>
              rw [given] at settles
              cases settles
              rfl
          | some cache =>
              cases expands : environment.expand (.ofText cache) with
              | error failure => simp only [given, expands] at settles; cases settles
              | ok cached =>
                  simp only [given, expands] at settles
                  cases settles
                  rfl

theorem roots_of_order (orders : setup.order request current = .ok (generator, options)) :
    ∃ extra, List.Forall₂ (fun entry root => setup.environment.expand (.ofText entry) = .ok root)
        (listedRoots setup.environment) extra ∧
      generator.settings.roots = request.roots.map Path.ofText ++ (extra ++ [current]) := by
  obtain ⟨settled, settles, same, -, -⟩ := order_eq_ok orders
  obtain ⟨extra, lists, roots⟩ := roots_ofEnvironment settles
  refine ⟨extra, forall₂_of_mapM lists, ?_⟩
  rw [same, ← roots]

structure Searches (setup : Setup) (arguments : List String) (world : World) (request : Request)
    (generator : Project.Generator) (options : Data) : Prop where
  creates : setup.create request world = generator.generate options world
  resources : generator.resources = setup.resources
  order : ∃ extra,
    List.Forall₂ (fun entry root => setup.environment.expand (.ofText entry) = .ok root)
      (listedRoots setup.environment) extra ∧
    generator.settings.roots =
      request.roots.map Path.ofText ++ (extra ++ [.fromRoot world.disk.current])
  flags : ∃ first second others, general.parse arguments = .ok first ∧
    valuesAt "command" first.uses = createName :: others ∧
    creation.parse others = .ok second ∧
      request.roots = valuesOf rootFlag second.uses

end Command.Setup

namespace Project

open Archetype.Template (Descriptor Location offers IsFirst SameHit locationOn descriptorOf)

structure Generator.Searches (generator : Generator) (options : Data) (prepared : Prepared)
    (world ready : World) : Prop where
  order : generator.searched prepared = generator.resources ++
    (match prepared.checkout? with
      | none => []
      | some checkout =>
        let base := match prepared.template.directory? with
          | some directory => checkout.path / directory
          | none => checkout.path
        [base, base / "resources"]) ++ generator.settings.roots
  asked : ∃ told, Git.ask (.address prepared.template.repository)
    (generator.resolver.address? prepared.template.repository) world =
      .ok (prepared.checkout?.map Git.Checkout.address) told
  checkedOut : ∀ checkout ∈ prepared.checkout?, ∃ before after,
    generator.resolver.checkOut checkout.address prepared.template.repository checkout.commit
      before = .ok checkout.path after
  hit : ∀ root, IsFirst ready.disk prepared.template.template (generator.searched prepared) root →
    generator.generate options world =
      generator.proceed prepared (locationOn ready.disk prepared.template.template root)
        { ready with journal := ready.journal ++ [.noted (.found prepared.template.template
          (locationOn ready.disk prepared.template.template root).directory.toText)] }
  /-- As long as no module of a hook ends in a fault of the search while it is imported. -/
  missed : (∀ name fault, generator.registry.library.modules name =
      .error (.raised (.fault fault)) → fault.cause.stage ≠ .location) →
    ((∃ fault reached, generator.generate options world = .error (.fault fault) reached ∧
        fault.cause.stage = .location) ↔
      ∀ root ∈ generator.searched prepared,
        offers ready.disk prepared.template.template root = false)
  stable : ∀ resources roots,
    SameHit ready.disk prepared.template.template (generator.searched prepared)
      (resources ++ prepared.checkoutRoots ++ roots) →
    (∃ root, IsFirst ready.disk prepared.template.template (generator.searched prepared) root) →
      (generator.searching resources roots).generate options world =
        generator.generate options world

/-- A template is searched on the roots in order. -/
theorem first_root_counts {generator : Generator} {options : Data} {prepared : Prepared}
    {world ready : World}
    (prepares : prepare generator.settings generator.environment generator.resolver options world =
      .ok prepared ready) :
    generator.Searches options prepared world ready ∧
      (∀ (setup : Command.Setup) arguments start request ordered given,
        Command.Request.parse arguments = .ok request →
        setup.order request (.fromRoot start.disk.current) = .ok (ordered, given) →
          setup.Searches arguments start request ordered given) ∧
      ∀ template name roots,
        (∀ argument ∈ template :: name :: roots, Command.IsPlain argument) →
          Command.Request.parse
              (Command.createName :: template :: name :: Command.rootArguments roots) =
            .ok ⟨0, some template, some name, none, [], roots⟩ := by
  obtain ⟨asked, checkedOut⟩ :=
    Git.Resolver.answers_of_checkOut? (roots_of_prepare prepares).2
  refine ⟨⟨?_, asked, checkedOut, ?_, Generator.location_fault_iff prepares, ?_⟩, ?_,
    fun _ _ _ plain => Command.parse_rootArguments plain⟩
  · unfold Generator.searched Prepared.checkoutRoots
    cases prepared.checkout? with
    | none => rfl
    | some checkout =>
        cases prepared.template.directory? with
        | none => simp only [Git.Checkout.roots, Option.getD_none, Path.div_empty]
        | some directory => simp only [Git.Checkout.roots, Option.getD_some]
  · intro root first
    rw [Generator.generate_eq_search prepares, Template.find?_eq_some_of_isFirst first]
  · rintro resources roots same ⟨root, first⟩
    have found := Template.find?_eq_some_of_isFirst first
    exact Generator.generate_searching prepares found
      ((Template.find?_of_sameHit same).trans found)
  · intro setup arguments start request ordered given parses orders
    obtain ⟨-, -, -, -, resources⟩ := Command.Setup.order_eq_ok orders
    refine ⟨?_, resources, Command.Setup.roots_of_order orders,
      Command.Setup.roots_of_parse parses⟩
    rw [Command.Setup.create_eq, Command.Setup.createWith_eq, orders]
    exact congrFun (Generator.generateWith_id ordered given) start

def twofoldGenerator (roots : List Path) : Generator where
  settings := ⟨roots, .ofText "/cache", "lib", "net.", "0.1.0"⟩
  environment := ⟨∅, ⟨none, fun _ => none⟩, some "jane", ⟨2024, 3, 9⟩⟩
  resolver := ⟨fun _ => return none, fun _ _ => return none, fun _ _ _ => return .ofText "/"⟩
  resources := [.ofText "/a"]

def twofoldWorld : World where
  disk := .holding
    [(["a"], .directory), (["b"], .directory), (["b", "x"], .directory),
      (["b", "x", "y"], .directory), (["b", "x", "y", "template.yaml"], .file "".toUTF8 false),
      (["c"], .directory), (["c", "x"], .directory), (["c", "x", "y"], .directory),
      (["c", "x", "y", "template.yaml"], .file "".toUTF8 false)]
    [] []

def twofold : Generator :=
  twofoldGenerator [.ofText "/b", .ofText "/c"]

def twofoldOptions : Data :=
  sampleData [("template", "x/y"), ("name", "acme/tool")]

theorem twofold_first_root_counts :
    ∃ prepared ready,
      prepare twofold.settings twofold.environment twofold.resolver twofoldOptions twofoldWorld =
        .ok prepared ready ∧
      (locationOn ready.disk prepared.template.template (.ofText "/b")).descriptor =
        .ofText "/b/x/y/template.yaml" ∧
      (∃ reached, twofold.generate twofoldOptions twofoldWorld = twofold.proceed prepared
        (locationOn ready.disk prepared.template.template (.ofText "/b")) reached) ∧
      (twofoldGenerator [.ofText "/b"]).generate twofoldOptions twofoldWorld =
        twofold.generate twofoldOptions twofoldWorld := by
  obtain ⟨⟨prepared, disk⟩, ready, ends, none_checked, missed, hit, located⟩ : (do
      let prepared ←
        prepare twofold.settings twofold.environment twofold.resolver twofoldOptions
      let disk ← Action.disk
      return (prepared, disk) : Action (Prepared × Disk)).Yields twofoldWorld fun found =>
        found.1.checkoutRoots = [] ∧
        offers found.2 found.1.template.template (.ofText "/a") = false ∧
        offers found.2 found.1.template.template (.ofText "/b") = true ∧
        (locationOn found.2 found.1.template.template (.ofText "/b")).descriptor =
          .ofText "/b/x/y/template.yaml" := by
    decide +kernel
  obtain ⟨_, _, prepares, returns⟩ := Action.bind_eq_ok_iff.1 ends
  cases returns
  have searched : twofold.searched prepared =
      [Path.ofText "/a"] ++ .ofText "/b" :: [.ofText "/c"] := by
    rw [Generator.searched, none_checked]
    rfl
  have first : IsFirst ready.disk prepared.template.template (twofold.searched prepared)
      (.ofText "/b") :=
    ⟨[.ofText "/a"], [.ofText "/c"], searched, by simpa using missed, hit⟩
  have counts := (first_root_counts prepares).1
  have same : SameHit ready.disk prepared.template.template (twofold.searched prepared)
      ([.ofText "/a"] ++ prepared.checkoutRoots ++ [.ofText "/b"]) := by
    rw [searched, none_checked]
    exact .remove [.ofText "/a", .ofText "/b"] [.ofText "/c"] [] (Or.inl ⟨_, by simp, hit⟩)
  have hits := counts.hit _ first
  have stable := counts.stable [.ofText "/a"] [.ofText "/b"] same ⟨_, first⟩
  exact ⟨prepared, ready, prepares, located, ⟨_, hits⟩, stable⟩

end Project

end Archetype
