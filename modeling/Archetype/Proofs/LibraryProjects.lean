import Archetype.Git.Client
import Archetype.Proofs.BundledTemplate
import Archetype.Proofs.Locations

namespace Archetype

theorem Disk.resolve_of_linkFree {disk : Disk} (linkFree : disk.LinkFree) {path : Path}
    (anchored : path.anchor ≠ .current) (named : ∀ name ∈ path.segments, Path.IsName name) :
    disk.resolve path = .ok (.fromRoot path.segments) := by
  rw [resolve_eq_placeOf linkFree, placeOf, start, if_neg anchored, walk_names named,
    List.nil_append]

namespace Template.Bundled

section Installed

variable {world : World} (sound : world.disk.Sound) {root : Place}
  (installed : Installed world.disk root)

include sound installed

theorem Installed.find?_descriptor :
    world.disk.find? (.fromRoot (root ++ directory ++ [descriptorFile])) =
      some (.file descriptor.toUTF8 false) := by
  have held := Disk.contentAt_eq_some_iff.1 ((installed.holds [descriptorFile] _).2
    ⟨descriptor, by simp [files], rfl⟩)
  exact sound.find?_fromRoot held (Disk.hasNull_append installed.clean (by decide +kernel))

theorem locate_bundled (others : List Path) (roots : List FileName) :
    ∃ located, locate (.fromRoot root :: others) roots (TemplateName.qualify defaultNamespace name)
        world = .ok ⟨.fromRoot (root ++ directory),
          .fromRoot (root ++ directory ++ [descriptorFile])⟩ located ∧
      located.disk = world.disk := by
  let template := TemplateName.qualify defaultNamespace name
  have found := installed.find?_descriptor sound
  have led : Path.fromRoot root / descriptorOf template =
      .fromRoot (root ++ directory ++ [descriptorFile]) := by
    rw [Path.fromRoot_div (by decide +kernel), List.append_assoc]
    exact congrArg (fun rest => Path.fromRoot (root ++ rest)) (by decide +kernel)
  have hit : offers world.disk template (.fromRoot root) = true := by
    rw [offers, led]
    exact Disk.isFile_iff.2 ⟨_, _, found⟩
  have first : IsFirst world.disk template (.fromRoot root :: others ++ roots.map FileName.toPath)
      (.fromRoot root) := ⟨[], _, rfl, nofun, hit⟩
  have named : ∀ name ∈ root ++ directory ++ [descriptorFile], Path.IsName name :=
    List.forall_mem_append.2 ⟨installed.named sound, by decide⟩
  have stays : followed world.disk (.fromRoot (root ++ directory ++ [descriptorFile])) =
      .fromRoot (root ++ directory ++ [descriptorFile]) := by
    rw [followed, Disk.resolve_of_linkFree sound.linkFree
      (show Anchor.root ≠ .current by decide) named]
    rfl
  have searched := find?_eq_some_of_isFirst first
  rw [locationOn, led, stays] at searched
  have parent : (Path.fromRoot (root ++ directory ++ [descriptorFile])).parent =
      .fromRoot (root ++ directory) := by
    rw [Path.parent, Path.fromRoot, List.dropLast_concat]
    rfl
  rw [parent] at searched
  rw [locate, Action.disk_bind, searched]
  exact ⟨_, rfl, rfl⟩

theorem load_descriptor :
    Descriptor.load (.fromRoot (root ++ directory ++ [descriptorFile])) world =
      .ok parsed world := by
  have reads := Action.readFile_ok sound (installed.find?_descriptor sound)
  rw [Descriptor.load, Action.bind_ok (Action.explaining_eq_ok_iff.2 reads)]
  exact Action.ofExcept_eq_ok_iff.2 ⟨ofFile_descriptor _, rfl⟩

end Installed

end Template.Bundled

namespace Text

theorem rest_subset_of_cutFirst {separator : Char} {characters before rest : List Char}
    (cut : cutFirst separator characters = (before, some rest)) : rest ⊆ characters := by
  induction characters generalizing before with
  | nil => cases cut
  | cons character others ih =>
      unfold cutFirst at cut
      split at cut
      · cases cut
        exact List.subset_cons_self _ _
      · generalize same : cutFirst separator others = parts at cut
        obtain ⟨first, after?⟩ := parts
        cases cut
        exact List.subset_cons_of_subset _ (ih same)

end Text

theorem Name.snd_splitQualified_subset (name : String) :
    (splitQualified name).2.toList ⊆ name.toList := by
  unfold splitQualified
  split
  · rename_i cut
    rw [String.toList_ofList]
    exact Text.rest_subset_of_cutFirst cut
  · exact List.Subset.refl _

namespace Project

open Archetype.Template Archetype.Placeholder

theorem expand?_of_anchored {homes : Homes} {path : Path} (anchored : path.anchor ≠ .current) :
    homes.expand? path = some path := by
  unfold Homes.expand?
  split
  · rename_i current _
    exact absurd current anchored
  · rfl

section Name

variable {groupPrefix token : String} {addressOf : String → Option String} {identity : Identity}
  (resolves : Identity.resolve groupPrefix addressOf token = .ok identity)

include resolves

theorem main_subset_of_resolve : identity.main.toList ⊆ token.toList := by
  rw [(main_of_resolve resolves).1]
  exact List.Subset.trans (Name.snd_splitQualified_subset _) (Text.strip_subset token)

theorem isPackage_of_resolve (free : Free opening closing token) :
    Bundled.IsPackage (Name.fileForm identity.main) :=
  Bundled.isPackage_fileForm (main_of_resolve resolves).2
    fun character member => free character (main_subset_of_resolve resolves member)

end Name

namespace Generator

/-- Everything is in place for projects of the bundled template in a new directory: the template is
on the first root, no repository goes by its name, and the directory is apart from the others that
the generator works in. -/
structure Ready (generator : Generator) (disk : Disk) (root goal : Place) : Prop where
  space : generator.settings.space = Template.defaultNamespace
  copier : generator.copier = .standard
  resources : ∃ others, generator.resources = .fromRoot root :: others
  unaddressed : ∀ world, generator.resolver.address? Bundled.name world = .ok none world
  sound : disk.Sound
  installed : Bundled.Installed disk root
  vacant : disk.Vacant goal
  temporary : disk.node? disk.temporary = some .directory
  temporary_noNull : Disk.hasNull disk.temporary = false
  template_goal : Disk.Apart (root ++ Bundled.directory) goal
  template_temporary : Disk.Apart (root ++ Bundled.directory) disk.temporary
  goal_temporary : Disk.Apart goal disk.temporary

section Ready

variable {generator : Generator} {world : World} {root goal : Place}
  (ready : generator.Ready world.disk root goal)

include ready

theorem Ready.separate : world.disk.Separate (.fromRoot (root ++ Bundled.directory))
    (.fromRoot goal) := by
  have template := ready.installed.placeOf ready.sound
  have target := world.disk.placeOf_fromRoot ready.vacant.named
  refine ⟨?_, ?_, ?_, fun place onWay absent => ?_⟩
  · rw [template, target]
    exact ready.template_goal
  · rw [template]
    exact ready.template_temporary
  · rw [target]
    exact ready.goal_temporary
  · rw [template]
    have starts := Disk.onWay_fromRoot ready.vacant.named onWay
    exact ⟨fun within => ready.template_goal.1 (within.trans starts),
      fun within => ready.goal_temporary.2 (within.trans starts)⟩

theorem Ready.makes_staging : world.disk.makeDirectory (.fromRoot (Action.stagingPlace world.disk)) =
    .ok (world.disk.put (Action.stagingPlace world.disk) .directory) :=
  Action.makeDirectory_staging ready.sound (Action.noNull_stagingPlace ready.temporary_noNull)
    ready.temporary

end Ready

def scheduled (root : Place) (prepared : Prepared) (target : Path) (written : List Path) :
    Schedule where
  prepared
  location := ⟨.fromRoot (root ++ Bundled.directory),
    .fromRoot (root ++ Bundled.directory ++ [descriptorFile])⟩
  loaded := Bundled.parsed
  added := ∅
  final := Bundled.parsed
  target
  written

section Asked

variable {generator : Generator} {world : World} {root goal : Place}
  (ready : generator.Ready world.disk root goal) {options : Data} {token directory : String}
  (asks : Asks options Bundled.name token directory) {identity : Identity}
  (resolves : Identity.resolve generator.settings.groupPrefix Git.address? token = .ok identity)

include asks

theorem counts_of_prepare {prepared : Prepared} {asked : World}
    (prepares : prepare generator.settings generator.environment generator.resolver options world =
      .ok prepared asked) (target : Path) (written : List Path) (key : Key) :
    (scheduled root prepared target written).data.get? key =
      (prepared.sources generator.settings generator.environment options token
        (Path.fromRoot (root ++ Bundled.directory)).toText ∅ Bundled.parsed).value? key := by
  obtain ⟨_, names, data⟩ := names_of_prepare prepares
  have same := names.named
  rw [asks.name] at same
  cases same
  refine get?_finalData_sources (prepared.sources _ _ _ _ _ _ _) ?_ rfl key
  rw [data]
  rfl

include ready resolves

theorem exists_prepares : ∃ prepared asked,
    prepare generator.settings generator.environment generator.resolver options world =
      .ok prepared asked ∧ prepared.identity = identity ∧
    prepared.template.template = TemplateName.qualify defaultNamespace Bundled.name ∧
    asked.disk = world.disk := by
  have parses : TemplateName.parse generator.settings.space (Value.text Bundled.name).toText =
      .ok ⟨Bundled.name, none, TemplateName.qualify defaultNamespace Bundled.name, none⟩ := by
    rw [ready.space]
    rfl
  have identified : Identity.resolve generator.settings.groupPrefix Git.address?
      (Value.text token).toText = .ok identity := resolves
  let asked : World := { world with journal := world.journal ++ [.asked (.address Bundled.name)] }
  have answers : Git.ask (.address Bundled.name) (generator.resolver.address? Bundled.name) world =
      .ok none asked := ready.unaddressed asked
  have checks : generator.resolver.checkOut? Bundled.name none world = .ok none asked := by
    rw [Git.Resolver.checkOut?, Action.bind_ok answers]
    rfl
  simp only [prepare, asks.template, asks.name, identified, parses, Action.ofFault, pure_bind]
  exact ⟨_, asked, Action.bind_ok checks _, rfl, rfl, rfl⟩

theorem exists_begins : ∃ prepared asked drafted,
    prepare generator.settings generator.environment generator.resolver options world =
      .ok prepared asked ∧ prepared.identity = identity ∧ drafted.disk = world.disk ∧
    ∀ target written, generator.Reaches options world (scheduled root prepared target written)
      .copying drafted := by
  obtain ⟨others, resources⟩ := ready.resources
  obtain ⟨prepared, asked, prepares, same, template, stays⟩ := exists_prepares ready asks resolves
  have sound := stays ▸ ready.sound
  have installed := stays ▸ ready.installed
  obtain ⟨located, locates, kept⟩ :=
    Bundled.locate_bundled sound installed others (prepared.roots.map .path)
  refine ⟨prepared, asked, located, prepares, same, kept.trans stays, fun target written => ?_⟩
  have finds : generator.find options world =
      .ok (prepared, (scheduled root prepared target written).location) located := by
    rw [find, Action.bind_ok prepares, template, resources]
    exact Action.bind_ok locates _
  exact .copying (.replacing (.extending finds
    (Bundled.load_descriptor (kept ▸ sound) (kept ▸ installed))) (.unnamed rfl)) (.unnamed rfl)

variable (absolute : (Path.ofText directory).anchor ≠ .current)
  (leads : (Path.ofText directory).segments = goal) (free : Free opening closing token)

include absolute leads

omit ready asks resolves in
theorem resolveTarget_of_absolute (linkFree : world.disk.LinkFree) (vacant : world.disk.Vacant goal)
    {data : Data} (names : targetNamed data = directory) (environment : Environment) :
    resolveTarget environment data world = .ok (.fromRoot goal) world := by
  subst leads
  rw [resolveTarget_eq, names, Environment.expand, expand?_of_anchored absolute]
  simp only [vacant.noNull, Bool.false_eq_true, ↓reduceIte,
    Disk.resolve_of_linkFree linkFree absolute vacant.named]

include free

theorem exists_generates : ∃ result reached files,
    generator.generate options world = .ok result reached ∧ result.target = .fromRoot goal ∧
    result.written = (Bundled.kept (Name.fileForm identity.main)).map
      (fun place => .fromRoot (goal ++ place)) ∧
    Disk.Gained goal files world.disk reached.disk ∧
    files.map Prod.fst = Bundled.kept (Name.fileForm identity.main) ∧
    ([".github", "workflows", "tests.yml"], (Bundled.workflow.toUTF8, false)) ∈ files := by
  obtain ⟨prepared, asked, drafted, prepares, same, stays, begins⟩ :=
    exists_begins ready asks resolves
  let written := (Bundled.kept (Name.fileForm identity.main)).map
    fun place => Path.fromRoot (goal ++ place)
  let schedule := scheduled root prepared (.fromRoot goal) written
  have counts : ∀ key, schedule.data.get? key = _ :=
    counts_of_prepare asks prepares (.fromRoot goal) written
  have target : resolveTarget generator.environment schedule.data drafted =
      .ok (.fromRoot goal) drafted :=
    resolveTarget_of_absolute absolute leads (stays ▸ ready.sound.linkFree) (stays ▸ ready.vacant)
      (targetNamed_of_asks asks counts) generator.environment
  have spelled := spelled_ofData asks rfl counts
  have found := get?_mainFile asks rfl counts
  rw [same] at found
  have announced : (schedule.announced drafted).disk = world.disk := stays
  have sound : (schedule.announced drafted).disk.Sound := announced ▸ ready.sound
  obtain ⟨reached, files, copies, gained, all, workflow⟩ :=
    Bundled.copyAll_parsed sound (announced ▸ ready.installed) spelled goal
      (isPackage_of_resolve resolves free) found
      (announced ▸ ready.vacant) (announced ▸ ready.separate) (announced ▸ ready.makes_staging)
  rw [← ready.copier] at copies
  have built : generator.Reaches options world schedule .finishing reached :=
    .finishing (begins _ _) target (Entry.copyAll_eq_ok_iff.1 (announced ▸ copies))
  have ends : generator.generate options world = .ok (schedule.result none) reached := by
    rw [generate_of_finishing built]
    rfl
  rw [announced] at gained
  exact ⟨_, reached, files, ends, rfl, rfl, gained, all, workflow⟩

/-- A project of the bundled template is generated. It has the files of the template for its
package, except those that are ignored on their way, of which there are some just if a segment of
the package is ignored. -/
theorem bundled_project : ∃ result reached,
    generator.generate options world = .ok result reached ∧
    result.target = .fromRoot goal ∧
    result.written = (Bundled.kept (Name.fileForm identity.main)).map
      (fun place => .fromRoot (goal ++ place)) ∧
    (∀ place, (reached.disk.contentAt (goal ++ place)).isSome = true ↔
      place ∈ Bundled.kept (Name.fileForm identity.main)) ∧
    reached.disk.contentAt (goal ++ [".github", "workflows", "tests.yml"]) =
      some (Bundled.workflow.toUTF8, false) ∧
    (∀ place, ¬ goal <+: place → reached.disk.contentAt place = world.disk.contentAt place) ∧
    (Bundled.kept (Name.fileForm identity.main) = Bundled.arrivals (Name.fileForm identity.main) ↔
      ∀ segment ∈ Path.segmentsOf (Name.fileForm identity.main), ¬ Copier.IsLitter segment) := by
  obtain ⟨result, reached, files, ends, target, written, gained, all, workflow⟩ :=
    exists_generates ready asks resolves absolute leads free
  refine ⟨result, reached, ends, target, written, fun place => ?_, gained.inside _ workflow,
    fun place elsewhere => gained.contentAt_of_not_below elsewhere,
    Bundled.kept_eq_iff (isPackage_of_resolve resolves free)⟩
  rw [gained.isSome_iff ready.sound ready.vacant, all]

end Asked

end Generator

def libraryGenerator : Generator where
  settings := { roots := [], cache := .ofText "/cache" }
  environment := ⟨∅, ⟨some "/home", fun _ => none⟩, some "jane", ⟨2024, 3, 9⟩⟩
  resolver := Git.Client.resolver
    { cache := .ofText "/cache", run := fun world _ => (.noProgram, world.disk) }
  resources := [.fromRoot ["pkg"]]

def libraryOptions (name : String) : Data :=
  Data.ofEntries [(.text "template", .text "lib"), (.text "name", .text name),
    (.text "target-dir", .text "/work/out")]

def emptyLibrary : Disk :=
  .holding [(["tmp"], .directory), (["work"], .directory)] ["work"] ["tmp"]

def libraryWorld : World where
  disk := Bundled.install ["pkg"] emptyLibrary

theorem ready_library : libraryGenerator.Ready libraryWorld.disk ["pkg"] ["work", "out"] where
  space := rfl
  copier := rfl
  resources := ⟨[], rfl⟩
  unaddressed _ := rfl
  sound := Disk.sound_of_lists (by decide +kernel) (by decide +kernel)
  installed := by
    have sound : emptyLibrary.Sound := Disk.sound_of_lists (by decide +kernel) (by decide +kernel)
    have absent : emptyLibrary.node? ["pkg"] = none := by decide +kernel
    exact Bundled.installed_install (by decide) fun place =>
      Disk.contentAt_eq_none (Or.inl (sound.wellFormed.none_of_append absent _))
  vacant := by
    refine ⟨by decide, by decide, by decide +kernel, fun place starts => ?_⟩
    have all : ∀ front ∈ ["work", "out"].inits, libraryWorld.disk.node? front = some .directory ∨
        libraryWorld.disk.node? front = none := by
      decide +kernel
    exact all place ((List.mem_inits _ _).2 starts)
  temporary := by decide +kernel
  temporary_noNull := by decide +kernel
  template_goal := by decide +kernel
  template_temporary := by decide +kernel
  goal_temporary := by decide +kernel

theorem bundled_project_tool : ∃ result reached,
    libraryGenerator.generate (libraryOptions "acme/tool") libraryWorld = .ok result reached ∧
    result.written = [["README.md"], ["pyproject.toml"], ["src", "tool", "__init__.py"],
      ["tests", "test_tool.py"], [".github", "workflows", "tests.yml"]].map
        (fun place => .fromRoot (["work", "out"] ++ place)) := by
  let identity := Identity.ofSegments defaultGroupPrefix Git.address? "acme" "tool"
  have asks : Asks (libraryOptions "acme/tool") Bundled.name "acme/tool" "/work/out" :=
    ⟨by decide +kernel, by decide +kernel, by decide +kernel, rfl⟩
  have resolves : Identity.resolve libraryGenerator.settings.groupPrefix Git.address? "acme/tool" =
      .ok identity := by
    decide +kernel
  obtain ⟨result, reached, ends, -, written, -⟩ := Generator.bundled_project ready_library asks
    resolves (by decide +kernel) (by decide +kernel) (by decide +kernel)
  have all : Bundled.kept (Name.fileForm identity.main) = [["README.md"], ["pyproject.toml"],
      ["src", "tool", "__init__.py"], ["tests", "test_tool.py"],
      [".github", "workflows", "tests.yml"]] := by
    decide +kernel
  rw [all] at written
  exact ⟨result, reached, ends, written⟩

/-- A project whose package is ignored: it has no file for the package. -/
theorem bundled_project_unimportable : ∃ identity result reached,
    Identity.resolve libraryGenerator.settings.groupPrefix Git.address? "acme/tool~" = .ok identity ∧
    libraryGenerator.generate (libraryOptions "acme/tool~") libraryWorld = .ok result reached ∧
    reached.disk.contentAt (["work", "out"] ++ Path.segmentsOf
      ("src/" ++ Name.fileForm identity.main ++ "/__init__.py")) = none := by
  let identity := Identity.ofSegments defaultGroupPrefix Git.address? "acme" "tool~"
  have asks : Asks (libraryOptions "acme/tool~") Bundled.name "acme/tool~" "/work/out" :=
    ⟨by decide +kernel, by decide +kernel, by decide +kernel, rfl⟩
  have resolves : Identity.resolve libraryGenerator.settings.groupPrefix Git.address? "acme/tool~" =
      .ok identity := by
    decide +kernel
  obtain ⟨result, reached, files, ends, -, -, gained, all, -⟩ := Generator.exists_generates
    ready_library asks resolves (by decide +kernel) (by decide +kernel) (by decide +kernel)
  have ignored : Path.segmentsOf ("src/" ++ Name.fileForm identity.main ++ "/__init__.py") ∉
      Bundled.kept (Name.fileForm identity.main) := by
    decide +kernel
  refine ⟨identity, result, reached, resolves, ends, Option.not_isSome_iff_eq_none.1 ?_⟩
  rwa [gained.isSome_iff ready_library.sound ready_library.vacant, all]

end Project

end Archetype
