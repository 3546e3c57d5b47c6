import Archetype.Proofs.FilePlans
import Archetype.Proofs.NewProjects
import Archetype.Proofs.PackagePaths
import Archetype.Proofs.ProjectNames
import Archetype.Template.Bundled

namespace Archetype.Disk

theorem node?_putDirectories (disk : Disk) (place other : Place) :
    (disk.putDirectories place).node? other =
      if other <+: place then some .directory else disk.node? other := by
  have upTo : ∀ count ≤ place.length, ((List.range count).foldl
      (fun disk count => disk.put (place.take (count + 1)) .directory) disk).node? other =
        if other <+: place ∧ other.length ≤ count then some .directory else disk.node? other := by
    intro count
    induction count with
    | zero =>
        intro _
        by_cases root : other = []
        · subst root
          simp
        · simp [root]
    | succ count ih =>
        intro bound
        have more : place.take (count + 1) ≠ [] := by
          rw [← List.length_pos_iff, List.length_take]
          omega
        rw [List.range_succ, List.foldl_append, List.foldl_cons, List.foldl_nil, node?_put _ more,
          ih (Nat.le_of_succ_le bound)]
        have last : place.take (count + 1) = other ↔ other <+: place ∧ other.length = count + 1 := by
          rw [List.prefix_iff_eq_take]
          grind
        grind
  rw [putDirectories, upTo _ (Nat.le_refl _)]
  congr 1
  exact propext (and_iff_left_of_imp List.IsPrefix.length_le)

end Archetype.Disk

namespace Archetype.Template.Entry

open Archetype.Action Archetype.Disk Archetype.Copier Placeholder

/-! ## Targets of entries -/

theorem inner_relativeTarget {entry : Entry} {replacements : Replacements}
    (climbs : ".." ∉ Path.segmentsOf (entry.relativeTarget replacements)) :
    Path.Inner (entry.relativeTarget replacements) := by
  refine ⟨?_, climbs⟩
  unfold relativeTarget
  split
  · rfl
  · split
    · rfl
    · rw [String.toList_ofList, Path.anchorOf_trim]

section Target

variable {entry : Entry} {target : String} (named : entry.target? = some target)
  (more : target.isEmpty = false) (replacements : Replacements)

include named more

theorem relativeTarget_eq : entry.relativeTarget replacements =
    String.ofList (Text.trim (· = '/') (replacements.apply target).toList) := by
  simp only [relativeTarget, named, more, Bool.false_eq_true, ↓reduceIte]

theorem segmentsOf_relativeTarget : Path.segmentsOf (entry.relativeTarget replacements) =
    Path.segmentsOf (replacements.apply target) := by
  rw [relativeTarget_eq named more, Path.segmentsOf_trim, String.ofList_toList]

end Target

/-! ## What an entry brings -/

structure Brings (entry : Entry) (copier : Copier) (template : Path) (goal : Place)
    (replacements : Replacements) (disk : Disk) (places : List Place)
    (items : List (Place × Write)) : Prop where
  plans : entry.Plans copier template (.fromRoot goal) replacements disk (items.map Prod.snd)
  lies : ∀ item ∈ items, item.2.LiesAt goal item.1
  places : items.map Prod.fst = places.filter fun place => !copier.isIgnored place

section Written

variable {replacements : Replacements} (spelled : replacements.Spelled) {entry : Entry}
  (usual : entry.delimiters? = none) {relative : Place} (plain : ∀ name ∈ relative, Path.IsPlain name)

include spelled usual plain

theorem relativeText_of_plain :
    relativeText (effective (entry.contentReplacements replacements)) relative =
      "/".intercalate relative := by
  have free_text : Free opening closing ("/".intercalate relative) := fun character member => by
    rcases Path.mem_intercalate member with rfl | ⟨name, listed, inside⟩
    · decide
    · exact (plain name listed).free character inside
  unfold contentReplacements
  rw [usual]
  split
  · rfl
  · unfold effective
    rw [Option.filter_some]
    split
    · exact Replacements.apply_of_free spelled free_text
    · rfl

theorem liesAt_write {copier : Copier} {source target : Path} {content : Content} {goal front : Place}
    (into : target = .fromRoot (goal ++ front)) (front_named : ∀ name ∈ front, Path.IsName name)
    (front_noNull : hasNull front = false)
    (named : ∀ name ∈ relative, Path.IsName name) (more : relative ≠ []) :
    (copier.write target (effective (entry.contentReplacements replacements)) source relative
      content).LiesAt goal (front ++ relative) := by
  subst into
  have noNull := Path.hasNull_of_plain plain
  refine ⟨?_, ?_, by simp [more], hasNull_append front_noNull noNull, fun name called => ?_⟩
  · change destination _ _ _ = _
    rw [destination_eq, relativeText_of_plain spelled usual plain,
      Path.fromRoot_div (Path.inner_intercalate named),
      Path.segmentsOf_intercalate fun name member => (named name member).1, List.append_assoc]
  · exact fun name member => (List.mem_append.1 member).elim (front_named name) (named name)
  · unfold Copier.write at called
    split at called
    · rw [Path.name_join source more] at called
      cases called
      exact ⟨named _ (List.getLast_mem more), hasNull_of_subset (by simp) noNull⟩
    · cases called

end Written

section Brings

variable {world : World} (sound : world.disk.Sound) {template : Path} {replacements : Replacements}
  (spelled : replacements.Spelled) {entry : Entry} (usual : entry.delimiters? = none)
  (directory : world.disk.isDirectory (template / entry.source) = true) (copier : Copier)
  (goal : Place)

include sound spelled usual directory

theorem brings_direct (plain : entry.files.isEmpty = true) (all : entry.only = false)
    (target : Path.Inner (entry.relativeTarget replacements)) {front : Place}
    (leads : Path.segmentsOf (entry.relativeTarget replacements) = front)
    (clean : hasNull front = false) {listed : List (Place × Content)}
    (ordered : listed.Pairwise fun file other => Precedes file.1 other.1)
    (named : ∀ file ∈ listed, ∀ name ∈ file.1, Path.IsName name ∧ Path.IsPlain name)
    (more : ∀ file ∈ listed, file.1 ≠ [])
    (holds : ∀ place content,
      world.disk.contentAt (world.disk.placeOf (template / entry.source) ++ place) = some content ↔
        (place, content) ∈ listed)
    (copied : ∀ file ∈ listed, copier.isIgnored (front ++ file.1) = false) :
    entry.Brings copier template goal replacements world.disk
      (listed.map fun file => front ++ file.1)
      (listed.map fun file => (front ++ file.1, copier.write
        (Path.fromRoot goal / entry.relativeTarget replacements)
        (effective (entry.contentReplacements replacements)) (template / entry.source) file.1
        file.2)) := by
  subst leads
  refine ⟨?_, List.forall_mem_map.2 fun file member => ?_, ?_⟩
  · have plans : entry.Plans copier template (.fromRoot goal) replacements world.disk _ :=
      .direct directory plain all
    rw [treePlan_of_takes sound directory ordered] at plans
    · rwa [List.map_map]
    · intro place content
      rw [takes_eq_some_iff, ← contentAt_eq_some_iff, holds]
      refine ⟨fun taken => taken.2.2, fun member => ⟨?_, ?_, member⟩⟩
      · have whole := copied _ member
        rw [isIgnored, List.any_append, Bool.or_eq_false_iff] at whole
        exact whole.2
      · exact Path.hasNull_of_plain fun name inside => (named _ member name inside).2
  · exact liesAt_write spelled usual (fun name inside => (named _ member name inside).2)
      (Path.fromRoot_div target) (fun name inside => Path.isName_of_inner target inside) clean
      (fun name inside => (named _ member name inside).1) (more _ member)
  · rw [List.map_map, List.filter_eq_self.2]
    · rfl
    · refine List.forall_mem_map.2 fun file member => ?_
      rw [copied _ member]
      rfl

theorem brings_renamed (template_written : template.IsWritten)
    (separate : world.disk.Separate template (.fromRoot goal)) (source_inner : Path.Inner entry.source)
    {file pattern : String} {content : Content}
    (renames : entry.RenamesOne world.disk (template / entry.source) replacements file pattern content)
    {changed : Disk}
    (made : world.disk.makeDirectory (.fromRoot (stagingPlace world.disk)) = .ok changed)
    {arrival : Place} (arrives : Path.segmentsOf (entry.relativeTarget replacements) ++
      Path.segmentsOf (replacements.apply pattern) = arrival)
    (plain : ∀ name ∈ arrival, Path.IsPlain name) :
    ∃ items, entry.Brings copier template goal replacements world.disk [arrival] items := by
  have plans := plans_of_renamed sound template_written separate source_inner directory renames made
    copier
  rw [arrives] at plans
  have named : ∀ name ∈ arrival, Path.IsName name := fun name member => by
    rw [← arrives] at member
    exact (List.mem_append.1 member).elim (Path.isName_of_inner renames.target)
      (Path.isName_of_inner renames.renamed.inner)
  have more : arrival ≠ [] := by
    rw [← arrives]
    simp [renames.renamed.more]
  cases ignored : copier.isIgnored arrival with
  | true =>
      rw [ignored, if_pos rfl] at plans
      exact ⟨[], plans, nofun, by simp [ignored]⟩
  | false =>
      rw [ignored, if_neg Bool.false_ne_true] at plans
      refine ⟨[(arrival, _)], plans, List.forall_mem_singleton.2 ?_, by simp [ignored]⟩
      have here : Path.fromRoot goal = .fromRoot (goal ++ []) := by rw [List.append_nil]
      exact liesAt_write spelled usual plain here nofun rfl named more

end Brings

end Archetype.Template.Entry

namespace Archetype.Yaml

def readChars (characters : List Char) : Except Error Value := do
  match ← Parse.document (← tokens (Text.unifyLineEnds characters)) with
  | none => return .null
  | some root =>
    match root.value with
    | .ok value => return value
    | .error failure => throw failure.error

theorem read_eq (text : String) : read text = readChars text.toList := rfl

def denotes (value : Value) (characters : List Char) : Bool :=
  match readChars characters with
  | .ok found => decide (found = value)
  | .error _ => false

theorem read_of_denotes {text : String} {value : Value} (holds : denotes value text.toList = true) :
    read text = .ok value := by
  unfold denotes at holds
  rw [read_eq]
  split at holds
  · rename_i found reads
    rw [reads, of_decide_eq_true holds]
  · cases holds

end Archetype.Yaml

namespace Archetype.Template.Bundled

open Archetype.Action Archetype.Disk Placeholder

/-! ## The descriptor -/

def rootEntry : Entry := { source := Descriptor.defaultRoot }

def sourceEntry : Entry where
  source := "src"
  target? := some ("src/" ++ spell "main/file")
  files := Table.ofList [("package.py.tmpl", "__init__.py")]

def testEntry : Entry where
  source := "tests"
  target? := some "tests"
  files := Table.ofList [("test_package.py.tmpl", "test_" ++ spell "main/file" ++ ".py")]

def workflowEntry : Entry where
  source := "ci"
  target? := some ".github"
  raw := true

def parsed : Descriptor where
  description? := some "A minimal Python library."
  transforms := [sourceEntry, testEntry, workflowEntry]

def value : Value := .map [
  (.text "description", .text "A minimal Python library."),
  (.text "transform", .list [
    .list [.text "src", .text ("src/" ++ spell "main/file"),
      .map [(.text "package.py.tmpl", .text "__init__.py")]],
    .list [.text "tests", .text "tests",
      .map [(.text "test_package.py.tmpl", .text ("test_" ++ spell "main/file" ++ ".py"))]],
    .map [(.text "src", .text "ci"), (.text "target", .text ".github"),
      (.text "opts", .list [.text "raw"])]])]

theorem read_descriptor : Yaml.read descriptor = .ok value := by
  apply Yaml.read_of_denotes
  rw [descriptor, toList_ofLines]
  simp only [List.flatMap_cons, List.flatMap_nil, String.toList_append, spell, opening, closing]
  -- the characters of each text are written out, because to decode a text is long to check
  repeat rw [String.toList_ofList]
  decide +kernel

theorem ofFileValue_value (path : Path) : Descriptor.ofFileValue path value = .ok parsed := rfl

theorem fromUTF8?_toUTF8 (text : String) : String.fromUTF8? text.toUTF8 = some text := by
  have valid : text.toUTF8.IsValidUTF8 := text.isValidUTF8
  simp only [String.fromUTF8?]
  split
  · rfl
  · rename_i refused
    exact absurd valid (by simpa using refused)

theorem readDescriptorFile_of_read {text : String} {value : Value}
    (reads : Yaml.read text = .ok value) (path : Path) :
    readDescriptorFile path text.toUTF8 = .ok value := by
  simp only [readDescriptorFile, fromUTF8?_toUTF8, reads]

theorem ofFile_descriptor (path : Path) : (do
    Descriptor.ofFileValue path (← readDescriptorFile path descriptor.toUTF8)) = .ok parsed := by
  rw [readDescriptorFile_of_read read_descriptor]
  exact ofFileValue_value path

/-! ## Where the template is installed -/

/-- The files of the template are below a root, and nothing else is in its directory. -/
structure Installed (disk : Disk) (root : Place) : Prop where
  noNull : hasNull root = false
  holds : ∀ place content, disk.contentAt (root ++ directory ++ place) = some content ↔
    ∃ text, (place, text) ∈ files ∧ content = (text.toUTF8, false)

def putFile (base : Place) (disk : Disk) (file : Place × String) : Disk :=
  (disk.putDirectories (base ++ file.1.dropLast)).put (base ++ file.1) (.file file.2.toUTF8 false)

theorem contentAt_putFile {base : Place} {disk : Disk} {file : Place × String} (more : file.1 ≠ [])
    (place : Place) : (putFile base disk file).contentAt (base ++ place) =
      if place = file.1 then some (file.2.toUTF8, false)
      else if place <+: file.1 then none else disk.contentAt (base ++ place) := by
  have whole : base ++ file.1 ≠ [] := by simp [more]
  have node := node?_put (disk.putDirectories (base ++ file.1.dropLast)) whole
    (.file file.2.toUTF8 false) (base ++ place)
  simp only [List.append_cancel_left_eq, node?_putDirectories, List.prefix_append_right_inj] at node
  by_cases here : place = file.1
  · rw [if_pos here.symm] at node
    rw [if_pos here]
    exact contentAt_eq_some_iff.2 node
  · have above : place <+: file.1 ↔ place <+: file.1.dropLast := by
      have split : place <+: file.1.dropLast ++ [file.1.getLast more] ↔ _ := List.prefix_concat_iff
      rw [List.dropLast_concat_getLast more] at split
      exact split.trans (or_iff_right here)
    rw [if_neg (Ne.symm here)] at node
    rw [if_neg here]
    split
    · rename_i starts
      rw [if_pos (above.1 starts)] at node
      exact contentAt_eq_none (Or.inr node)
    · rename_i apart
      rw [if_neg (mt above.2 apart)] at node
      exact contentAt_congr node

theorem contentAt_foldl_putFile {base : Place} {disk : Disk}
    (empty : ∀ place, disk.contentAt (base ++ place) = none) {files : List (Place × String)}
    (more : ∀ file ∈ files, file.1 ≠ []) (apart : (files.map Prod.fst).Pairwise Apart)
    (place : Place) (content : Content) :
    (files.foldl (putFile base) disk).contentAt (base ++ place) = some content ↔
      ∃ text, (place, text) ∈ files ∧ content = (text.toUTF8, false) := by
  induction files using List.reverseRecOn with
  | nil => simp [empty]
  | append_singleton files file ih =>
      obtain ⟨more, last_more⟩ := List.forall_mem_append.1 more
      rw [List.map_append, List.pairwise_append] at apart
      obtain ⟨apart, -, lasts⟩ := apart
      have parted : ∀ {text}, (place, text) ∈ files → Apart place file.1 := fun member =>
        lasts _ (List.mem_map_of_mem member) _ List.mem_cons_self
      rw [List.foldl_append, List.foldl_cons, List.foldl_nil,
        contentAt_putFile (last_more _ List.mem_cons_self)]
      split
      · rename_i here
        subst here
        constructor
        · intro same
          exact ⟨file.2, by simp, (Option.some.inj same).symm⟩
        · rintro ⟨text, member, rfl⟩
          rcases List.mem_append.1 member with before | last
          · exact absurd (List.prefix_refl _) (parted before).1
          · rw [List.mem_singleton] at last
            rw [← last]
      · rename_i elsewhere
        have other : ∀ text, (place, text) ∈ files ++ [file] ↔ (place, text) ∈ files := fun text => by
          rw [List.mem_append, List.mem_singleton]
          exact or_iff_left fun same => elsewhere (congrArg Prod.fst same)
        simp only [other]
        split
        · rename_i above
          refine iff_of_false nofun ?_
          rintro ⟨text, member, -⟩
          exact (parted member).1 above
        · exact ih more apart

theorem installed_install {root : Place} (noNull : hasNull root = false) {disk : Disk}
    (empty : ∀ place, disk.contentAt (root ++ directory ++ place) = none) :
    Installed (install root disk) root :=
  ⟨noNull, contentAt_foldl_putFile empty (by decide) (by decide)⟩

def filesIn (name : String) : List (Place × Content) :=
  files.filterMap fun file =>
    match file.1 with
    | [] => none
    | first :: rest => if first = name then some (rest, (file.2.toUTF8, false)) else none

section Installed

variable {disk : Disk} (sound : disk.Sound) {root : Place} (installed : Installed disk root)

include sound installed

theorem Installed.named : ∀ name ∈ root ++ directory, Path.IsName name := by
  have held := contentAt_eq_some_iff.1 ((installed.holds [descriptorFile] _).2
    ⟨descriptor, by simp [files], rfl⟩)
  exact fun name member => sound.named _ (by rw [held]; exact nofun) name
    (List.mem_append_left _ member)

omit sound in
theorem Installed.clean : hasNull (root ++ directory) = false :=
  hasNull_append installed.noNull (by decide +kernel)

theorem Installed.placeOf : disk.placeOf (.fromRoot (root ++ directory)) = root ++ directory :=
  disk.placeOf_fromRoot (installed.named sound)

section Source

variable {name : String} (isName : Path.IsName name)

include isName

theorem Installed.placeOf_source :
    disk.placeOf (Path.fromRoot (root ++ directory) / name) = root ++ directory ++ [name] := by
  rw [Path.div_name _ isName]
  refine disk.placeOf_fromRoot fun other member => ?_
  exact (List.mem_append.1 member).elim (installed.named sound other)
    fun last => List.mem_singleton.1 last ▸ isName

theorem Installed.isDirectory_source (clean : hasNull [name] = false) {rest : Place} {text : String}
    (listed : (name :: rest, text) ∈ files) (more : rest ≠ []) :
    disk.isDirectory (Path.fromRoot (root ++ directory) / name) = true := by
  have held := contentAt_eq_some_iff.1 ((installed.holds _ _).2 ⟨text, listed, rfl⟩)
  have there : disk.node? (root ++ directory ++ [name]) = some .directory := by
    refine sound.directory_of_append more ?_
    rw [List.append_assoc (root ++ directory), List.singleton_append, held]
    exact nofun
  rw [Path.div_name _ isName]
  exact sound.isDirectory_fromRoot there (hasNull_append installed.clean clean)

theorem Installed.contentAt_source (place : Place) (content : Content) :
    disk.contentAt (disk.placeOf (Path.fromRoot (root ++ directory) / name) ++ place) = some content ↔
      (place, content) ∈ filesIn name := by
  rw [installed.placeOf_source sound isName, List.append_assoc, List.singleton_append,
    installed.holds, filesIn, List.mem_filterMap]
  constructor
  · rintro ⟨text, listed, rfl⟩
    exact ⟨_, listed, by simp⟩
  · rintro ⟨⟨other, text⟩, listed, kept⟩
    cases other with
    | nil => cases kept
    | cons first rest =>
        by_cases same : first = name
        · subst same
          simp only [↓reduceIte, Option.some.injEq, Prod.mk.injEq] at kept
          obtain ⟨rfl, rfl⟩ := kept
          exact ⟨text, listed, rfl⟩
        · simp [same] at kept

end Source

theorem Installed.entries_parsed : parsed.entries disk (.fromRoot (root ++ directory)) =
    [rootEntry, sourceEntry, testEntry, workflowEntry] := by
  have there := installed.isDirectory_source sound (show Path.IsName rootEntry.source by decide)
    (by decide) (show ("root" :: ["README.md"], readme) ∈ files by simp [files]) nofun
  unfold Descriptor.entries
  exact if_pos (by rw [Bool.or_eq_true, Bool.or_eq_true]; exact Or.inl (Or.inl there))

end Installed

/-! ## The names of its entries -/

section Names

variable {replacements : Replacements} (spelled : replacements.Spelled) {package : String}
  (isPackage : IsPackage package) (found : replacements.get? (spell "main/file") = some package)

include spelled

theorem relativeTarget_test : testEntry.relativeTarget replacements = "tests" := by
  rw [Entry.relativeTarget_eq rfl (by decide), Replacements.apply_of_free spelled (by decide)]
  rfl

theorem relativeTarget_workflow : workflowEntry.relativeTarget replacements = ".github" := by
  rw [Entry.relativeTarget_eq rfl (by decide), Replacements.apply_of_free spelled (by decide)]
  rfl

include isPackage found

theorem segmentsOf_target_source : Path.segmentsOf (sourceEntry.relativeTarget replacements) =
    "src" :: Path.segmentsOf package := by
  have placed := Replacements.apply_placeholder spelled found isPackage.plain.free
    (show Free opening closing "src/" by decide) (show Free opening closing "" by decide)
  rw [String.append_empty, String.append_empty] at placed
  rw [Entry.segmentsOf_relativeTarget rfl (by decide), placed]
  exact (Path.segmentsOf_append "src" package).trans rfl

theorem apply_test : replacements.apply ("test_" ++ spell "main/file" ++ ".py") =
    "test_" ++ (package ++ ".py") := by
  rw [Replacements.apply_placeholder spelled found isPackage.plain.free (by decide) (by decide),
    String.append_assoc]

end Names

/-! ## What its entries bring -/

section Brings

variable {world : World} (sound : world.disk.Sound) {root : Place}
  (installed : Installed world.disk root) {replacements : Replacements}
  (spelled : replacements.Spelled) (goal : Place)

include sound installed spelled

theorem exists_brings_root : ∃ items, rootEntry.Brings .standard (.fromRoot (root ++ directory)) goal
    replacements world.disk [["README.md"], ["pyproject.toml"]] items := by
  have isName : Path.IsName rootEntry.source := by decide
  have directory := installed.isDirectory_source sound isName (by decide)
    (show ("root" :: ["README.md"], readme) ∈ files by simp [files]) nofun
  have listed : filesIn rootEntry.source =
      [(["README.md"], (readme.toUTF8, false)), (["pyproject.toml"], (metadata.toUTF8, false))] := rfl
  have holds := installed.contentAt_source sound isName
  rw [listed] at holds
  have ordered : Precedes ["README.md"] ["pyproject.toml"] :=
    show compare ["README.md"] ["pyproject.toml"] = .lt by decide
  exact ⟨_, Entry.brings_direct sound spelled rfl directory .standard goal rfl rfl
    (show Path.Inner "" by decide) (show Path.segmentsOf "" = [] from rfl) rfl
    (List.pairwise_pair.2 ordered) (by decide) (by decide) holds (by decide +kernel)⟩

theorem exists_brings_workflow : ∃ items,
    workflowEntry.Brings .standard (.fromRoot (root ++ directory)) goal replacements world.disk
      [[".github", "workflows", "tests.yml"]] items ∧
        ∀ item ∈ items, item.2.content = (workflow.toUTF8, false) := by
  have isName : Path.IsName workflowEntry.source := by decide
  have directory := installed.isDirectory_source sound isName (by decide)
    (show ("ci" :: ["workflows", "tests.yml"], workflow) ∈ files by simp [files]) nofun
  have listed : filesIn workflowEntry.source =
      [(["workflows", "tests.yml"], (workflow.toUTF8, false))] := rfl
  have holds := installed.contentAt_source sound isName
  rw [listed] at holds
  have target := relativeTarget_workflow spelled
  exact ⟨_, Entry.brings_direct sound spelled rfl directory .standard goal rfl rfl
    (by rw [target]; decide) (show _ = [".github"] by rw [target]; rfl) (by decide)
    (List.pairwise_singleton _ _) (by decide) (by decide) holds (by decide +kernel),
    List.forall_mem_singleton.2 rfl⟩

section Package

variable {package : String} (isPackage : IsPackage package)
  (found : replacements.get? (spell "main/file") = some package)

include isPackage found

theorem renamesOne_source : sourceEntry.RenamesOne world.disk
    (Path.fromRoot (root ++ directory) / sourceEntry.source) replacements "package.py.tmpl"
    "__init__.py" (Bundled.package.toUTF8, false) := by
  have unmarked : replacements.apply "__init__.py" = "__init__.py" :=
    Replacements.apply_of_free spelled (by decide)
  have leads := segmentsOf_target_source spelled isPackage found
  have listed : filesIn sourceEntry.source =
      [(["package.py.tmpl"], (Bundled.package.toUTF8, false))] := rfl
  have named : ∀ name ∈ "src" :: Path.segmentsOf package, Path.IsName name ∧ Path.IsPlain name :=
    List.forall_mem_cons.2 ⟨by decide, fun name member =>
      ⟨isName_of_mem_package isPackage member, isPackage.plain.segment member⟩⟩
  refine ⟨rfl, rfl, Entry.inner_relativeTarget ?_, ?_, by decide, by rw [unmarked]; decide,
    by rw [unmarked]; decide, ?_⟩
  · rw [leads]
    exact fun climbs => (named _ climbs).1.2 rfl
  · rw [leads]
    exact Path.hasNull_of_plain fun name member => (named name member).2
  · intro place content
    rw [installed.contentAt_source sound (show Path.IsName sourceEntry.source by decide), listed,
      List.mem_singleton, Prod.mk.injEq]
    rfl

theorem renamesOne_test : testEntry.RenamesOne world.disk
    (Path.fromRoot (root ++ directory) / testEntry.source) replacements "test_package.py.tmpl"
    ("test_" ++ spell "main/file" ++ ".py") (Bundled.test.toUTF8, false) := by
  have leads := relativeTarget_test spelled
  have renamed := apply_test spelled isPackage found
  have listed : filesIn testEntry.source =
      [(["test_package.py.tmpl"], (Bundled.test.toUTF8, false))] := rfl
  have names := names_test isPackage
  rw [← renamed] at names
  refine ⟨rfl, rfl, by rw [leads]; decide, by rw [leads]; decide, by decide, names, ?_, ?_⟩
  · rintro ⟨starts, differ⟩
    refine differ (starts.eq_of_length_le ?_)
    exact List.length_pos_iff.2 names.more
  · intro place content
    rw [installed.contentAt_source sound (show Path.IsName testEntry.source by decide), listed,
      List.mem_singleton, Prod.mk.injEq]
    rfl

theorem inner_of_mem_entries :
    ∀ entry ∈ [rootEntry, sourceEntry, testEntry, workflowEntry], entry.Inner replacements := by
  refine List.forall_mem_cons.2 ⟨⟨by decide, ⟨show Path.Inner "" by decide, nofun, nofun⟩⟩,
    List.forall_mem_cons.2 ⟨⟨by decide, ?_⟩, List.forall_mem_cons.2 ⟨⟨by decide, ?_⟩,
      List.forall_mem_singleton.2 ⟨by decide, ⟨?_, nofun, nofun⟩⟩⟩⟩⟩
  · exact (renamesOne_source sound installed spelled isPackage found).staysBelow
  · exact (renamesOne_test sound installed spelled isPackage found).staysBelow
  · rw [relativeTarget_workflow spelled]
    decide

section Goal

variable (vacant : world.disk.Vacant goal)
  (separate : world.disk.Separate (.fromRoot (root ++ directory)) (.fromRoot goal)) {changed : Disk}
  (made : world.disk.makeDirectory (.fromRoot (stagingPlace world.disk)) = .ok changed)

include separate made

theorem exists_brings_source : ∃ items, sourceEntry.Brings .standard (.fromRoot (root ++ directory))
    goal replacements world.disk ["src" :: (Path.segmentsOf package ++ ["__init__.py"])] items := by
  have unmarked : replacements.apply "__init__.py" = "__init__.py" :=
    Replacements.apply_of_free spelled (by decide)
  have there := installed.isDirectory_source sound (show Path.IsName sourceEntry.source by decide)
    (by decide) (show ("src" :: ["package.py.tmpl"], Bundled.package) ∈ files by simp [files]) nofun
  refine Entry.brings_renamed sound spelled rfl there .standard goal
    (fun name member => (installed.named sound name member).1) separate (by decide)
    (renamesOne_source sound installed spelled isPackage found) made ?_ ?_
  · rw [segmentsOf_target_source spelled isPackage found, unmarked]
    rfl
  · rw [← segmentsOf_source]
    exact fun name => isPlain_of_arrival isPackage (by simp [arrivals]) name

theorem exists_brings_test : ∃ items, testEntry.Brings .standard (.fromRoot (root ++ directory))
    goal replacements world.disk ["tests" :: Path.segmentsOf ("test_" ++ (package ++ ".py"))] items := by
  have there := installed.isDirectory_source sound (show Path.IsName testEntry.source by decide)
    (by decide) (show ("tests" :: ["test_package.py.tmpl"], Bundled.test) ∈ files by simp [files]) nofun
  refine Entry.brings_renamed sound spelled rfl there .standard goal
    (fun name member => (installed.named sound name member).1) separate (by decide)
    (renamesOne_test sound installed spelled isPackage found) made ?_ ?_
  · rw [relativeTarget_test spelled, apply_test spelled isPackage found]
    rfl
  · rw [← segmentsOf_test]
    exact fun name => isPlain_of_arrival isPackage (by simp [arrivals]) name

include vacant

theorem copyAll_parsed : ∃ reached files, Entry.copyAll .standard (.fromRoot (root ++ directory))
    (.fromRoot goal) replacements (parsed.entries world.disk (.fromRoot (root ++ directory))) world =
      .ok ((kept package).map fun place => .fromRoot (goal ++ place)) reached ∧
    Gained goal files world.disk reached.disk ∧ files.map Prod.fst = kept package ∧
      ([".github", "workflows", "tests.yml"], (workflow.toUTF8, false)) ∈ files := by
  obtain ⟨first, first_brings⟩ := exists_brings_root sound installed spelled goal
  obtain ⟨second, second_brings⟩ :=
    exists_brings_source sound installed spelled goal isPackage found separate made
  obtain ⟨third, third_brings⟩ :=
    exists_brings_test sound installed spelled goal isPackage found separate made
  obtain ⟨last, last_brings, last_content⟩ := exists_brings_workflow sound installed spelled goal
  let parts := [first, second, third, last]
  have inners := inner_of_mem_entries sound installed spelled isPackage found
  have whole : parts.flatten.map Prod.fst = kept package := by
    simp only [parts, List.flatten_cons, List.flatten_nil, List.append_nil, List.map_append,
      first_brings.places, second_brings.places, third_brings.places, last_brings.places]
    rw [kept, arrivals_eq]
    simp only [← List.filter_append]
    rfl
  have lie : ∀ item ∈ parts.flatten, item.2.LiesAt goal item.1 := by
    simp only [parts, List.flatten_cons, List.flatten_nil, List.append_nil, List.forall_mem_append]
    exact ⟨first_brings.lies, second_brings.lies, third_brings.lies, last_brings.lies⟩
  obtain ⟨reached, ends, gained⟩ := Entry.copyAll_vacant sound
    (fun name member => (installed.named sound name member).1) vacant separate inners
    (.cons first_brings.plans (.cons second_brings.plans (.cons third_brings.plans
      (.cons last_brings.plans .nil)))) lie
    (by rw [whole]; exact (arrivals_apart package).sublist List.filter_sublist)
  refine ⟨reached, _, ?_, gained, ?_, ?_⟩
  · rw [installed.entries_parsed sound, ends, ← whole, List.map_map]
    rfl
  · rw [List.map_map, ← whole]
    rfl
  · have kept_last : last.map Prod.fst = [[".github", "workflows", "tests.yml"]] :=
      last_brings.places.trans (by decide +kernel)
    obtain ⟨item, member, place⟩ := List.mem_map.1
      (show [".github", "workflows", "tests.yml"] ∈ last.map Prod.fst by rw [kept_last]; decide)
    refine List.mem_map.2 ⟨item, ?_, Prod.ext place (last_content item member)⟩
    simp [member]

end Goal

end Package

end Brings

end Archetype.Template.Bundled
