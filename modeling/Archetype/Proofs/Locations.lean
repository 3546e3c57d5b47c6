import Archetype.Proofs.PackagePaths
import Archetype.Proofs.Searching

namespace Archetype

open Archetype.Path (IsSegment Inner ofText anchorOf segmentsOf fromRoot)

namespace Disk

variable {disk : Disk} (linkFree : disk.LinkFree)

include linkFree

theorem resolveSteps_eq_walk (onLink : Place → Place → String → Except Place Place) (place : Place)
    (segments : List String) : disk.resolveSteps onLink place segments = .ok (walk place segments) := by
  induction segments generalizing place with
  | nil => rfl
  | cons segment segments ih =>
      rw [walk_cons]
      by_cases stays : segment = "."
      · subst stays
        rw [resolveSteps, ih, walk_dot]
      · by_cases climbs : segment = ".."
        · subst climbs
          rw [resolveSteps, ih]
          rfl
        · rw [walk_name climbs stays, resolveSteps]
          · cases held : disk.node? (place ++ [segment]) with
            | none => exact ih _
            | some node =>
                cases node with
                | link target => exact absurd held (linkFree _ _)
                | _ => exact ih _
          · exact stays
          · exact climbs

theorem resolve_eq_placeOf (path : Path) : disk.resolve path = .ok (fromRoot (disk.placeOf path)) :=
  Project.resolve_of_steps fun onLink => resolveSteps_eq_walk linkFree onLink _ path.segments

end Disk

theorem Path.anchor_ofText (text : String) : (ofText text).anchor = anchorOf text.toList := rfl

theorem Path.segments_ofText (text : String) : (ofText text).segments = segmentsOf text := rfl

theorem Path.anchorOf_eq_current_iff {characters : List Char} :
    anchorOf characters = .current ↔ characters.head? ≠ some '/' := by
  cases characters with
  | nil => simp [anchorOf]
  | cons first rest =>
      rw [List.head?_cons, ne_eq, Option.some_inj]
      unfold anchorOf
      split <;> simp_all

namespace Template

theorem takePart_go_append (separators : List Char) (first : Char) (characters : List Char) :
    (takePart.go separators first characters).1 ++ (takePart.go separators first characters).2 =
      first :: characters := by
  induction characters generalizing first with
  | nil => rfl
  | cons next rest ih =>
      unfold takePart.go
      split
      · rfl
      · exact congrArg (List.cons first) (ih next)

theorem takePart_append (separators characters : List Char) :
    (takePart separators characters).1 ++ (takePart separators characters).2 = characters := by
  cases characters with
  | nil => rfl
  | cons first rest => exact takePart_go_append separators first rest

theorem takePart_subset (separators characters : List Char) :
    (takePart separators characters).1 ⊆ characters ∧
      (takePart separators characters).2 ⊆ characters := by
  rw [← List.append_subset, takePart_append]
  exact List.Subset.refl _

theorem takeAfter_subset (separator : Char) (separators characters : List Char) :
    (∀ part ∈ (takeAfter separator separators characters).1, part ⊆ characters) ∧
      (takeAfter separator separators characters).2 ⊆ characters := by
  cases characters with
  | nil => exact ⟨nofun, List.Subset.refl _⟩
  | cons first rest =>
      by_cases starts : first = separator
      · obtain ⟨part, remaining⟩ := takePart_subset separators rest
        simp only [takeAfter, if_pos starts]
        refine ⟨?_, List.subset_cons_of_subset _ remaining⟩
        rintro _ ⟨⟩
        exact List.subset_cons_of_subset _ part
      · simp only [takeAfter, if_neg starts]
        exact ⟨nofun, List.Subset.refl _⟩

theorem Parts.subset_ofChars (characters : List Char) :
    (ofChars characters).repository ⊆ characters ∧
      (∀ part ∈ (ofChars characters).first?, part ⊆ characters) ∧
      ∀ part ∈ (ofChars characters).second?, part ⊆ characters := by
  obtain ⟨repository, rest⟩ := takePart_subset ['%', '#'] characters
  obtain ⟨first, others⟩ := takeAfter_subset '%' ['%', '#'] (takePart ['%', '#'] characters).2
  obtain ⟨second, -⟩ := takeAfter_subset '%' ['#']
    (takeAfter '%' ['%', '#'] (takePart ['%', '#'] characters).2).2
  exact ⟨repository, fun part member => List.Subset.trans (first part member) rest,
    fun part member => List.Subset.trans (second part member) (List.Subset.trans others rest)⟩

theorem Parts.asked_subset (characters : List Char) :
    (((ofChars characters).second?.or (ofChars characters).first?).getD
      (ofChars characters).repository) ⊆ characters := by
  obtain ⟨repository, first, second⟩ := subset_ofChars characters
  cases last : (ofChars characters).second? with
  | some part => exact second part last
  | none =>
      cases only : (ofChars characters).first? with
      | some part => exact first part only
      | none => exact repository

/-- The symbol begins with neither a slash nor a dot, so that its file form is a relative path. -/
def IsRelative (symbol : String) : Prop :=
  symbol.toList.head? ∉ [none, some '/', some '.']

instance (symbol : String) : Decidable (IsRelative symbol) :=
  inferInstanceAs (Decidable (¬ _))

theorem isRelative_of_parse {space text : String} {name : TemplateName}
    (parses : TemplateName.parse space text = .ok name) (bare : '/' ∉ text.toList)
    (relative : IsRelative space) : IsRelative name.template := by
  simp only [TemplateName.parse] at parses
  split at parses
  · cases parses
  · obtain rfl := Except.ok.inj parses
    have inside := List.Subset.trans (Parts.asked_subset (Text.strip text).toList)
      (Text.strip_subset text)
    simp only [TemplateName.ofParts, TemplateName.qualify, String.toList_ofList,
      List.contains_eq_mem, decide_eq_true_eq, if_neg fun slash => bare (inside slash)]
    unfold IsRelative at relative ⊢
    cases spelled : space.toList with
    | nil => simp [spelled] at relative
    | cons first rest => simpa [spelled] using relative

def wayTo (symbol : String) : List String :=
  segmentsOf (Name.fileForm symbol)

theorem fileChar_eq_slash_iff {character : Char} :
    Name.fileChar character = '/' ↔ character = '/' ∨ character = '.' := by
  unfold Name.fileChar
  split
  · simp_all
  · split <;> simp_all

theorem anchorOf_descriptorOf_iff {symbol : String} :
    anchorOf (descriptorOf symbol).toList = .current ↔ IsRelative symbol := by
  rw [Path.anchorOf_eq_current_iff, descriptorOf, Name.fileForm, IsRelative]
  cases symbol.toList with
  | nil => simp
  | cons first rest => simp [fileChar_eq_slash_iff]

theorem segmentsOf_descriptorOf (symbol : String) :
    segmentsOf (descriptorOf symbol) = wayTo symbol ++ [descriptorFile] := by
  rw [descriptorOf, Path.segmentsOf_append, wayTo]
  rfl

theorem not_climbs_descriptorOf (symbol : String) : ".." ∉ segmentsOf (descriptorOf symbol) := by
  rw [segmentsOf_descriptorOf, List.mem_append]
  rintro (inside | last)
  · have dots : ∀ character ∈ (Name.fileForm symbol).toList, character ≠ '.' :=
      Bundled.forall_mem_fileForm (· ≠ '.') (by decide) (by decide) fun _ _ apart => apart
    exact dots '.' (Path.subset_of_mem_segmentsOf inside (by decide)) rfl
  · exact absurd last (by decide)

section LinkFree

variable {disk : Disk} (linkFree : disk.LinkFree) {symbol : String} {root : Path}

include linkFree

theorem locationOn_of_placeOf {place : Place}
    (leads : disk.placeOf (root / descriptorOf symbol) = place ++ [descriptorFile]) :
    locationOn disk symbol root = ⟨fromRoot place, fromRoot place / descriptorFile⟩ := by
  have stays : Inner descriptorFile := by decide
  rw [Path.fromRoot_div stays, locationOn, followed, Disk.resolve_eq_placeOf linkFree, leads]
  simp only [Path.parent, fromRoot, List.dropLast_concat]
  rfl

theorem locationOn_of_relative (relative : IsRelative symbol) :
    locationOn disk symbol root = ⟨fromRoot (disk.placeOf root ++ wayTo symbol),
      fromRoot (disk.placeOf root ++ wayTo symbol) / descriptorFile⟩ := by
  have inner : Inner (descriptorOf symbol) :=
    ⟨anchorOf_descriptorOf_iff.2 relative, not_climbs_descriptorOf symbol⟩
  have leads : disk.placeOf (root / descriptorOf symbol) =
      disk.placeOf root ++ wayTo symbol ++ [descriptorFile] := by
    rw [Disk.placeOf_div disk root inner, segmentsOf_descriptorOf, List.append_assoc]
  exact locationOn_of_placeOf linkFree leads

theorem locationOn_of_anchored (anchored : ¬ IsRelative symbol) :
    locationOn disk symbol root =
      ⟨fromRoot (wayTo symbol), fromRoot (wayTo symbol) / descriptorFile⟩ := by
  have starts : (ofText (descriptorOf symbol)).anchor ≠ .current := by
    rw [Path.anchor_ofText]
    exact mt anchorOf_descriptorOf_iff.1 anchored
  have leads : disk.placeOf (root.join (ofText (descriptorOf symbol))) =
      wayTo symbol ++ [descriptorFile] := by
    rw [Path.join_of_anchored root starts, Disk.placeOf, Disk.start, if_neg starts,
      Path.segments_ofText, Disk.walk_of_inner (fun _ member => Path.mem_segmentsOf member)
        (not_climbs_descriptorOf symbol), segmentsOf_descriptorOf, List.nil_append]
  exact locationOn_of_placeOf linkFree leads

omit linkFree in
theorem exists_root_of_found {roots : List Path} {location : Location}
    (found : find? disk roots symbol = some location) :
    ∃ root ∈ roots, offers disk symbol root = true ∧ location = locationOn disk symbol root := by
  rw [find?_eq_map] at found
  obtain ⟨root, hit, rfl⟩ := Option.map_eq_some_iff.1 found
  exact ⟨root, List.mem_of_find?_eq_some hit, List.find?_some hit, rfl⟩

/-- A template that is found lies at the way of its symbol below a root that offers it, if the symbol
begins with neither a slash nor a dot. Otherwise it lies there below the root of the disk, wherever
the searched roots are. -/
theorem location_of_found {resources roots : List Path} {location : Location}
    (found : find? disk (resources ++ roots) symbol = some location) :
    location.descriptor = location.directory / descriptorFile ∧
      ∃ root ∈ resources ++ roots, offers disk symbol root = true ∧
        (IsRelative symbol → location.directory = fromRoot (disk.placeOf root ++ wayTo symbol)) ∧
        (¬ IsRelative symbol → location.directory = fromRoot (wayTo symbol)) := by
  obtain ⟨root, member, offered, rfl⟩ := exists_root_of_found found
  by_cases relative : IsRelative symbol
  · rw [locationOn_of_relative linkFree relative]
    exact ⟨rfl, root, member, offered, fun _ => rfl, fun anchored => absurd relative anchored⟩
  · rw [locationOn_of_anchored linkFree relative]
    exact ⟨rfl, root, member, offered, fun other => absurd other relative, fun _ => rfl⟩

theorem location_of_parse {space text : String} {name : TemplateName}
    (parses : TemplateName.parse space text = .ok name) (bare : '/' ∉ text.toList)
    (relative : IsRelative space) {roots : List Path} {location : Location}
    (found : find? disk roots name.template = some location) :
    ∃ root ∈ roots, location.directory = fromRoot (disk.placeOf root ++ wayTo name.template) := by
  obtain ⟨root, member, -, rfl⟩ := exists_root_of_found found
  refine ⟨root, member, ?_⟩
  rw [locationOn_of_relative linkFree (isRelative_of_parse parses bare relative)]

end LinkFree

def besideRoots : Disk :=
  .holding [(["home"], .directory), (["tmp"], .directory),
      (["templates"], .directory), (["templates", "acme"], .directory),
      (["templates", "acme", "app"], .directory),
      (["templates", "acme", "app", descriptorFile], .file "root: src".toUTF8 false),
      (["drafts"], .directory), (["drafts", "app"], .directory),
      (["drafts", "app", descriptorFile], .file "root: src".toUTF8 false)]
    ["home"] ["tmp"]

theorem linkFree_besideRoots : besideRoots.LinkFree :=
  (Disk.sound_of_lists (by decide +kernel) (by decide +kernel)).linkFree

theorem location_of_found_app : ∃ name location,
    TemplateName.parse defaultNamespace "acme/app" = .ok name ∧
    find? besideRoots ([] ++ [.ofText "../templates"]) name.template = some location ∧
    location.directory = fromRoot ["templates", "acme", "app"] := by
  have found : find? besideRoots ([] ++ [.ofText "../templates"]) "acme/app" =
      some (locationOn besideRoots "acme/app" (.ofText "../templates")) := by
    decide +kernel
  obtain ⟨-, root, member, -, inside, -⟩ := location_of_found linkFree_besideRoots found
  cases List.mem_singleton.1 member
  exact ⟨⟨"acme/app", none, "acme/app", none⟩, _, by decide +kernel, found, inside (by decide)⟩

/-- A symbol that begins with a dot leads away from the roots. -/
theorem found_beside_roots : ∃ name location,
    TemplateName.parse defaultNamespace ".drafts/app" = .ok name ∧
    find? besideRoots ([] ++ [fromRoot ["templates"]]) name.template = some location ∧
    ∀ root ∈ [fromRoot ["templates"]],
      ¬ besideRoots.placeOf root <+: location.directory.segments := by
  refine ⟨⟨".drafts/app", none, ".drafts/app", none⟩,
    ⟨fromRoot ["drafts", "app"], fromRoot ["drafts", "app", descriptorFile]⟩, ?_⟩
  decide +kernel

end Template

end Archetype
