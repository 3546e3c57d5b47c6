import Archetype.Proofs.FilePlans
import Mathlib

namespace Archetype.Copier

open Archetype.Action Archetype.Disk

/-! ## Replacements that replace nothing -/

theorem relativeText_effective (replacements? : Option Replacements) (relative : List String) :
    relativeText (effective replacements?) relative = relativeText replacements? relative := by
  cases replacements? with
  | none => rfl
  | some replacements =>
      rw [effective, Option.filter_some]
      cases empty : replacements.isEmpty with
      | false => rfl
      | true =>
          have none : replacements.entries = [] := List.isEmpty_iff.1 empty
          simp [relativeText, Replacements.apply, none]

theorem destination_effective (target : Path) (replacements? : Option Replacements)
    (relative : List String) :
    destination target (effective replacements?) relative =
      destination target replacements? relative := by
  rw [destination_eq, destination_eq, relativeText_effective]

/-! ## The files that are copied -/

structure Original where
  source : Path
  place : Place
  content : Content
deriving DecidableEq

def originals (copier : Copier) (disk : Disk) (sources : List Path) : List Original :=
  sources.flatMap fun source => (copier.picks disk source).map fun file =>
    ⟨source, file.1, file.2⟩

namespace Original

def destination (target : Path) (replacements? : Option Replacements) (original : Original) : Path :=
  Copier.destination target replacements? original.place

def copied (copier : Copier) (replacements? : Option Replacements) (original : Original) : Content :=
  copier.delivered (effective replacements?) (original.source.join ⟨.current, original.place⟩)
    original.content

def write (copier : Copier) (target : Path) (replacements? : Option Replacements)
    (original : Original) : Write :=
  copier.write target (effective replacements?) original.source original.place original.content

variable {copier : Copier} {target : Path} {replacements? : Option Replacements}
  {original : Original}

theorem path_write :
    (original.write copier target replacements?).path = original.destination target replacements? :=
  destination_effective target replacements? original.place

theorem destination_eq : original.destination target replacements? =
    target / relativeText replacements? original.place :=
  Copier.destination_eq target replacements? original.place

end Original

/-- Nothing that is there is in the way of a destination, and no destination lies on the way of one,
be it its own: the way to `q/x/..` leads through `q/x`, so a file `x` is in its own way there. -/
structure Unobstructed (disk : Disk) (target : Path) (replacements? : Option Replacements)
    (originals : List Original) : Prop where
  names : ∀ original ∈ originals, Names (relativeText replacements? original.place)
  vacant : ∀ original ∈ originals,
    disk.node? (disk.placeOf (original.destination target replacements?)) ≠ some .directory
  way : ∀ original ∈ originals, ∀ place,
    disk.OnWay (original.destination target replacements?).parent place →
      disk.contentAt place = none
  free : ∀ original ∈ originals, ∀ other ∈ originals,
    ¬ disk.OnWay (original.destination target replacements?).parent
      (disk.placeOf (other.destination target replacements?))

theorem below_of_onWay_parent {disk : Disk} {target : Path} (target_written : target.IsWritten)
    (target_inner : ".." ∉ target.segments) {text : String} (names : Names text) {place : Place}
    (onWay : disk.OnWay (target / text).parent place) :
    Below (disk.placeOf (target / text)) place := by
  rw [placeOf_div disk target names.inner]
  rcases (onWay_parent_div_iff names.inner names.more).1 onWay with way | ⟨front, below, rfl⟩
  · have above := prefix_of_onWay target_written target_inner way
    refine ⟨above.trans (List.prefix_append _ _), fun same => names.more ?_⟩
    have short := above.length_le
    rw [same, List.length_append] at short
    exact List.length_eq_zero_iff.1 (by omega)
  · exact ⟨(List.prefix_append_right_inj _).2 below.1, fun same =>
      below.2 (List.append_cancel_left same)⟩

theorem unobstructed_of_inner {disk : Disk} {target : Path} (target_written : target.IsWritten)
    (target_inner : ".." ∉ target.segments) {replacements? : Option Replacements}
    {originals : List Original}
    (names : ∀ original ∈ originals, Names (relativeText replacements? original.place))
    (vacant : ∀ original ∈ originals,
      disk.node? (disk.placeOf (original.destination target replacements?)) ≠ some .directory)
    (way : ∀ original ∈ originals, ∀ place,
      Below (disk.placeOf (original.destination target replacements?)) place →
        disk.contentAt place = none)
    (free : ∀ original ∈ originals, ∀ other ∈ originals,
      ¬ Below (disk.placeOf (original.destination target replacements?))
        (disk.placeOf (other.destination target replacements?))) :
    Unobstructed disk target replacements? originals := by
  have below : ∀ original ∈ originals, ∀ place,
      disk.OnWay (original.destination target replacements?).parent place →
        Below (disk.placeOf (original.destination target replacements?)) place := by
    intro original member place onWay
    rw [Original.destination_eq] at onWay ⊢
    exact below_of_onWay_parent target_written target_inner (names original member) onWay
  exact ⟨names, vacant, fun original member place onWay =>
    way original member place (below original member place onWay), fun original member other inside
      onWay => free original member other inside (below original member _ onWay)⟩

section Sources

variable {disk : Disk} (sound : disk.Sound) {copier : Copier} {sources : List Path}
  (directories : ∀ source ∈ sources, disk.isDirectory source = true)

include sound directories

theorem mem_originals_iff {original : Original} :
    original ∈ copier.originals disk sources ↔ original.source ∈ sources ∧
      copier.takes disk original.source original.place = some original.content := by
  rw [originals, List.mem_flatMap]
  constructor
  · rintro ⟨source, member, picked⟩
    obtain ⟨file, listed, rfl⟩ := List.mem_map.1 picked
    exact ⟨member, (mem_picks_iff sound (directories source member)).1 listed⟩
  · rintro ⟨member, takes⟩
    exact ⟨original.source, member, List.mem_map.2 ⟨(original.place, original.content),
      (mem_picks_iff sound (directories _ member)).2 takes, rfl⟩⟩

theorem map_write_originals (target : Path) (replacements? : Option Replacements) :
    (copier.originals disk sources).map (·.write copier target replacements?) =
      sources.flatMap (copier.treePlan disk target replacements?) := by
  rw [originals, List.map_flatMap]
  refine List.flatMap_congr fun source member => ?_
  rw [treePlan_eq_picks sound (directories source member), List.map_map]
  rfl

variable (sources_written : ∀ source ∈ sources, source.IsWritten) {target : Path}
  (target_written : target.IsWritten) (noNull : hasNull target.segments = false)
  (begins : disk.node? (disk.start target.anchor) = some .directory)
  {replacements? : Option Replacements}
  (unobstructed : Unobstructed disk target replacements? (copier.originals disk sources))

include sources_written target_written noNull begins unobstructed

theorem layable_originals : disk.Layable
    ((copier.originals disk sources).map (·.write copier target replacements?)) := by
  constructor <;> simp only [List.forall_mem_map, Original.path_write]
  · intro original member
    obtain ⟨inside, takes⟩ := (mem_originals_iff sound directories).1 member
    have listed := mem_listing_of_takes sound (directories _ inside) takes
    rw [← taken?_eq_takes sound (directories _ inside) listed] at takes
    have found := (taken?_eq_some_iff.1 takes).2
    have world_sound : ({ disk } : World).disk.Sound := sound
    exact write_proper world_sound (sources_written _ inside) target_written
      (fun _ => isName_of_mem_listing sound listed) found
  · intro original member
    have names := unobstructed.names original member
    rw [Original.destination_eq, Path.div_of_inner target names.inner]
    exact hasNull_append noNull names.noNull
  · intro original member
    have names := unobstructed.names original member
    rw [Original.destination_eq, Path.div_of_inner target names.inner]
    exact begins
  · intro original member place onWay
    exact sound.directory_or_absent (unobstructed.way original member place onWay)
  · exact unobstructed.vacant
  · exact unobstructed.free

end Sources

/-! ## Copying the directories -/

theorem picks_of_lays {before after : Disk} (sound : before.Sound) {laid : List (Write × Place)}
    (lays : Lays laid before after) {source target : Path}
    (stays : ∀ item ∈ laid, item.1.StaysBelow target)
    (directory : before.isDirectory source = true)
    (apart : Apart (before.placeOf source) (before.placeOf target)) (copier : Copier) :
    copier.picks after source = copier.picks before source := by
  have altered := lays.altered sound stays
  have still : after.isDirectory source = true :=
    isDirectory_of_grows sound altered.sound altered.current (fun _ => lays.grows) directory
  have contents : ∀ place, after.contentAt (before.placeOf source ++ place) =
      before.contentAt (before.placeOf source ++ place) := by
    intro place
    rcases altered.node (before.placeOf source ++ place) with
      within | kept | ⟨-, absent, made⟩ | ⟨wrote, -, -⟩
    · exact absurd within (not_prefix_of_apart apart (List.prefix_append _ _))
    · exact contentAt_congr kept
    · rw [contentAt_eq_none (Or.inl absent), contentAt_eq_none (Or.inr made)]
    · exact wrote.elim
  refine picks_eq altered.sound still (copier.picks_ordered before source) fun place content => ?_
  rw [mem_picks_iff sound directory, takes, takes, altered.placeOf, contents]

theorem copySources_lays {copier : Copier} {target : Path} (target_written : target.IsWritten)
    {replacements? : Option Replacements} {sources : List Path} {world : World}
    (sound : world.disk.Sound) (sources_written : ∀ source ∈ sources, source.IsWritten)
    (directories : ∀ source ∈ sources, world.disk.isDirectory source = true)
    (apart : ∀ source ∈ sources, Apart (world.disk.placeOf source) (world.disk.placeOf target))
    {laid : List (Write × Place)} {after : Disk}
    (follows : Follows laid target
      (sources.flatMap (copier.treePlan world.disk target replacements?)) world.disk after) :
    ∃ reached, copier.copySources target (effective replacements?) sources world =
      .ok (laid.map fun item => item.1.path) reached ∧ Same after reached.disk := by
  induction sources generalizing world laid with
  | nil =>
      obtain rfl := List.map_eq_nil_iff.1 follows.writes
      cases follows.lays with
      | nil same => exact ⟨world, rfl, same.symm⟩
  | cons source sources ih =>
      obtain ⟨written, others_written⟩ := List.forall_mem_cons.1 sources_written
      obtain ⟨directory, others_directories⟩ := List.forall_mem_cons.1 directories
      obtain ⟨own, others_apart⟩ := List.forall_mem_cons.1 apart
      obtain ⟨writes, lays, stays⟩ := follows
      rw [List.flatMap_cons] at writes
      obtain ⟨first, rest, rfl, first_writes, rest_writes⟩ := List.map_eq_append_iff.1 writes
      obtain ⟨first_stay, rest_stay⟩ := List.forall_mem_append.1 stays
      obtain ⟨middle, first_lay, rest_lay⟩ := lays.split sound
      obtain ⟨between, copies, same⟩ := copyEach_lays sound written target_written
        (fun _ listed _ => isName_of_mem_listing sound listed)
        (parted_of_apart directory own (listing world.disk source))
        ⟨first_writes, first_lay, first_stay⟩
      have first_lays := first_lay.congr same
      have between_sound := first_lays.sound sound
      have still : ∀ other ∈ sources, between.disk.isDirectory other = true := fun other member =>
        isDirectory_of_grows sound between_sound first_lays.current (fun _ => first_lays.grows)
          (others_directories other member)
      -- a copy leaves the files of all sources as they are, so the plans for the others stand
      have plans : sources.flatMap (copier.treePlan between.disk target replacements?) =
          sources.flatMap (copier.treePlan world.disk target replacements?) := by
        refine List.flatMap_congr fun other member => ?_
        rw [treePlan_eq_picks between_sound (still other member),
          treePlan_eq_picks sound (others_directories other member),
          picks_of_lays sound first_lays first_stay (others_directories other member)
            (others_apart other member)]
      obtain ⟨reached, copied, ends⟩ := ih between_sound others_written still
        (by simpa only [placeOf_congr first_lays.current] using others_apart)
        ⟨rest_writes.trans plans.symm, rest_lay.congr_left same.symm, rest_stay⟩
      refine ⟨reached, ?_, ends⟩
      have directory_copied : copier.copyDirectory target (effective replacements?) source world =
          .ok (first.map fun item => item.1.path) between := by
        rw [copyDirectory, disk_bind, directory]
        exact copies
      rw [copySources, bind_ok directory_copied, bind_ok copied, List.map_append]
      rfl

/-! ## What the disk holds then -/

/-- Each destination holds the last file that goes to it, and besides only missing directories on the
way to a destination have been made. -/
structure Copied (copier : Copier) (disk : Disk) (target : Path)
    (replacements? : Option Replacements) (originals : List Original) (after : Disk) : Prop where
  last : ∀ front original later, originals = front ++ original :: later →
    (∀ other ∈ later, disk.placeOf (other.destination target replacements?) ≠
      disk.placeOf (original.destination target replacements?)) →
    after.contentAt (disk.placeOf (original.destination target replacements?)) =
      some (original.copied copier replacements?)
  other : ∀ place, (∀ original ∈ originals,
      disk.placeOf (original.destination target replacements?) ≠ place) →
    after.node? place = disk.node? place ∨
      disk.node? place = none ∧ after.node? place = some .directory ∧
      ∃ original ∈ originals, disk.OnWay (original.destination target replacements?).parent place

theorem copied_of_lays {copier : Copier} {disk after : Disk} (sound : disk.Sound) {target : Path}
    {replacements? : Option Replacements} {originals : List Original}
    (lays : Lays (disk.atPaths (originals.map (·.write copier target replacements?))) disk after) :
    Copied copier disk target replacements? originals after := by
  have laid : contents (disk.atPaths (originals.map (·.write copier target replacements?))) =
      originals.map fun original => (disk.placeOf (original.destination target replacements?),
        original.copied copier replacements?) := by
    simp only [contents, atPaths, List.map_map, Function.comp_def, Original.path_write]
    rfl
  constructor
  · intro front original later whole elsewhere
    rw [lays.contentAt_eq, laid, whole, List.map_append, List.map_cons]
    exact overlay_last_write _ _ (disk.placeOf _, original.copied copier replacements?)
      (List.forall_mem_map.2 elsewhere)
  · intro place elsewhere
    have apart : ∀ write ∈ contents (disk.atPaths
        (originals.map (·.write copier target replacements?))), write.1 ≠ place := by
      rw [laid]
      exact List.forall_mem_map.2 elsewhere
    obtain kept | ⟨absent, made⟩ := lays.node_of_nowhere sound apart
    · exact Or.inl kept
    refine Or.inr ⟨absent, made, ?_⟩
    rcases (lays.directory_iff place).1 made with before | ⟨item, member, onWay⟩
    · rw [absent] at before
      cases before
    · obtain ⟨_, written, rfl⟩ := List.mem_map.1 member
      obtain ⟨original, listed, rfl⟩ := List.mem_map.1 written
      rw [Original.path_write] at onWay
      exact ⟨original, listed, onWay⟩

/-- The files of all directories are copied, one directory after the other and those of each in the
order of their places. -/
theorem copyTree_originals {copier : Copier} {world : World} (sound : world.disk.Sound)
    {sources : List Path} (sources_written : ∀ source ∈ sources, source.IsWritten)
    (directories : ∀ source ∈ sources, world.disk.isDirectory source = true) {target : Path}
    (target_written : target.IsWritten) (noNull : hasNull target.segments = false)
    (begins : world.disk.node? (world.disk.start target.anchor) = some .directory)
    (apart : ∀ source ∈ sources, Apart (world.disk.placeOf source) (world.disk.placeOf target))
    {replacements? : Option Replacements}
    (unobstructed :
      Unobstructed world.disk target replacements? (copier.originals world.disk sources)) :
    (∀ source ∈ sources,
      (copier.picks world.disk source).Pairwise (fun file other => Precedes file.1 other.1) ∧
      ∀ place content, (place, content) ∈ copier.picks world.disk source ↔
        copier.isIgnored place = false ∧ hasNull place = false ∧
        world.disk.contentAt (world.disk.placeOf source ++ place) = some content) ∧
    ∃ reached,
      copier.copyTree target sources replacements? world =
        .ok ((copier.originals world.disk sources).map (·.destination target replacements?))
          reached ∧
      Copied copier world.disk target replacements? (copier.originals world.disk sources)
        reached.disk := by
  refine ⟨fun source member => ⟨copier.picks_ordered world.disk source, fun place content => ?_⟩, ?_⟩
  · rw [mem_picks_iff sound (directories source member), takes_eq_some_iff, contentAt_eq_some_iff]
  obtain ⟨after, lays⟩ := (layable_originals sound directories sources_written target_written noNull
    begins unobstructed).lays sound
  have stays : ∀ item ∈ world.disk.atPaths
      ((copier.originals world.disk sources).map (·.write copier target replacements?)),
      item.1.StaysBelow target := by
    simp only [atPaths, List.map_map, List.forall_mem_map]
    intro original member
    exact Write.staysBelow_of_inner (unobstructed.names original member).inner
      (Original.path_write.trans Original.destination_eq)
  obtain ⟨reached, copies, same⟩ := copySources_lays target_written sound sources_written
    directories apart ⟨(map_fst_atPaths _ _).trans (map_write_originals sound directories _ _), lays,
      stays⟩
  have answer : (world.disk.atPaths ((copier.originals world.disk sources).map
      (·.write copier target replacements?))).map (fun item => item.1.path) =
        (copier.originals world.disk sources).map (·.destination target replacements?) := by
    simp only [atPaths, List.map_map, Function.comp_def, Original.path_write]
  rw [answer] at copies
  refine ⟨{ reached with journal := reached.journal ++ [.noted (.copied ((copier.originals
    world.disk sources).map (·.destination target replacements?)).length target.toText)] }, ?_,
      copied_of_lays sound (lays.congr same)⟩
  rw [copyTree, bind_ok copies]
  rfl

/-! ## Two directories that share a destination -/

def sharedWorld : World where
  disk := .holding
    [(["home"], .directory), (["tmp"], .directory),
      (["one"], .directory), (["one", ".#old"], .directory),
      (["one", ".#old", "b.txt"], .file "B".toUTF8 false),
      (["one", "\x7b\x7bname\x7d\x7d.png"], .file "\x7b\x7bname\x7d\x7d".toUTF8 false),
      (["one", "\x7b\x7bname\x7d\x7d.txt"], .file "first".toUTF8 true),
      (["two"], .directory), (["two", "in"], .directory),
      (["two", "in", "\x7b\x7bname\x7d\x7d"], .file "I am \x7b\x7bname\x7d\x7d".toUTF8 true),
      (["two", "x.txt"], .file "\x7b\x7bname\x7d\x7d".toUTF8 false),
      (["out"], .directory), (["out", "x.txt"], .file "old".toUTF8 true)]
    ["home"] ["tmp"]

theorem sound_sharedWorld : sharedWorld.disk.Sound :=
  sound_of_lists (by decide +kernel) (by decide +kernel)

def sharedReplacements : Replacements :=
  Table.ofList [("\x7b\x7bname\x7d\x7d", "x")]

def sharedOriginals : List Original :=
  [⟨.ofText "/one", ["\x7b\x7bname\x7d\x7d.png"], "\x7b\x7bname\x7d\x7d".toUTF8, false⟩,
    ⟨.ofText "/one", ["\x7b\x7bname\x7d\x7d.txt"], "first".toUTF8, true⟩,
    ⟨.ofText "/two", ["in", "\x7b\x7bname\x7d\x7d"], "I am \x7b\x7bname\x7d\x7d".toUTF8, true⟩,
    ⟨.ofText "/two", ["x.txt"], "\x7b\x7bname\x7d\x7d".toUTF8, false⟩]

theorem copyTree_originals_shared : ∃ reached,
    standard.copyTree (.ofText "/out") [.ofText "/one", .ofText "/two"] (some sharedReplacements)
      sharedWorld = .ok (["x.png", "x.txt", "in/x", "x.txt"].map (.ofText <| "/out/" ++ ·)) reached ∧
    Copied standard sharedWorld.disk (.ofText "/out") (some sharedReplacements) sharedOriginals
      reached.disk ∧
    reached.disk.contentAt ["out", "x.txt"] = some ("x".toUTF8, false) := by
  have whole : standard.originals sharedWorld.disk [.ofText "/one", .ofText "/two"] =
      sharedOriginals := by
    decide +kernel
  have above : ∀ original ∈ sharedOriginals,
      ∀ place ∈ (sharedWorld.disk.placeOf (original.destination (.ofText "/out")
        (some sharedReplacements))).inits, place ≠ sharedWorld.disk.placeOf (original.destination
          (.ofText "/out") (some sharedReplacements)) → sharedWorld.disk.contentAt place = none := by
    decide +kernel
  have unobstructed : Unobstructed sharedWorld.disk (.ofText "/out") (some sharedReplacements)
      sharedOriginals :=
    unobstructed_of_inner (Path.isWritten_ofText _) (by decide +kernel) (by decide +kernel)
      (by decide +kernel) (fun original member place below =>
        above original member place ((List.mem_inits _ _).2 below.1) below.2) (by decide +kernel)
  have answer : sharedOriginals.map (·.destination (.ofText "/out") (some sharedReplacements)) =
      ["x.png", "x.txt", "in/x", "x.txt"].map (.ofText <| "/out/" ++ ·) := by
    decide +kernel
  have sources_written : ∀ source ∈ [Path.ofText "/one", .ofText "/two"], source.IsWritten := by
    simp [Path.isWritten_ofText]
  obtain ⟨-, reached, ends, copied⟩ := copyTree_originals sound_sharedWorld sources_written
    (by decide +kernel) (Path.isWritten_ofText "/out") (by decide +kernel) (by decide +kernel)
    (by decide +kernel) (whole ▸ unobstructed)
  rw [whole] at ends copied
  rw [answer] at ends
  refine ⟨reached, ends, copied, ?_⟩
  let last : Original := ⟨.ofText "/two", ["x.txt"], "\x7b\x7bname\x7d\x7d".toUTF8, false⟩
  have place : sharedWorld.disk.placeOf (last.destination (.ofText "/out")
      (some sharedReplacements)) = ["out", "x.txt"] := by
    decide +kernel
  have content : last.copied standard (some sharedReplacements) = ("x".toUTF8, false) := by
    decide +kernel
  rw [← place, ← content]
  exact copied.last (sharedOriginals.take 3) last [] (by decide +kernel) nofun

/-! ## A target that leads back -/

def loneWorld : World where
  disk := .holding
    [(["home"], .directory), (["tmp"], .directory), (["src"], .directory),
      (["src", "x"], .file "A".toUTF8 false)]
    ["home"] ["tmp"]

/-- The only destination is missing, and nothing is in its way. But it lies on the way that its own
path takes, through a directory that is made for it. -/
theorem copyTree_backwards :
    let target := Path.ofText "/q/x/.."
    let original : Original := ⟨.ofText "/src", ["x"], "A".toUTF8, false⟩
    loneWorld.disk.Sound ∧ loneWorld.disk.isDirectory (.ofText "/src") = true ∧
    Apart (loneWorld.disk.placeOf (.ofText "/src")) (loneWorld.disk.placeOf target) ∧
    standard.originals loneWorld.disk [.ofText "/src"] = [original] ∧
    Names (relativeText none original.place) ∧
    loneWorld.disk.node? (loneWorld.disk.placeOf (original.destination target none)) = none ∧
    (∀ place, loneWorld.disk.OnWay (original.destination target none).parent place →
      loneWorld.disk.contentAt place = none) ∧
    ∃ reached, standard.copyTree target [.ofText "/src"] none loneWorld =
        .ok [original.destination target none] reached ∧
      reached.disk.node? (reached.disk.placeOf (original.destination target none)) =
        some .directory ∧
      reached.disk.contentAt ["q", "x", "x"] = some ("A".toUTF8, false) := by
  intro target original
  refine ⟨sound_of_lists (by decide +kernel) (by decide +kernel), by decide +kernel,
    by decide +kernel, by decide +kernel, by decide +kernel, by decide +kernel,
    forall_onWay_iff.2 (by decide +kernel), ?_⟩
  obtain ⟨_, reached, ends, rfl⟩ : Yields (standard.copyTree target [.ofText "/src"] none) loneWorld
      (· = [original.destination target none]) := by
    decide +kernel
  obtain ⟨_, _, same, lies⟩ := ok_of_check (standard.copyTree target [.ofText "/src"] none) loneWorld
    (fun disk => decide (disk.node? (disk.placeOf (original.destination target none)) =
      some .directory ∧ disk.contentAt ["q", "x", "x"] = some ("A".toUTF8, false)))
    (by decide +kernel)
  rw [ends] at same
  cases same
  obtain ⟨occupied, inside⟩ := of_decide_eq_true lies
  exact ⟨reached, ends, occupied, inside⟩

end Archetype.Copier
