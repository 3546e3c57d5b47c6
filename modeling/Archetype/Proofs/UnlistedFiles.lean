import Archetype.Proofs.Keeping
import Archetype.Proofs.Placements
import Mathlib.Data.List.Sort

/-!
# Files that arrive without being renamed

A file that is not listed arrives in the project by way of the temporary directory as it does without:
it is written to the same path, in the same order among such files, with the same content.

* `copy_unlisted`: renaming files does not change the others.
* `copy_changes_unlisted`: it may do so if their paths in the project are not apart from those of the
  listed files.
-/

namespace Archetype.Disk

/-! ## The order of places -/

def Precedes (place other : Place) : Prop :=
  compare place other = .lt

instance : Std.Irrefl Precedes where
  irrefl place precedes := by
    have same : compare place place = .eq := Std.ReflCmp.compare_self
    exact nomatch same.symm.trans precedes

instance : Std.Antisymm Precedes where
  antisymm _ _ first second := by
    have greater := Std.OrientedCmp.gt_of_lt first
    exact nomatch greater.symm.trans second

theorem precedes_append_iff (base : Place) {place other : Place} :
    Precedes (base ++ place) (base ++ other) ↔ Precedes place other := by
  induction base with
  | nil => exact Iff.rfl
  | cons name base ih =>
      have same : compare name name = .eq := Std.ReflCmp.compare_self
      rw [← ih]
      change List.compareLex compare (name :: (base ++ place)) (name :: (base ++ other)) = .lt ↔ _
      rw [List.compareLex_cons_cons, same]
      exact Iff.rfl

theorem listing_ordered (disk : Disk) (source : Path) :
    (Copier.listing disk source).Pairwise Precedes := by
  unfold Copier.listing
  split
  · rename_i place located
    have ordered : (disk.below place).Pairwise fun entry other => Precedes entry.1 other.1 :=
      Std.ExtTreeMap.ordered_keys_toList.filter _
    refine List.pairwise_map.2 (ordered.imp_of_mem fun member other precedes => ?_)
    have within := fun entry (listed : entry ∈ disk.below place) =>
      isWithin_iff.1 ((Bool.and_eq_true _ _).mp (List.mem_filter.1 listed).2).1
    obtain ⟨rest, whole⟩ := within _ member
    obtain ⟨other_rest, other_whole⟩ := within _ other
    rw [← whole, ← other_whole] at precedes
    rw [← whole, ← other_whole, List.drop_left, List.drop_left]
    exact (precedes_append_iff place).1 precedes
  · exact .nil

/-! ## Where files have come to lie -/

def resting (disk : Disk) (path : Path) (name : String) : Place :=
  if disk.node? (disk.placeOf path) = some .directory then disk.placeOf path ++ [name]
  else disk.placeOf path

def Unclaimed (disk : Disk) (files : List (Path × String)) (place : Place) : Prop :=
  disk.node? place ≠ some .directory ∧ ∀ file ∈ files, disk.resting file.1 file.2 ≠ place

instance (disk : Disk) (files : List (Path × String)) (place : Place) :
    Decidable (disk.Unclaimed files place) :=
  inferInstanceAs (Decidable (_ ∧ _))

theorem Lays.eq_resting {laid : List (Write × Place)} {before after : Disk}
    (lays : Lays laid before after) {item : Write × Place} (member : item ∈ laid) {name : String}
    (called : ∀ other, item.1.name? = some other → other = name) :
    item.2 = after.resting item.1.path name := by
  induction lays with
  | nil => cases member
  | @cons write landing others before middle after first rest ih =>
      rcases List.mem_cons.1 member with rfl | later
      · have led : after.placeOf write.path = before.placeOf write.path :=
          placeOf_congr (rest.current.trans first.current) _
        unfold resting
        rw [led]
        cases lands : first.receives.lands with
        | here vacant =>
            refine (if_neg fun directory => ?_).symm
            refine rest.keepsFile ?_ (contentAt_eq_none (Or.inr directory))
            rw [first.contentAt_eq, Function.update_self]
            exact nofun
        | inside named directory vacant =>
            obtain rfl := called _ named
            rw [if_pos (rest.grows ((first.directory_iff _).2 directory))]
      · exact ih later

theorem Lays.contentAt_ne_none {laid : List (Write × Place)} {before after : Disk}
    (lays : Lays laid before after) {item : Write × Place} (member : item ∈ laid) {place : Place}
    (led : before.placeOf item.1.path = place) (vacant : after.node? place ≠ some .directory) :
    after.contentAt place ≠ none := by
  rw [← placeOf_congr lays.current] at led
  have rests : item.2 = after.resting item.1.path (item.1.name?.getD "") :=
    lays.eq_resting member fun other named => by rw [named, Option.getD_some]
  rw [resting, led, if_neg vacant] at rests
  rw [lays.contentAt_eq]
  exact overlay_ne_none (Or.inl ⟨_, List.mem_map_of_mem member, rests⟩)

theorem resting_congr {disk other : Disk} (sound : disk.Sound)
    (current : disk.current = other.current) {place : Place} {content : Content}
    (held : disk.contentAt place = some content) {path : Path} {name : String}
    (rests : other.resting path name = place) : disk.resting path name = place := by
  have file := contentAt_eq_some_iff.1 held
  unfold resting at rests ⊢
  rw [placeOf_congr current]
  split at rests
  · rw [if_pos, rests]
    refine sound.directory_of_append (List.cons_ne_nil name []) ?_
    rw [rests, file]
    exact nofun
  · rw [rests, if_neg]
    rw [file]
    exact nofun

def laidAt (disk : Disk) (place : Place) (write : Write) : Option Content :=
  if disk.resting write.path (write.name?.getD "") = place then some write.content else none

theorem laidAt_congr {left right : Disk} (left_sound : left.Sound) (right_sound : right.Sound)
    (current : right.current = left.current) {place : Place} {content other : Content}
    (left_held : left.contentAt place = some content)
    (right_held : right.contentAt place = some other) (write : Write) :
    right.laidAt place write = left.laidAt place write := by
  have same : right.resting write.path (write.name?.getD "") = place ↔
      left.resting write.path (write.name?.getD "") = place :=
    ⟨resting_congr left_sound current.symm left_held, resting_congr right_sound current right_held⟩
  simp only [laidAt, same]

theorem overlay_eq_last (files : Place → Option Content) (writes : List (Place × Content))
    (place : Place) :
    overlay files writes place =
      ((writes.filterMap fun write => if write.1 = place then some write.2 else none).getLast?).or
        (files place) := by
  induction writes generalizing files with
  | nil => rfl
  | cons write others ih =>
      change overlay (Function.update files write.1 (some write.2)) others place = _
      rw [ih, List.filterMap_cons]
      by_cases here : write.1 = place
      · rw [here, Function.update_self, if_pos rfl, List.getLast?_cons]
        cases (others.filterMap fun other => if other.1 = place then some other.2
          else none).getLast? <;> rfl
      · rw [Function.update_of_ne (Ne.symm here), if_neg here]

theorem Lays.laidAt_eq {laid : List (Write × Place)} {before after : Disk}
    (lays : Lays laid before after) {item : Write × Place} (member : item ∈ laid) {name : String}
    (called : ∀ other, item.1.name? = some other → other = name) (place : Place) :
    after.laidAt place item.1 =
      if after.resting item.1.path name = place then some item.1.content else none := by
  have rests : item.2 = after.resting item.1.path (item.1.name?.getD "") :=
    lays.eq_resting member fun other named => by rw [named, Option.getD_some]
  rw [laidAt, ← rests, ← lays.eq_resting member called]

theorem Lays.contentAt_eq_last {laid : List (Write × Place)} {before after : Disk}
    (lays : Lays laid before after) (place : Place) :
    after.contentAt place =
      (((laid.map Prod.fst).filterMap (after.laidAt place)).getLast?).or
        (before.contentAt place) := by
  rw [lays.contentAt_eq, overlay_eq_last, contents, List.filterMap_map, List.filterMap_map]
  congr 2
  refine List.filterMap_congr fun item member => ?_
  have rests : item.2 = after.resting item.1.path (item.1.name?.getD "") :=
    lays.eq_resting member fun other named => by rw [named, Option.getD_some]
  rw [Function.comp_apply, Function.comp_apply, laidAt, ← rests]

end Archetype.Disk

namespace Archetype.Template.Entry

open Archetype.Action Archetype.Disk Archetype.Copier

def ownPaths (entry : Entry) (copier : Copier) (target : Path) (replacements : Replacements) :
    List (Path × String) :=
  let listed := entry.files.entries.map fun pair => Path.segmentsOf pair.1
  (listed.filter fun place => !copier.isIgnored place).map fun place =>
    (inside target (entry.relativeTarget replacements) / entry.arrival replacements place,
      (Path.fromRoot place).name)

def newPaths (entry : Entry) (source target : Path) (replacements : Replacements) :
    List (Path × String) :=
  (entry.files.entries.flatMap (newPlaces source replacements)).map fun place =>
    (target / entry.arrival replacements
        (Path.segmentsOf (entry.relativeTarget replacements) ++ place),
      (Path.fromRoot place).name)

/-! ## The same files in both copies -/

section Write

variable {entry : Entry} {replacements : Replacements}
  (spelled : ∀ pair ∈ replacements.entries, ∃ name, pair.1 = Placeholder.spell name)
  (slash : entry.raw = false → '/' ∉ entry.opened.toList)
  (target_inner : Path.Inner (entry.relativeTarget replacements))
  (unmarked : entry.Unmarked (Path.segmentsOf (entry.relativeTarget replacements)))
  {other : Place} (more : other ≠ [])
  (inner : Path.Inner (entry.arrival replacements other))

include spelled slash target_inner unmarked more inner

theorem div_arrival (target : Path) :
    target / entry.arrival replacements
        (Path.segmentsOf (entry.relativeTarget replacements) ++ other) =
      target / entry.relativeTarget replacements / entry.arrival replacements other := by
  obtain ⟨whole_inner, segments⟩ := inner_arrival spelled slash
    (fun _ member => Path.isName_of_inner target_inner member) unmarked more inner
  rw [Path.div_div_eq_join target target_inner inner, Path.div_eq_join target whole_inner, segments]

theorem write_staged (copier : Copier) (target source : Path) (base : Path) (content : Content) :
    copier.write target (effective (entry.contentReplacements replacements)) base
        (Path.segmentsOf (entry.relativeTarget replacements) ++ other) content =
      copier.write (target / entry.relativeTarget replacements)
        (effective (entry.contentReplacements replacements)) source other content := by
  have name : (base.join ⟨.current,
      Path.segmentsOf (entry.relativeTarget replacements) ++ other⟩).name =
        (source.join ⟨.current, other⟩).name := by
    rw [Path.name_join base (List.append_ne_nil_of_right_ne_nil _ more), Path.name_join source more,
      List.getLast_append_of_ne_nil _ more]
  have keeps : copier.keepsBytes (effective (entry.contentReplacements replacements))
      (base.join ⟨.current, Path.segmentsOf (entry.relativeTarget replacements) ++ other⟩) content =
        copier.keepsBytes (effective (entry.contentReplacements replacements))
          (source.join ⟨.current, other⟩) content := by
    unfold keepsBytes isBinary Path.suffix
    rw [name]
  unfold Copier.write
  rw [destination_eq, destination_eq, keeps, name, delivered_congr copier _ name]
  congr 1
  exact div_arrival spelled slash target_inner unmarked more inner target

end Write

def planned (entry : Entry) (copier : Copier) (disk : Disk) (source target : Path)
    (replacements : Replacements) (place : Place) : Option Write :=
  (copier.takes disk source place).map (copier.write (target / entry.relativeTarget replacements)
    (effective (entry.contentReplacements replacements)) source place)

theorem name_fromRoot {place : Place} (more : place ≠ []) :
    (Path.fromRoot place).name = place.getLast more := by
  simp [Path.name, Path.fromRoot, List.getLast?_eq_getLast_of_ne_nil, more]

theorem name_of_write {copier : Copier} {target source : Path} {replacements? : Option Replacements}
    {place : Place} (more : place ≠ []) {content : Content} {name : String}
    (called : (copier.write target replacements? source place content).name? = some name) :
    name = (Path.fromRoot place).name := by
  unfold Copier.write at called
  split at called
  · rw [Option.some_inj, Path.name_join source more] at called
    rw [← called, name_fromRoot more]
  · cases called

theorem path_write (entry : Entry) (copier : Copier) (target source : Path) (replacements : Replacements)
    (place : Place) (content : Content) :
    (copier.write (target / entry.relativeTarget replacements)
      (effective (entry.contentReplacements replacements)) source place content).path =
        inside target (entry.relativeTarget replacements) / entry.arrival replacements place := by
  rw [inside_eq]
  exact destination_eq _ _ _

theorem treePlan_eq {disk : Disk} (sound : disk.Sound) {source : Path}
    (directory : disk.isDirectory source = true) (copier : Copier) (target : Path)
    (replacements? : Option Replacements) :
    copier.treePlan disk target replacements? source =
      (listing disk source).filterMap fun place => (copier.takes disk source place).map
        (copier.write target (effective replacements?) source place) :=
  List.filterMap_congr fun place listed => by rw [taken?_eq_takes sound directory listed]

theorem filterMap_filterMap_of_left {α β γ : Type} (keep : α → Bool) {items : List α}
    {read : α → Option β} {select : β → Option γ}
    (left : ∀ item ∈ items, keep item = false → (read item).bind select = none) :
    (items.filterMap read).filterMap select =
      (items.filter keep).filterMap fun item => (read item).bind select := by
  rw [List.filterMap_filterMap, List.filterMap_filter]
  refine List.filterMap_congr fun item member => ?_
  cases kept : keep item with
  | true => rfl
  | false => exact left item member kept

section Keeps

variable {entry : Entry} {copier : Copier} {origin : Disk} (origin_sound : origin.Sound)
  {source : Path} (directory : origin.isDirectory source = true) {base front : Place}
  {replacements : Replacements} (all : entry.only = false) {staged : Disk}
  (keeps : entry.Keeps copier origin source base front replacements [] staged)
  (named : ∀ name ∈ base, Path.IsName name) (noNull : hasNull front = false)
  (kept : copier.isIgnored front = false)

include origin_sound directory all keeps named noNull kept

theorem Keeps.takes_eq {other : Place} (unlisted : other ∈ entry.others copier origin source) :
    copier.takes staged (.fromRoot base) (front ++ other) = copier.takes origin source other := by
  obtain ⟨⟨content, takes⟩, -⟩ := (mem_others_iff all origin_sound directory).1 unlisted
  obtain ⟨not_ignored, clean, -⟩ := takes_eq_some_iff.1 takes
  have held := keeps.kept other unlisted
  rw [takes] at held ⊢
  refine takes_eq_some_iff.2 ⟨?_, hasNull_append noNull clean, ?_⟩
  · rw [isIgnored, List.any_append, Bool.or_eq_false_iff]
    exact ⟨kept, not_ignored⟩
  · rw [staged.placeOf_fromRoot named, ← List.append_assoc]
    exact contentAt_eq_some_iff.1 held

theorem Keeps.listing_eq (there : staged.isDirectory (.fromRoot base) = true) :
    (listing staged (.fromRoot base)).filter
        ((entry.others copier origin source).map (front ++ ·)).contains =
      (entry.others copier origin source).map (front ++ ·) := by
  refine ((listing_ordered staged _).filter _).eq_of_mem_iff ?_ fun place => ?_
  · refine List.pairwise_map.2 (((listing_ordered origin source).filter _).imp fun precedes => ?_)
    exact (precedes_append_iff front).2 precedes
  · rw [List.mem_filter, List.contains_iff_mem]
    refine ⟨And.right, fun member => ⟨?_, member⟩⟩
    obtain ⟨other, unlisted, rfl⟩ := List.mem_map.1 member
    obtain ⟨⟨content, takes⟩, -⟩ := (mem_others_iff all origin_sound directory).1 unlisted
    exact mem_listing_of_takes keeps.sound there
      ((keeps.takes_eq origin_sound directory all named noNull kept unlisted).trans takes)

end Keeps

/-! ## What is laid at one place -/

section Place

variable {entry : Entry} {copier : Copier} {disk : Disk} (sound : disk.Sound) {source target : Path}
  (directory : disk.isDirectory source = true) {replacements : Replacements}
  (all : entry.only = false) {place : Place} {laid : List (Write × Place)} {after : Disk}

include sound directory

theorem exists_laid_of_takes
    (writes : laid.map Prod.fst = (listing disk source).filterMap
      (entry.planned copier disk source target replacements))
    {other : Place} {content : Content} (takes : copier.takes disk source other = some content) :
    ∃ item ∈ laid, item.1 = copier.write (target / entry.relativeTarget replacements)
      (effective (entry.contentReplacements replacements)) source other content := by
  refine List.mem_map.1 (writes ▸ List.mem_filterMap.2 ⟨other, ?_, ?_⟩)
  · exact mem_listing_of_takes sound directory takes
  · rw [planned, takes]
    rfl

include all

theorem laidAt_direct {before : Disk} (lays : Lays laid before after)
    (writes : laid.map Prod.fst = (listing disk source).filterMap
      (entry.planned copier disk source target replacements))
    (unclaimed : after.Unclaimed (entry.ownPaths copier target replacements) place)
    {other : Place} (listed : other ∉ entry.others copier disk source) :
    (entry.planned copier disk source target replacements other).bind (after.laidAt place) =
      none := by
  cases takes : copier.takes disk source other with
  | none =>
      rw [planned, takes]
      rfl
  | some content =>
      obtain ⟨item, member, same⟩ := exists_laid_of_takes sound directory writes takes
      obtain ⟨pair, inside, own⟩ : ∃ pair ∈ entry.files.entries, Path.segmentsOf pair.1 = other := by
        by_contra unlisted
        exact listed ((mem_others_iff all sound directory).2
          ⟨⟨content, takes⟩, fun pair inside own => unlisted ⟨pair, inside, own⟩⟩)
      have more := ((mem_listing_iff sound directory).1
        (mem_listing_of_takes sound directory takes)).1
      rw [planned, takes, Option.map_some, Option.bind_some, ← same,
        lays.laidAt_eq member (fun name called => name_of_write more (same ▸ called)) place, same]
      refine if_neg (unclaimed.2 (_, _) (List.mem_map.2 ⟨other, List.mem_filter.2
        ⟨List.mem_map.2 ⟨pair, inside, own⟩, ?_⟩, ?_⟩))
      · rw [(takes_eq_some_iff.1 takes).1]
        rfl
      · exact congrArg (·, (Path.fromRoot other).name)
          (path_write entry copier target source replacements other content).symm

theorem filterMap_laidAt_direct {before : Disk} (lays : Lays laid before after)
    (writes : laid.map Prod.fst = (listing disk source).filterMap
      (entry.planned copier disk source target replacements))
    (unclaimed : after.Unclaimed (entry.ownPaths copier target replacements) place) :
    (laid.map Prod.fst).filterMap (after.laidAt place) =
      (entry.others copier disk source).filterMap fun other =>
        (entry.planned copier disk source target replacements other).bind (after.laidAt place) := by
  rw [writes]
  refine filterMap_filterMap_of_left _ fun other member left =>
    laidAt_direct sound directory all lays writes unclaimed fun inside => ?_
  rw [(List.mem_filter.1 inside).2] at left
  cases left

omit all in
theorem exists_latest {before : Disk} (lays : Lays laid before after)
    (writes : laid.map Prod.fst = (listing disk source).filterMap
      (entry.planned copier disk source target replacements)) {arrived : Content}
    (latest : ((entry.others copier disk source).filterMap fun other =>
      (entry.planned copier disk source target replacements other).bind
        (after.laidAt place)).getLast? = some arrived) :
    ∃ last ∈ entry.others copier disk source, ∃ content,
      copier.takes disk source last = some content ∧
      after.resting (inside target (entry.relativeTarget replacements) /
        entry.arrival replacements last) (Path.fromRoot last).name = place ∧
      copier.delivered (effective (entry.contentReplacements replacements))
        (source.join ⟨.current, last⟩) content = arrived := by
  obtain ⟨last, unlisted, wrote⟩ := List.mem_filterMap.1 (List.mem_of_getLast? latest)
  obtain ⟨write, plan, laid_there⟩ := Option.bind_eq_some_iff.1 wrote
  obtain ⟨content, takes, rfl⟩ := Option.map_eq_some_iff.1 plan
  obtain ⟨item, member, same⟩ := exists_laid_of_takes sound directory writes takes
  have more := ((mem_listing_iff sound directory).1 (mem_listing_of_takes sound directory takes)).1
  rw [← same, lays.laidAt_eq member fun name called => name_of_write more (same ▸ called), same]
    at laid_there
  split at laid_there
  · rename_i rests
    refine ⟨last, unlisted, content, takes, ?_, Option.some.inj laid_there⟩
    rwa [path_write] at rests
  · cases laid_there

end Place

section Staged

variable {entry : Entry} {copier : Copier} {origin : Disk} {source target : Path}
  {base front : Place} {replacements : Replacements} {staged last : Disk}
  (keeps : entry.Keeps copier origin source base front replacements [] staged)
  (named : ∀ name ∈ base, Path.IsName name) {place : Place} {laid : List (Write × Place)}

include keeps named

theorem laidAt_staged (there : staged.isDirectory (.fromRoot base) = true)
    (lays : Lays laid staged last)
    (writes : laid.map Prod.fst =
      copier.treePlan staged target (entry.contentReplacements replacements) (.fromRoot base))
    (targets : ∀ pair ∈ entry.files.entries, Path.segmentsOf (replacements.apply pair.2) ≠ [])
    (unclaimed : ∀ pair ∈ entry.files.entries, ∀ new ∈ newPlaces source replacements pair,
      ∀ item ∈ laid, item.1.path = target / entry.arrival replacements (front ++ new) →
        last.resting item.1.path (Path.fromRoot new).name ≠ place)
    {inner : Place} (renamed : inner ∉ (entry.others copier origin source).map (front ++ ·)) :
    ((copier.takes staged (.fromRoot base) inner).map (copier.write target
      (effective (entry.contentReplacements replacements)) (.fromRoot base) inner)).bind
        (last.laidAt place) = none := by
  cases takes : copier.takes staged (.fromRoot base) inner with
  | none => rfl
  | some content =>
      have held := (takes_eq_some_iff.1 takes).2.2
      rw [staged.placeOf_fromRoot named, ← contentAt_eq_some_iff] at held
      obtain ⟨item, member, same⟩ : ∃ item ∈ laid, item.1 = copier.write target
          (effective (entry.contentReplacements replacements)) (.fromRoot base) inner content := by
        refine List.mem_map.1 (writes ▸ ?_)
        rw [treePlan_eq keeps.sound there]
        refine List.mem_filterMap.2 ⟨inner, mem_listing_of_takes keeps.sound there takes, ?_⟩
        rw [takes]
        rfl
      obtain ⟨new, rfl, unlisted | ⟨pair, left, -⟩ | ⟨pair, listed, new_place⟩⟩ :=
        keeps.cases inner (by rw [held]; exact nofun)
      · exact absurd (List.mem_map_of_mem unlisted) renamed
      · cases left
      · have more : new ≠ [] := by
          rcases List.mem_cons.1 new_place with rfl | inside
          · exact targets pair listed
          · rw [List.mem_singleton.1 inside]
            simp
        have name : ∀ name, item.1.name? = some name → name = (Path.fromRoot new).name := by
          intro name called
          rw [same] at called
          have whole : front ++ new ≠ [] := List.append_ne_nil_of_right_ne_nil _ more
          rw [name_of_write whole called, name_fromRoot whole, name_fromRoot more,
            List.getLast_append_of_ne_nil _ more]
        rw [Option.map_some, Option.bind_some, ← same, lays.laidAt_eq member name place]
        refine if_neg (unclaimed pair listed new new_place item member ?_)
        rw [same]
        exact destination_eq _ _ _

end Staged

section Delivered

variable {entry : Entry} {copier : Copier} {origin : Disk} (origin_sound : origin.Sound)
  {source target : Path} (directory : origin.isDirectory source = true) {base : Place}
  {replacements : Replacements} {staged last : Disk}
  (keeps : entry.Keeps copier origin source base
    (Path.segmentsOf (entry.relativeTarget replacements)) replacements [] staged)
  (named : ∀ name ∈ base, Path.IsName name) (all : entry.only = false)
  (spelled : ∀ pair ∈ replacements.entries, ∃ name, pair.1 = Placeholder.spell name)
  (slash : entry.raw = false → '/' ∉ entry.opened.toList)
  (target_inner : Path.Inner (entry.relativeTarget replacements))
  (unmarked : entry.Unmarked (Path.segmentsOf (entry.relativeTarget replacements)))
  (noNull : hasNull (Path.segmentsOf (entry.relativeTarget replacements)) = false)
  (kept : copier.isIgnored (Path.segmentsOf (entry.relativeTarget replacements)) = false)
  (arrives : ∀ place content, copier.takes origin source place = some content →
    Path.Inner (entry.arrival replacements place))

include origin_sound directory keeps named all spelled slash target_inner unmarked noNull kept arrives

theorem planned_staged {other : Place} (unlisted : other ∈ entry.others copier origin source) :
    (copier.takes staged (.fromRoot base)
        (Path.segmentsOf (entry.relativeTarget replacements) ++ other)).map (copier.write target
          (effective (entry.contentReplacements replacements)) (.fromRoot base)
          (Path.segmentsOf (entry.relativeTarget replacements) ++ other)) =
      entry.planned copier origin source target replacements other := by
  obtain ⟨⟨content, takes⟩, -⟩ := (mem_others_iff all origin_sound directory).1 unlisted
  have more := ((mem_listing_iff origin_sound directory).1
    (mem_listing_of_takes origin_sound directory takes)).1
  rw [planned, keeps.takes_eq origin_sound directory all named noNull kept unlisted, takes,
    Option.map_some, Option.map_some, write_staged spelled slash target_inner unmarked more
      (arrives other content takes) copier target source]

variable (there : staged.isDirectory (.fromRoot base) = true) {laid : List (Write × Place)}
  (writes : laid.map Prod.fst =
    copier.treePlan staged target (entry.contentReplacements replacements) (.fromRoot base))

include there writes

theorem exists_laid_staged {other : Place} (unlisted : other ∈ entry.others copier origin source)
    {write : Write}
    (plan : entry.planned copier origin source target replacements other = some write) :
    ∃ item ∈ laid, item.1 = write := by
  rw [← planned_staged origin_sound directory keeps named all spelled slash target_inner unmarked
    noNull kept arrives unlisted] at plan
  refine List.mem_map.1 (writes ▸ ?_)
  rw [treePlan_eq keeps.sound there]
  obtain ⟨content, takes, -⟩ := Option.map_eq_some_iff.1 plan
  exact List.mem_filterMap.2 ⟨_, mem_listing_of_takes keeps.sound there takes, plan⟩

theorem filterMap_laidAt_staged {place : Place}
    (left : ∀ inner, inner ∉ (entry.others copier origin source).map
        (Path.segmentsOf (entry.relativeTarget replacements) ++ ·) →
      ((copier.takes staged (.fromRoot base) inner).map (copier.write target
        (effective (entry.contentReplacements replacements)) (.fromRoot base) inner)).bind
          (last.laidAt place) = none) :
    (laid.map Prod.fst).filterMap (last.laidAt place) =
      (entry.others copier origin source).filterMap fun other =>
        (entry.planned copier origin source target replacements other).bind (last.laidAt place) := by
  rw [writes, treePlan_eq keeps.sound there]
  refine (filterMap_filterMap_of_left ((entry.others copier origin source).map
    (Path.segmentsOf (entry.relativeTarget replacements) ++ ·)).contains
      fun inner _ renamed => left inner fun inside => ?_).trans ?_
  · rw [List.contains_iff_mem.2 inside] at renamed
    cases renamed
  · rw [keeps.listing_eq origin_sound directory all named noNull kept there, List.filterMap_map]
    refine List.filterMap_congr fun other unlisted => ?_
    rw [Function.comp_apply, planned_staged origin_sound directory keeps named all spelled slash
      target_inner unmarked noNull kept arrives unlisted]

end Delivered

/-! ## Copying with and without renaming -/

theorem resting_prune {disk : Disk} {base : Place} (more : base ≠ []) {path : Path}
    (outside : ¬ base <+: disk.placeOf path) (name : String) :
    (disk.prune base).resting path name = disk.resting path name := by
  have same : (disk.prune base).placeOf path = disk.placeOf path := rfl
  unfold resting
  rw [same, node?_prune disk more, if_neg outside]

/-- A file that is not listed has been written to a path by a copy, and the place there holds what was
written last for such files. -/
structure Settles (entry : Entry) (copier : Copier) (origin : Disk) (source target : Path)
    (replacements : Replacements) (path : Path) (written : List Path) (after : Disk) : Prop where
  sound : after.Sound
  current : after.current = origin.current
  written : path ∈ written
  held : after.contentAt (origin.placeOf path) ≠ none
  latest : ((entry.others copier origin source).filterMap fun other =>
      (entry.planned copier origin source target replacements other).bind
        (after.laidAt (origin.placeOf path))).getLast? = after.contentAt (origin.placeOf path)

theorem settles_of_lays {entry : Entry} {copier : Copier} {origin before after : Disk}
    {source target path : Path} {replacements : Replacements} {laid : List (Write × Place)}
    (sound : before.Sound) (current : before.current = origin.current) (lays : Lays laid before after)
    {item : Write × Place} (member : item ∈ laid) (led : item.1.path = path)
    (absent : before.node? (origin.placeOf path) = none)
    (vacant : after.node? (origin.placeOf path) ≠ some .directory)
    (among : (laid.map Prod.fst).filterMap (after.laidAt (origin.placeOf path)) =
      (entry.others copier origin source).filterMap fun other =>
        (entry.planned copier origin source target replacements other).bind
          (after.laidAt (origin.placeOf path))) :
    entry.Settles copier origin source target replacements path
      (laid.map fun item => item.1.path) after where
  sound := lays.sound sound
  current := lays.current.trans current
  written := led ▸ List.mem_map_of_mem member
  held := lays.contentAt_ne_none member (led ▸ placeOf_congr current _) vacant
  latest := by
    rw [lays.contentAt_eq_last, among, contentAt_eq_none (Or.inl absent), Option.or_none]

theorem Settles.contentAt_eq {entry : Entry} {copier : Copier} {origin left right : Disk}
    {source target path : Path} {replacements : Replacements} {written others : List Path}
    (first : entry.Settles copier origin source target replacements path written left)
    (second : entry.Settles copier origin source target replacements path others right) :
    right.contentAt (origin.placeOf path) = left.contentAt (origin.placeOf path) := by
  obtain ⟨content, left_held⟩ := Option.ne_none_iff_exists'.1 first.held
  obtain ⟨other, right_held⟩ := Option.ne_none_iff_exists'.1 second.held
  rw [← first.latest, ← second.latest, funext (laidAt_congr first.sound second.sound
    (second.current.trans first.current.symm) left_held right_held)]

section Unlisted

variable {world direct reached : World} (sound : world.disk.Sound) {template target : Path}
  (template_written : template.IsWritten) (target_written : target.IsWritten)
  (absent : world.disk.node? (world.disk.placeOf target) = none)
  {entry : Entry} {copier : Copier} {replacements : Replacements} {plainly written : List Path}

include sound template_written target_written absent

theorem copy_lays_direct (target_inner : Path.Inner (entry.relativeTarget replacements))
    (inner : ∀ delivery ∈ entry.plain.deliveries copier template target replacements world,
      Path.Inner delivery.relative)
    (copied : entry.plain.copy copier template target replacements world = .ok plainly direct) :
    ∃ laid, Lays laid world.disk direct.disk ∧
      laid.map Prod.fst = (listing world.disk (template / entry.source)).filterMap
        (entry.planned copier world.disk (template / entry.source) target replacements) ∧
      (plainly = laid.map fun item => item.1.path) ∧
      (∀ item ∈ laid, item.1.StaysBelow target) ∧
      ∀ place content, copier.takes world.disk (template / entry.source) place = some content →
        Path.Inner (entry.arrival replacements place) := by
  have directory : world.disk.isDirectory (template / entry.source) = true :=
    isDirectory_of_copy entry.plain copied
  obtain ⟨noted, same, copies, delivers⟩ := copy_direct copied rfl rfl
  rw [delivers] at inner
  rw [← same] at sound absent directory ⊢
  have led : noted.disk.placeOf (target / entry.plain.relativeTarget replacements) =
      noted.disk.placeOf target ++ Path.segmentsOf (entry.relativeTarget replacements) :=
    placeOf_div _ target target_inner
  -- nothing that is read lies in the project, which is not there yet
  obtain ⟨laid, follows, paths, -, arrives⟩ := copyTree_eq_ok sound
    (Path.isWritten_div template_written _) (Path.isWritten_div target_written _)
    (fun relative listed within => by
      rw [led] at within
      exact ((mem_listing_iff sound directory).1 listed).2
        (sound.none_of_prefix absent ((List.prefix_append _ _).trans within)))
    inner copies
  refine ⟨laid, follows.lays, ?_, paths,
    fun item member => (follows.stays item member).of_div target_inner, fun place content takes => ?_⟩
  · rw [follows.writes]
    exact treePlan_eq sound directory copier _ _
  · have listed := mem_listing_of_takes sound directory takes
    exact arrives place listed (Option.isSome_iff_exists.2
      ⟨content, (taken?_eq_takes sound directory listed).trans takes⟩)

omit absent in
theorem copy_lays_staged (apart : Apart (world.disk.placeOf target) (stagingPlace world.disk))
    (renames : entry.files.isEmpty = false) (all : entry.only = false)
    (stays : entry.StaysBelow replacements)
    (noNull : hasNull (Path.segmentsOf (entry.relativeTarget replacements)) = false)
    (clear : ∀ pair ∈ entry.files.entries,
      ∀ other ∈ entry.others copier world.disk (template / entry.source),
        Apart (Path.segmentsOf (replacements.apply pair.2)) other)
    {other : Place} (unlisted : other ∈ entry.others copier world.disk (template / entry.source))
    (inner : ∀ delivery ∈ entry.deliveries copier template target replacements world,
      Path.Inner delivery.relative)
    (copied : entry.copy copier template target replacements world = .ok written reached) :
    ∃ (staged last : Disk) (laid : List (Write × Place)),
      entry.Keeps copier world.disk (template / entry.source) (stagingPlace world.disk)
        (Path.segmentsOf (entry.relativeTarget replacements)) replacements [] staged ∧
      staged.isDirectory (.fromRoot (stagingPlace world.disk)) = true ∧
      Follows laid target (copier.treePlan staged target (entry.contentReplacements replacements)
        (.fromRoot (stagingPlace world.disk))) staged last ∧
      reached.disk = last.prune (stagingPlace world.disk) ∧
      (written = laid.map fun item => item.1.path) := by
  have directory := isDirectory_of_copy entry copied
  obtain ⟨changed, staged, between, made, stages, copies, rfl, delivers⟩ :=
    copy_staged copied renames
  rw [delivers] at inner
  have keeps := stage_keeps sound (Path.isWritten_div template_written _) directory stays noNull made
    stages all clear unlisted
  have staging_named := fun name (member : name ∈ stagingPlace world.disk) =>
    isName_of_mem_stagingPlace sound member
  obtain ⟨laid, follows, paths, -, -⟩ := copyTree_eq_ok keeps.sound
    (fun name member => (staging_named name member).1) target_written
    (fun _ _ => by
      rw [staged.disk.placeOf_fromRoot staging_named, placeOf_congr keeps.current]
      exact not_prefix_of_apart apart.symm (List.prefix_append _ _))
    inner copies
  exact ⟨staged.disk, between.disk, laid, keeps, isDirectory_of_copyTree copies, follows, rfl, paths⟩

variable (apart : Apart (world.disk.placeOf target) (stagingPlace world.disk))
  (spelled : ∀ pair ∈ replacements.entries, ∃ name, pair.1 = Placeholder.spell name)
  (renames : entry.files.isEmpty = false) (all : entry.only = false)
  (stays : entry.StaysBelow replacements)
  (slash : entry.raw = false → '/' ∉ entry.opened.toList)
  (unmarked : entry.Unmarked (Path.segmentsOf (entry.relativeTarget replacements)))
  (kept : copier.isIgnored (Path.segmentsOf (entry.relativeTarget replacements)) = false)
  (clear : ∀ pair ∈ entry.files.entries,
    ∀ other ∈ entry.others copier world.disk (template / entry.source),
      Apart (Path.segmentsOf (replacements.apply pair.2)) other)
  (direct_inner : ∀ delivery ∈ entry.plain.deliveries copier template target replacements world,
    Path.Inner delivery.relative)
  (inner : ∀ delivery ∈ entry.deliveries copier template target replacements world,
    Path.Inner delivery.relative)

include apart spelled renames all stays slash unmarked kept clear direct_inner inner

omit direct_inner in
theorem copy_settles_staged
    (noNull : hasNull (Path.segmentsOf (entry.relativeTarget replacements)) = false)
    (arrives : ∀ place content,
      copier.takes world.disk (template / entry.source) place = some content →
        Path.Inner (entry.arrival replacements place))
    (renamed : entry.copy copier template target replacements world = .ok written reached)
    {other : Place} (unlisted : other ∈ entry.others copier world.disk (template / entry.source))
    {path : Path} (led : inside target (entry.relativeTarget replacements) /
      entry.arrival replacements other = path)
    (below : world.disk.placeOf target <+: world.disk.placeOf path)
    (unclaimed : reached.disk.Unclaimed (entry.newPaths (template / entry.source) target replacements)
      (world.disk.placeOf path)) :
    ∃ last, entry.Settles copier world.disk (template / entry.source) target replacements path written
        last ∧
      reached.disk.node? (world.disk.placeOf path) = last.node? (world.disk.placeOf path) := by
  have directory := isDirectory_of_copy entry renamed
  obtain ⟨⟨content, takes⟩, -⟩ := (mem_others_iff all sound directory).1 unlisted
  obtain ⟨staged, last, laid, keeps, there, follows, unstaged, rfl⟩ :=
    copy_lays_staged sound template_written target_written apart renames all stays noNull clear
      unlisted inner renamed
  have staging_named := fun name (member : name ∈ stagingPlace world.disk) =>
    isName_of_mem_stagingPlace sound member
  have outside : ∀ {inner : Place}, world.disk.placeOf target <+: inner →
      ¬ stagingPlace world.disk <+: inner := not_prefix_of_apart apart
  have same : reached.disk.node? (world.disk.placeOf path) = last.node? (world.disk.placeOf path) := by
    rw [unstaged, node?_prune last (by simp [stagingPlace]), if_neg (outside below)]
  have current : last.current = world.disk.current := follows.lays.current.trans keeps.current
  have among := filterMap_laidAt_staged sound directory keeps staging_named all spelled slash
    stays.target unmarked noNull kept arrives there follows.writes
    (fun _ => laidAt_staged keeps staging_named there follows.lays follows.writes
      (fun pair listed empty => (clear pair listed other unlisted).1 (empty ▸ List.nil_prefix))
      fun pair listed new new_place item member led => by
        have within : last.placeOf target <+: last.placeOf item.1.path :=
          (follows.stays item member).placeOf
        rw [placeOf_congr current target] at within
        rw [← resting_prune (by simp [stagingPlace]) (outside within), ← unstaged, led]
        exact unclaimed.2 _ (List.mem_map_of_mem (List.mem_flatMap.2 ⟨pair, listed, new_place⟩)))
  obtain ⟨item, member, written⟩ := exists_laid_staged sound directory keeps staging_named all spelled
    slash stays.target unmarked noNull kept arrives there follows.writes unlisted
    (by rw [planned, takes, Option.map_some])
  refine ⟨last, settles_of_lays keeps.sound keeps.current follows.lays member ?_ ?_
    (same ▸ unclaimed.1) among, same⟩
  · rw [written, path_write, led]
  · rw [keeps.outside _ (outside below)]
    exact sound.none_of_prefix absent below

/-- A file that is not listed arrives at the same path with the same content, whether other files are
renamed or not. -/
theorem copy_unlisted
    (copied : entry.plain.copy copier template target replacements world = .ok plainly direct)
    (renamed : entry.copy copier template target replacements world = .ok written reached)
    {other : Place} (unlisted : other ∈ entry.others copier world.disk (template / entry.source)) :
    let path := inside target (entry.relativeTarget replacements) / entry.arrival replacements other
    let place := world.disk.placeOf path
    direct.disk.Unclaimed (entry.ownPaths copier target replacements) place →
    reached.disk.Unclaimed (entry.newPaths (template / entry.source) target replacements) place →
    path ∈ plainly ∧ path ∈ written ∧
      ∃ last ∈ entry.others copier world.disk (template / entry.source), ∃ content,
        copier.takes world.disk (template / entry.source) last = some content ∧
        direct.disk.resting (inside target (entry.relativeTarget replacements) /
          entry.arrival replacements last) (Path.fromRoot last).name = place ∧
        let arrived := copier.delivered (effective (entry.contentReplacements replacements))
          ((template / entry.source).join ⟨.current, last⟩) content
        direct.disk.contentAt place = some arrived ∧ reached.disk.contentAt place = some arrived := by
  intro path place direct_unclaimed unclaimed
  have directory := isDirectory_of_copy entry renamed
  obtain ⟨⟨own_content, own_takes⟩, -⟩ := (mem_others_iff all sound directory).1 unlisted
  obtain ⟨laid, lays, writes, rfl, all_stay, arrives⟩ :=
    copy_lays_direct sound template_written target_written absent stays.target direct_inner copied
  obtain ⟨item, member, same⟩ := exists_laid_of_takes sound directory writes own_takes
  have item_path : item.1.path = path := by rw [same, path_write]
  have below : world.disk.placeOf target <+: world.disk.placeOf item.1.path :=
    (all_stay item member).placeOf
  rw [item_path] at below
  have direct_settles := settles_of_lays sound rfl lays member item_path
    (sound.none_of_prefix absent below) direct_unclaimed.1
    (filterMap_laidAt_direct sound directory all lays writes direct_unclaimed)
  -- the file is written without renaming, so its path can be followed
  have noNull : hasNull (Path.segmentsOf (entry.relativeTarget replacements)) = false := by
    obtain ⟨_, _, -, receives⟩ := lays.receives sound member
    have led : path = target.join ⟨.current, Path.segmentsOf (entry.relativeTarget replacements) ++
        Path.segmentsOf (entry.arrival replacements other)⟩ := by
      rw [← Path.div_div_eq_join target stays.target (arrives other own_content own_takes),
        ← inside_eq target]
    have clean := receives.noNull
    rw [item_path, led, Path.join_of_current target rfl] at clean
    exact hasNull_of_subset (fun _ member => by simp [member]) clean
  obtain ⟨last, settles, unstaged⟩ := copy_settles_staged sound template_written target_written absent
    apart spelled renames all stays slash unmarked kept clear inner noNull arrives renamed unlisted rfl
    below unclaimed
  -- the last file that is not listed and lies there
  obtain ⟨arrived, held⟩ := Option.ne_none_iff_exists'.1 direct_settles.held
  obtain ⟨latest, latest_unlisted, content, takes, rests, rfl⟩ := exists_latest sound directory
    lays writes (direct_settles.latest.trans held)
  exact ⟨direct_settles.written, settles.written, latest, latest_unlisted, content, takes, rests, held,
    (contentAt_congr unstaged).trans ((direct_settles.contentAt_eq settles).trans held)⟩

end Unlisted

open Archetype.Template.Descriptor (sampleWorld sampleReplacements sound_sampleWorld)

theorem copy_unlisted_sample :
    ∃ written reached,
      (sampleRenames [("a.txt", "\x7b\x7bname\x7d\x7d.txt")]).copy .standard (.ofText "/tmp/w/t")
        (.ofText "/tmp/w/q") sampleReplacements sampleWorld = .ok written reached ∧
      Path.ofText "/tmp/w/q/out/b.txt" ∈ written ∧
      reached.disk.node? ["tmp", "w", "q", "out", "b.txt"] = some (.file "B".toUTF8 true) := by
  let entry := sampleRenames [("a.txt", "\x7b\x7bname\x7d\x7d.txt")]
  obtain ⟨plainly, direct, copied, direct_holds⟩ := ok_of_check
    (entry.plain.copy .standard (.ofText "/tmp/w/t") (.ofText "/tmp/w/q") sampleReplacements)
    sampleWorld (fun disk => decide (disk.Unclaimed
      (entry.ownPaths .standard (.ofText "/tmp/w/q") sampleReplacements)
      ["tmp", "w", "q", "out", "b.txt"]) &&
        decide (disk.node? ["tmp", "w", "q", "out", "b.txt"] = some (.file "B".toUTF8 true)))
    (by decide +kernel)
  obtain ⟨written, reached, renamed, holds⟩ := ok_of_check
    (entry.copy .standard (.ofText "/tmp/w/t") (.ofText "/tmp/w/q") sampleReplacements)
    sampleWorld (fun disk => decide (disk.Unclaimed (entry.newPaths (Path.ofText "/tmp/w/t" / "src")
      (.ofText "/tmp/w/q") sampleReplacements) ["tmp", "w", "q", "out", "b.txt"]))
    (by decide +kernel)
  rw [Bool.and_eq_true, decide_eq_true_eq, decide_eq_true_eq] at direct_holds
  have led : sampleWorld.disk.placeOf (inside (.ofText "/tmp/w/q")
      (entry.relativeTarget sampleReplacements) / entry.arrival sampleReplacements ["b.txt"]) =
        ["tmp", "w", "q", "out", "b.txt"] := by decide +kernel
  obtain ⟨-, among, last, -, content, -, -, direct_arrived, arrived⟩ := copy_unlisted
    sound_sampleWorld (Path.isWritten_ofText _) (Path.isWritten_ofText _) (by decide +kernel)
    (by decide +kernel) spelled_sampleReplacements (by decide +kernel) (by decide +kernel)
    (by decide +kernel) (by decide +kernel) (by decide +kernel) (by decide +kernel)
    (by decide +kernel) (by decide +kernel) (by decide +kernel) copied renamed
    (by decide +kernel : ["b.txt"] ∈ _) (by rw [led]; exact direct_holds.1)
    (by rw [led]; exact of_decide_eq_true holds)
  rw [led] at direct_arrived arrived
  refine ⟨written, reached, renamed, ?_, ?_⟩
  · exact (by decide +kernel : inside (.ofText "/tmp/w/q") (entry.relativeTarget sampleReplacements) /
      entry.arrival sampleReplacements ["b.txt"] = .ofText "/tmp/w/q/out/b.txt") ▸ among
  · have same := contentAt_eq_some_iff.1 direct_arrived
    rw [direct_holds.2] at same
    rw [contentAt_eq_some_iff.1 arrived, ← same]

def crossingWorld : World where
  disk := .holding
    [(["tmp"], .directory), (["tmp", "w"], .directory), (["tmp", "w", "tmp"], .directory),
      (["tmp", "w", "t"], .directory), (["tmp", "w", "t", "src"], .directory),
      (["tmp", "w", "t", "src", "x.png"], .directory),
      (["tmp", "w", "t", "src", "x.png", "e.txt"], .file "E".toUTF8 false),
      (["tmp", "w", "t", "src", "x.txt"], .file "A".toUTF8 false),
      (["tmp", "w", "t", "src", "\x7b\x7bname\x7d\x7d.png"], .file "P".toUTF8 false),
      (["tmp", "w", "t", "src", "\x7b\x7bname\x7d\x7d.txt"], .file "K".toUTF8 false),
      (["tmp", "w", "t", "src", "\x7b\x7bplace\x7d\x7d"], .file "Z".toUTF8 false)]
    ["tmp", "w"] ["tmp", "w", "tmp"]

def crossingReplacements : Replacements :=
  .ofData (Table.ofList [(.text "name", .text "x"), (.text "place", .text "/tmp/w/z.txt")])

def crossingRenames : Entry :=
  sampleRenames [("x.png/e.txt", "e.txt"), ("\x7b\x7bname\x7d\x7d.txt", "k.txt")]

theorem others_crossing :
    crossingRenames.others .standard crossingWorld.disk (Path.ofText "/tmp/w/t" / "src") =
      [["x.txt"], ["\x7b\x7bname\x7d\x7d.png"], ["\x7b\x7bplace\x7d\x7d"]] := by
  decide +kernel

theorem copy_crossing_plain :
    ∃ plainly direct, crossingRenames.plain.copy .standard (.ofText "/tmp/w/t")
        (.ofText "/tmp/w/q") crossingReplacements crossingWorld = .ok plainly direct ∧
      direct.disk.node? ["tmp", "w", "q", "out", "x.txt"] = some (.file "K".toUTF8 false) ∧
      direct.disk.node? ["tmp", "w", "q", "out", "x.png"] = some .directory ∧
      direct.disk.node? ["tmp", "w", "z.txt"] = some (.file "Z".toUTF8 false) := by
  obtain ⟨plainly, direct, copied, holds⟩ := ok_of_check
    (crossingRenames.plain.copy .standard (.ofText "/tmp/w/t") (.ofText "/tmp/w/q")
      crossingReplacements)
    crossingWorld (fun disk => decide (
      disk.node? ["tmp", "w", "q", "out", "x.txt"] = some (.file "K".toUTF8 false) ∧
        disk.node? ["tmp", "w", "q", "out", "x.png"] = some .directory ∧
        disk.node? ["tmp", "w", "z.txt"] = some (.file "Z".toUTF8 false)))
    (by decide +kernel)
  exact ⟨plainly, direct, copied, of_decide_eq_true holds⟩

theorem copy_crossing :
    ∃ written reached, crossingRenames.copy .standard (.ofText "/tmp/w/t") (.ofText "/tmp/w/q")
        crossingReplacements crossingWorld = .ok written reached ∧
      reached.disk.node? ["tmp", "w", "q", "out", "x.txt"] = some (.file "A".toUTF8 false) ∧
      reached.disk.node? ["tmp", "w", "q", "out", "x.png"] = some (.file "P".toUTF8 false) ∧
      reached.disk.node? ["tmp", "w", "z.txt"] = none := by
  obtain ⟨written, reached, renamed, holds⟩ := ok_of_check
    (crossingRenames.copy .standard (.ofText "/tmp/w/t") (.ofText "/tmp/w/q") crossingReplacements)
    crossingWorld (fun disk => decide (
      disk.node? ["tmp", "w", "q", "out", "x.txt"] = some (.file "A".toUTF8 false) ∧
        disk.node? ["tmp", "w", "q", "out", "x.png"] = some (.file "P".toUTF8 false) ∧
        disk.node? ["tmp", "w", "z.txt"] = none))
    (by decide +kernel)
  exact ⟨written, reached, renamed, of_decide_eq_true holds⟩

/-- A file that is not listed is changed by a renaming if its path in the project is that of a listed
file as well, a directory as long as nothing is renamed, or outside the project. -/
theorem copy_changes_unlisted :
    crossingWorld.disk.Sound ∧
      crossingWorld.disk.node? (crossingWorld.disk.placeOf (.ofText "/tmp/w/q")) = none ∧
      crossingWorld.disk.Separate (.ofText "/tmp/w/t") (.ofText "/tmp/w/q") ∧
      crossingRenames.relativeTarget crossingReplacements = "out" ∧
      crossingRenames.Unmarked ["out"] ∧ Copier.standard.isIgnored ["out"] = false ∧
      crossingRenames.StaysBelow crossingReplacements ∧
      crossingRenames.others .standard crossingWorld.disk (Path.ofText "/tmp/w/t" / "src") =
        [["x.txt"], ["\x7b\x7bname\x7d\x7d.png"], ["\x7b\x7bplace\x7d\x7d"]] ∧
      (∀ pair ∈ crossingRenames.files.entries, ∀ other ∈ crossingRenames.others .standard
        crossingWorld.disk (Path.ofText "/tmp/w/t" / "src"),
          Apart (Path.segmentsOf (crossingReplacements.apply pair.2)) other) ∧
      (∃ plainly direct, crossingRenames.plain.copy .standard (.ofText "/tmp/w/t")
          (.ofText "/tmp/w/q") crossingReplacements crossingWorld = .ok plainly direct ∧
        direct.disk.node? ["tmp", "w", "q", "out", "x.txt"] = some (.file "K".toUTF8 false) ∧
        direct.disk.node? ["tmp", "w", "q", "out", "x.png"] = some .directory ∧
        direct.disk.node? ["tmp", "w", "z.txt"] = some (.file "Z".toUTF8 false)) ∧
      ∃ written reached, crossingRenames.copy .standard (.ofText "/tmp/w/t") (.ofText "/tmp/w/q")
          crossingReplacements crossingWorld = .ok written reached ∧
        reached.disk.node? ["tmp", "w", "q", "out", "x.txt"] = some (.file "A".toUTF8 false) ∧
        reached.disk.node? ["tmp", "w", "q", "out", "x.png"] = some (.file "P".toUTF8 false) ∧
        reached.disk.node? ["tmp", "w", "z.txt"] = none := by
  refine ⟨sound_of_lists (by decide +kernel) (by decide +kernel), by decide +kernel,
    by decide +kernel, by decide +kernel, by decide +kernel, by decide +kernel, by decide +kernel,
    others_crossing, ?_, copy_crossing_plain, copy_crossing⟩
  rw [others_crossing]
  decide +kernel

end Archetype.Template.Entry
