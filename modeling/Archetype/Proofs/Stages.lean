import Archetype.Proofs.Layouts
import Archetype.Proofs.Staging
import Archetype.Proofs.Containment

namespace Archetype.Disk

theorem exists_cleared {disk : Disk} (sound : disk.Sound) {place : Place}
    (noNull : hasNull place = false)
    (way : ∀ front, Below place front →
      disk.node? front = some .directory ∨ disk.node? front = none)
    (more : place ≠ []) : ∃ cleared, Cleared place disk cleared := by
  by_cases held : disk.node? place = none
  · exact ⟨disk, cleared_of_absent sound noNull way held⟩
  · exact ⟨_, cleared_prune sound noNull more held⟩

section Cleared

variable {place : Place} {before after : Disk} (cleared : Cleared place before after)

include cleared

theorem Cleared.agree {region : Place → Prop} {other last : Disk}
    (other_cleared : Cleared place other last) (agree : Agree region before other) :
    Agree region after last := by
  refine ⟨cleared.sound, other_cleared.sound, ?_, ?_, fun front inside => ?_⟩
  · rw [other_cleared.current, cleared.current, agree.current]
  · rw [other_cleared.temporary, cleared.temporary, agree.temporary]
  · by_cases within : place <+: front
    · rw [cleared.within front within, other_cleared.within front within]
    · rw [cleared.other front within, other_cleared.other front within, agree.node front inside]

theorem Cleared.agree_outside (sound : before.Sound) :
    Agree (fun front => ¬ place <+: front) before after :=
  ⟨sound, cleared.sound, cleared.current, cleared.temporary, cleared.other⟩

theorem Cleared.congr_left {first : Disk} (same : Same first before) :
    Cleared place first after where
  noNull := cleared.noNull
  way front below := by
    rw [← same.node front trivial]
    exact cleared.way front below
  sound := cleared.sound
  current := cleared.current.trans same.current
  temporary := cleared.temporary.trans same.temporary
  within := cleared.within
  other front outside := (cleared.other front outside).trans (same.node front trivial)

theorem Cleared.transfer {region : Place → Prop} {other : Disk} (agree : Agree region before other)
    (more : place ≠ []) (way : ∀ front, Below place front → region front) :
    ∃ last, Cleared place other last ∧ Agree region after last := by
  obtain ⟨last, other_cleared⟩ := exists_cleared agree.right_sound cleared.noNull
    (fun front below => by
      rw [agree.node front (way front below)]
      exact cleared.way front below) more
  exact ⟨last, other_cleared, cleared.agree other_cleared agree⟩

end Cleared

end Archetype.Disk

namespace Archetype.Template.Entry

open Archetype.Action Archetype.Disk Archetype.Copier

def renamedWrite (source : Path) (copied : Place) (replacements : Replacements)
    (pair : String × String) (content : Content) : Write where
  path := .fromRoot (copied ++ Path.segmentsOf (replacements.apply pair.2))
  content := content
  name? := some (source / pair.1).name

inductive Renames (source : Path) (copied : Place) (replacements : Replacements) :
    List (String × String) → Disk → Disk → Prop
  | nil {before after : Disk} (same : Same before after) : Renames source copied replacements []
      before after
  | cons {pair : String × String} {others : List (String × String)} {content : Content}
      {landing : Place} {before removed middle after : Disk}
      (found : before.find? (source / pair.1) = some (.file content.1 content.2))
      (cleared : Cleared (copied ++ Path.segmentsOf pair.1) before removed)
      (laid : Laid (renamedWrite source copied replacements pair content) landing removed middle)
      (rest : Renames source copied replacements others middle after) :
      Renames source copied replacements (pair :: others) before after

structure Moves (disk : Disk) (source : Path) (copied : Place) (replacements : Replacements)
    (pairs : List (String × String)) : Prop where
  outside : ∀ pair ∈ pairs, ∀ place, disk.OnWay (source / pair.1) place → ¬ copied <+: place
  listed : ∀ pair ∈ pairs, Path.Inner pair.1
  renamed : ∀ pair ∈ pairs, Path.Inner (replacements.apply pair.2)

theorem Renames.congr_left {source : Path} {copied : Place} {replacements : Replacements}
    {pairs : List (String × String)} {first before after : Disk}
    (renames : Renames source copied replacements pairs before after) (same : Same first before) :
    Renames source copied replacements pairs first after := by
  cases renames with
  | nil start => exact .nil (same.trans start)
  | cons found cleared laid rest =>
      refine .cons ?_ (cleared.congr_left same) laid rest
      rw [← same.find?_eq fun _ _ => trivial]
      exact found

theorem Moves.tail {disk : Disk} {source : Path} {copied : Place} {replacements : Replacements}
    {pair : String × String} {others : List (String × String)}
    (moves : Moves disk source copied replacements (pair :: others)) {after : Disk}
    (current : after.current = disk.current) : Moves after source copied replacements others where
  outside other member place onWay :=
    moves.outside other (List.mem_cons_of_mem _ member) place ((onWay_congr current).1 onWay)
  listed other member := moves.listed other (List.mem_cons_of_mem _ member)
  renamed other member := moves.renamed other (List.mem_cons_of_mem _ member)

section Rename

variable {copied : Place} (named : ∀ name ∈ copied, Path.IsName name) (more : copied ≠ [])
  {source : Path} (source_written : source.IsWritten) {replacements : Replacements}
  {label : String}

include named in
theorem isName_of_mem_copied {text : String} (inner : Path.Inner text) :
    ∀ name ∈ copied ++ Path.segmentsOf text, Path.IsName name := fun name member =>
  (List.mem_append.1 member).elim (named name) (Path.isName_of_inner inner)

theorem rename_cons {world : World} (directory source : Path) (label : String)
    (replacements : Replacements) (pair : String × String) (others : List (String × String)) :
    rename directory source label replacements (pair :: others) world =
      (if world.disk.isFile (source / pair.1) then do
        note (.moving pair.1 (replacements.apply pair.2))
        remove (directory / pair.1)
        let _ ← Copier.copyFile (.path (source / pair.1)) (directory / replacements.apply pair.2)
        rename directory source label replacements others
      else do
        fault (.noFile (source / pair.1).toText) (some label)
        note (.moving pair.1 (replacements.apply pair.2))
        remove (directory / pair.1)
        let _ ← Copier.copyFile (.path (source / pair.1)) (directory / replacements.apply pair.2)
        rename directory source label replacements others) world := by
  rw [rename, disk_bind]
  cases world.disk.isFile (source / pair.1) <;> rfl

include named more source_written

theorem rename_eq_ok {pairs : List (String × String)} {world reached : World}
    (sound : world.disk.Sound) (moves : Moves world.disk source copied replacements pairs)
    (ends : rename (.fromRoot copied) source label replacements pairs world = .ok () reached) :
    Renames source copied replacements pairs world.disk reached.disk := by
  induction pairs generalizing world with
  | nil =>
      cases ends
      exact .nil (Agree.refl sound)
  | cons pair others ih =>
      have file_inner := moves.listed pair List.mem_cons_self
      have target_inner := moves.renamed pair List.mem_cons_self
      have outside := moves.outside pair List.mem_cons_self
      rw [rename_cons] at ends
      cases file : world.disk.isFile (source / pair.1) with
      | false =>
          rw [file] at ends
          cases ends
      | true =>
          rw [file, if_pos rfl] at ends
          obtain ⟨content, found⟩ : ∃ content : Content, world.disk.find? (source / pair.1) =
              some (.file content.1 content.2) := by
            obtain ⟨bytes, executable, found⟩ := isFile_iff.1 file
            exact ⟨(bytes, executable), found⟩
          obtain ⟨_, noted, notes, continues⟩ := bind_eq_ok_iff.1 ends
          cases notes
          obtain ⟨_, removed, removes, continues⟩ := bind_eq_ok_iff.1 continues
          rw [Path.fromRoot_div file_inner] at removes
          have cleared := remove_eq_ok (by exact sound) (isName_of_mem_copied named file_inner)
            (by simp [more]) removes
          obtain ⟨_, middle, copies, continues⟩ := bind_eq_ok_iff.1 continues
          rw [Path.fromRoot_div target_inner] at copies
          have kept : removed.disk.find? (source / pair.1) =
              some (.file content.1 content.2) := by
            rw [(cleared.agree_outside sound).find?_eq fun place onWay within =>
              outside place onWay ((List.prefix_append _ _).trans within)]
            exact found
          obtain ⟨other, landing, same, laid⟩ := single_eq_ok cleared.sound
            (Path.isWritten_div source_written _)
            (fun name member => (isName_of_mem_copied named target_inner name member).1) copies
          obtain rfl := same content kept
          exact .cons found cleared laid (ih laid.sound
            (moves.tail (laid.current.trans cleared.current)) continues)

theorem rename_renames {pairs : List (String × String)} {world : World} {after : Disk}
    (sound : world.disk.Sound) (moves : Moves world.disk source copied replacements pairs)
    (renames : Renames source copied replacements pairs world.disk after) :
    ∃ reached, rename (.fromRoot copied) source label replacements pairs world = .ok () reached ∧
      Same after reached.disk := by
  induction pairs generalizing world with
  | nil =>
      cases renames with
      | nil same => exact ⟨world, rfl, same.symm⟩
  | cons pair others ih =>
      cases renames with
      | @cons _ _ content landing _ cleared middle _ found clears laid rest =>
          have file_inner := moves.listed pair List.mem_cons_self
          have target_inner := moves.renamed pair List.mem_cons_self
          have outside := moves.outside pair List.mem_cons_self
          have target_named := isName_of_mem_copied named target_inner
          let noted : World := { world with journal :=
            world.journal ++ [.noted (.moving pair.1 (replacements.apply pair.2))] }
          have noted_sound : noted.disk.Sound := sound
          obtain ⟨removed, removes, other_clears⟩ := remove_clears noted_sound
            (isName_of_mem_copied named file_inner) (by simp [more]) clears.noNull clears.way
          -- removing the file and laying it do the same on both disks
          have same : Same cleared removed := clears.agree other_clears (Agree.refl sound)
          have kept : removed.find? (source / pair.1) = some (.file content.1 content.2) := by
            rw [(other_clears.agree_outside sound).find?_eq fun place onWay within =>
              outside place onWay ((List.prefix_append _ _).trans within)]
            exact found
          have apart : removed.placeOf (source / pair.1) ≠ landing := by
            have lands := prefix_of_lands laid.receives.lands
            rw [renamedWrite, cleared.placeOf_fromRoot target_named] at lands
            rintro rfl
            rw [placeOf_congr other_clears.current] at lands
            exact outside _ ⟨_, List.prefix_refl _, rfl⟩ ((List.prefix_append _ _).trans lands)
          have removed_sound : ({ noted with disk := removed } : World).disk.Sound :=
            other_clears.sound
          obtain ⟨between, copies, other_laid⟩ := single_lays removed_sound
            (Path.isWritten_div source_written _)
            (fun name member => (target_named name member).1) kept
            (laid.receives.congr same (fun _ _ => trivial) fun _ _ _ => trivial) apart
          have agree : Same middle between.disk := laid.agree other_laid same
          obtain ⟨last, ends, final⟩ := ih other_laid.sound
            (moves.tail (other_laid.current.trans other_clears.current))
            (rest.congr_left agree.symm)
          refine ⟨last, ?_, final⟩
          rw [rename_cons, if_pos (isFile_iff.2 ⟨_, _, found⟩), Path.fromRoot_div file_inner,
            Path.fromRoot_div target_inner]
          refine (bind_ok rfl _).trans ((bind_ok removes _).trans ((bind_ok copies _).trans ends))

theorem rename_invariant (holds : List (String × String) → Disk → Prop)
    (sound : ∀ {left disk}, holds left disk → disk.Sound) {pairs : List (String × String)}
    (listed : ∀ pair ∈ pairs, Path.Inner pair.1)
    (renamed : ∀ pair ∈ pairs, Path.Inner (replacements.apply pair.2))
    (step : ∀ {pair others before removed after content landing}, pair ∈ pairs →
      holds (pair :: others) before → before.isFile (source / pair.1) = true →
      Cleared (copied ++ Path.segmentsOf pair.1) before removed →
      removed.contentAt (removed.placeOf (source / pair.1)) = some content →
      Laid (renamedWrite source copied replacements pair content) landing removed after →
      holds others after)
    {world reached : World} (start : holds pairs world.disk)
    (ends : rename (.fromRoot copied) source label replacements pairs world = .ok () reached) :
    holds [] reached.disk := by
  induction pairs generalizing world with
  | nil =>
      cases ends
      exact start
  | cons pair others ih =>
      have file_inner := listed pair List.mem_cons_self
      have target_inner := renamed pair List.mem_cons_self
      rw [rename_cons] at ends
      cases file : world.disk.isFile (source / pair.1) with
      | false =>
          rw [file] at ends
          cases ends
      | true =>
          rw [file, if_pos rfl, Path.fromRoot_div file_inner, Path.fromRoot_div target_inner] at ends
          obtain ⟨_, noted, notes, continues⟩ := bind_eq_ok_iff.1 ends
          cases notes
          obtain ⟨_, removed, removes, continues⟩ := bind_eq_ok_iff.1 continues
          obtain ⟨_, middle, copies, continues⟩ := bind_eq_ok_iff.1 continues
          have cleared := remove_eq_ok (by exact sound start) (isName_of_mem_copied named file_inner)
            (by simp [more]) removes
          obtain ⟨content, landing, held, laid⟩ := single_laid cleared.sound
            (Path.isWritten_div source_written _)
            (fun name member => (isName_of_mem_copied named target_inner name member).1) copies
          exact ih (fun other member => listed other (List.mem_cons_of_mem _ member))
            (fun other member => renamed other (List.mem_cons_of_mem _ member))
            (fun member => step (List.mem_cons_of_mem _ member))
            (step List.mem_cons_self start file cleared held laid) continues

omit source_written in
theorem Renames.transfer {pairs : List (String × String)} {before after other : Disk}
    (renames : Renames source copied replacements pairs before after)
    (moves : Moves before source copied replacements pairs) {region : Place → Prop}
    (start : Agree region before other)
    (read : ∀ pair ∈ pairs, ∀ place, before.OnWay (source / pair.1) place → region place)
    (laid_in : ∀ place, place <+: copied ∨ copied <+: place → region place) :
    ∃ last, Renames source copied replacements pairs other last ∧ Agree region after last := by
  induction renames generalizing other with
  | nil same =>
      refine ⟨other, .nil (Agree.refl start.right_sound), ?_⟩
      exact (same.symm.mono fun _ _ => trivial).trans start
  | @cons pair others content landing before removed middle after found cleared laid rest ih =>
      have file_inner := moves.listed pair List.mem_cons_self
      have target_inner := moves.renamed pair List.mem_cons_self
      have target_named := isName_of_mem_copied named target_inner
      have on_the_way : ∀ place rest, place <+: copied ++ rest → region place :=
        fun place rest starts =>
          laid_in place (List.prefix_or_prefix_of_prefix starts (List.prefix_append _ _))
      obtain ⟨other_removed, other_cleared, between⟩ := cleared.transfer start (by simp [more])
        fun front below => on_the_way front _ below.1
      have receives := laid.receives.congr between
        (fun place onWay => on_the_way place _ (onWay_fromRoot target_named (onWay_of_parent onWay)))
        fun place within _ => by
          rw [renamedWrite, removed.placeOf_fromRoot target_named] at within
          exact laid_in place (Or.inr ((List.prefix_append _ _).trans within))
      obtain ⟨other_middle, other_laid⟩ := exists_laid between.right_sound receives
      have current := laid.current.trans cleared.current
      obtain ⟨last, others_rename, ends⟩ := ih (moves.tail current)
        (laid.agree other_laid between) fun other member place onWay =>
          read other (List.mem_cons_of_mem _ member) place ((onWay_congr current).1 onWay)
      refine ⟨last, .cons ?_ other_cleared other_laid others_rename, ends⟩
      rw [start.find?_eq (read pair List.mem_cons_self)]
      exact found

end Rename

def Stages (entry : Entry) (copier : Copier) (source : Path) (copied : Place)
    (replacements : Replacements) (before after : Disk) : Prop :=
  ∃ laid middle,
    Follows laid (.fromRoot copied)
      (if entry.only then [] else copier.treePlan before (.fromRoot copied) none source)
      before middle ∧
    Renames source copied replacements entry.files.entries middle after

section Stage

variable {entry : Entry} {copier : Copier} {source : Path} (source_written : source.IsWritten)
  {copied : Place} (named : ∀ name ∈ copied, Path.IsName name) (more : copied ≠ [])
  {replacements : Replacements} (stays : entry.StaysBelow replacements)

theorem moves_of_staysBelow {disk : Disk} (stays : entry.StaysBelow replacements)
    (apart : Apart (disk.placeOf source) copied)
    (outside : ∀ place, disk.OnWay source place → ¬ copied <+: place) :
    Moves disk source copied replacements entry.files.entries where
  outside pair member place onWay :=
    (onWay_div (stays.listed pair member) onWay).elim (outside place) (not_prefix_of_apart apart)
  listed := stays.listed
  renamed := stays.renamed

include source_written named more stays

theorem stage_eq_ok {world reached : World} (sound : world.disk.Sound)
    (apart : Apart (world.disk.placeOf source) copied)
    (outside : ∀ place, world.disk.OnWay source place → ¬ copied <+: place)
    (ends : entry.stage copier source (.fromRoot copied) replacements world = .ok () reached) :
    entry.Stages copier source copied replacements world.disk reached.disk := by
  have moves := moves_of_staysBelow stays apart outside
  unfold stage at ends
  unfold Stages
  cases only : entry.only with
  | true =>
      rw [only] at ends
      exact ⟨[], world.disk, ⟨rfl, .nil (Agree.refl sound), nofun⟩,
        rename_eq_ok named more source_written sound moves ends⟩
  | false =>
      rw [only] at ends
      obtain ⟨written, between, copies, renames⟩ := bind_eq_ok_iff.1 ends
      have copied_written : (Path.fromRoot copied).IsWritten := fun name member =>
        (named name member).1
      obtain ⟨laid, follows, -, -⟩ := copyTree_eq_ok sound source_written copied_written
        (fun _ _ => not_prefix_of_apart (by rwa [world.disk.placeOf_fromRoot named])
          (List.prefix_append _ _))
        (fun delivery member =>
          inner_of_mem_treeDeliveries_none sound source_written copied_written member) copies
      have current := follows.lays.current
      refine ⟨laid, between.disk, follows, rename_eq_ok named more source_written
        (follows.lays.sound sound) (moves_of_staysBelow stays ?_ ?_) renames⟩
      · rwa [placeOf_congr current]
      · exact fun place onWay => outside place ((onWay_congr current).1 onWay)

theorem stage_stages {world : World} (sound : world.disk.Sound)
    (directory : world.disk.isDirectory source = true)
    (apart : Apart (world.disk.placeOf source) copied)
    (outside : ∀ place, world.disk.OnWay source place → ¬ copied <+: place) {after : Disk}
    (stages : entry.Stages copier source copied replacements world.disk after) :
    ∃ reached, entry.stage copier source (.fromRoot copied) replacements world = .ok () reached ∧
      Same after reached.disk := by
  obtain ⟨laid, middle, follows, renames⟩ := stages
  unfold stage
  cases only : entry.only with
  | true =>
      rw [only, if_pos rfl] at follows
      obtain ⟨writes, lays, -⟩ := follows
      obtain rfl := List.map_eq_nil_iff.1 writes
      cases lays with
      | nil same =>
          exact rename_renames named more source_written sound
            (moves_of_staysBelow stays apart outside) (renames.congr_left same)
  | false =>
      rw [only, if_neg Bool.false_ne_true] at follows
      have copied_written : (Path.fromRoot copied).IsWritten := fun name member =>
        (named name member).1
      obtain ⟨between, copies, same⟩ := copyTree_lays sound source_written copied_written
        (parted_of_apart directory (by rwa [world.disk.placeOf_fromRoot named]) _) follows
      have current := same.current.trans follows.lays.current
      obtain ⟨reached, ends, final⟩ : ∃ reached, rename (.fromRoot copied) source entry.label
          replacements entry.files.entries between = .ok () reached ∧ Same after reached.disk :=
        rename_renames named more source_written same.right_sound
          (moves_of_staysBelow stays (by rwa [placeOf_congr current])
            fun place onWay => outside place ((onWay_congr current).1 onWay))
          (renames.congr_left same.symm)
      exact ⟨reached, (bind_ok copies _).trans ends, final⟩

omit source_written in
theorem Stages.transfer {before after other : Disk}
    (stages : entry.Stages copier source copied replacements before after)
    (directory : before.isDirectory source = true) (apart : Apart (before.placeOf source) copied)
    (outside : ∀ place, before.OnWay source place → ¬ copied <+: place) {region : Place → Prop}
    (agree : Agree region before other) (way : ∀ place, before.OnWay source place → region place)
    (within : ∀ place, before.placeOf source <+: place → region place)
    (laid_in : ∀ place, place <+: copied ∨ copied <+: place → region place) :
    ∃ last, entry.Stages copier source copied replacements other last ∧ Agree region after last := by
  obtain ⟨laid, middle, follows, renames⟩ := stages
  obtain ⟨between, lays, same⟩ := follows.lays.transfer agree fun item member place inside => by
    have led := before.placeOf_fromRoot named
    rcases inside with onWay | below
    · rcases (follows.stays item member).onWay (onWay_of_parent onWay) with front | inner
      · exact laid_in place (Or.inl (onWay_fromRoot named front))
      · exact laid_in place (Or.inr (led ▸ inner))
    · have inner : before.placeOf (.fromRoot copied) <+: place :=
        (follows.stays item member).placeOf.trans below
      exact laid_in place (Or.inr (led ▸ inner))
  have current := follows.lays.current
  obtain ⟨last, others, final⟩ := renames.transfer named more
    (moves_of_staysBelow stays (by rwa [placeOf_congr current])
      fun place onWay => outside place ((onWay_congr current).1 onWay)) same
    (fun pair member place onWay => by
      have before_way := (onWay_congr current).1 onWay
      exact (onWay_div (stays.listed pair member) before_way).elim (way place) (within place))
    laid_in
  refine ⟨last, ⟨laid, between, ⟨follows.writes.trans ?_, lays, follows.stays⟩, others⟩, final⟩
  rw [treePlan_agree agree directory way within]

end Stage

end Archetype.Template.Entry
