import Archetype.Proofs.Runs

namespace Archetype.Disk

structure Alike (left right : Disk) : Prop where
  sound : right.Sound
  current : right.current = left.current
  temporary : right.temporary = left.temporary
  directory : ∀ place, right.node? place = some .directory ↔ left.node? place = some .directory
  file : ∀ place, right.contentAt place = none ↔ left.contentAt place = none

theorem Alike.refl {disk : Disk} (sound : disk.Sound) : Alike disk disk :=
  ⟨sound, rfl, rfl, fun _ => Iff.rfl, fun _ => Iff.rfl⟩

theorem lands_of_paved {before other : Disk} {write : Write} {landing : Place}
    (lands : before.Lands write landing) (current : other.current = before.current)
    (paved : ∀ place, before.Paves write.path place → other.node? place = some .directory)
    (blocked : other.node? landing ≠ some .directory) : other.Lands write landing := by
  have vacant : ¬ other.Paves write.path landing := by
    rintro (onWay | directory)
    · exact not_paves_of_lands lands (Or.inl ((onWay_congr current).1 onWay))
    · exact blocked directory
  have same := placeOf_congr current write.path
  cases lands with
  | here _ =>
      rw [← same] at vacant ⊢
      exact .here vacant
  | inside named directory _ =>
      have there := paved _ directory
      rw [← same] at vacant there ⊢
      exact .inside named (Or.inr there) vacant

namespace Lays

variable {laid : List (Write × Place)} {before after : Disk}

theorem again (lays : Lays laid before after) {other : Disk} (alike : Alike after other) :
    ∃ last, Lays laid other last ∧ Alike after last := by
  induction lays generalizing other with
  | nil same => exact ⟨other, .nil (Agree.refl alike.sound), alike⟩
  | @cons write landing others before middle after first rest ih =>
      have current : other.current = before.current :=
        (alike.current.trans rest.current).trans first.current
      -- what the first run has made and written is there when the second one begins
      have paved : ∀ place, before.Paves write.path place → after.node? place = some .directory :=
        fun place paves => rest.grows ((first.directory_iff place).2 paves)
      have file : after.contentAt landing ≠ none := by
        refine rest.keepsFile ?_
        rw [first.contentAt_eq, Function.update_self]
        exact nofun
      have way : ∀ place, other.OnWay write.path.parent place →
          other.node? place = some .directory := fun place onWay =>
        (alike.directory place).2 (paved place (Or.inl ((onWay_congr current).1 onWay)))
      have receives : other.Receives write landing := by
        refine ⟨first.receives.proper, first.receives.noNull,
          ⟨first.receives.makeable.noNull, way _ ⟨[], List.nil_prefix, rfl⟩,
            fun place onWay => Or.inl (way place onWay)⟩,
          lands_of_paved first.receives.lands current
            (fun place paves => (alike.directory place).2 (paved place paves)) fun directory => ?_⟩
        exact file (contentAt_eq_none (Or.inr ((alike.directory landing).1 directory)))
      obtain ⟨between, laid⟩ := exists_laid alike.sound receives
      -- nothing is new on the other disk, neither a directory nor a file
      have still : Alike after between := by
        refine ⟨laid.sound, laid.current.trans alike.current, laid.temporary.trans alike.temporary,
          fun place => ?_, fun place => ?_⟩
        · rw [laid.directory_iff, Paves, alike.directory]
          exact ⟨fun either => either.elim
            (fun onWay => paved place (Or.inl ((onWay_congr current).1 onWay))) id, Or.inr⟩
        · rw [laid.contentAt_eq]
          by_cases here : place = landing
          · rw [here, Function.update_self]
            exact iff_of_false nofun file
          · rw [Function.update_of_ne here, alike.file]
      obtain ⟨last, lays, ends⟩ := ih still
      exact ⟨last, .cons laid lays, ends⟩

theorem same_of_again (lays : Lays laid before after) (sound : before.Sound) :
    ∃ last, Lays laid after last ∧ Same after last := by
  obtain ⟨last, again, alike⟩ := lays.again (Alike.refl (lays.sound sound))
  refine ⟨last, again, same_of_contents (lays.sound sound) alike.sound alike.current alike.temporary
    ?_ alike.directory⟩
  rw [again.contentAt_eq, lays.contentAt_eq, overlay_overlay]

end Lays

end Archetype.Disk

namespace Archetype.Template

open Archetype.Action Archetype.Disk Archetype.Copier

namespace Descriptor

theorem isDirectory_preserved {left right : Disk} {template : Path}
    (preserves : Preserves template left right) {text other : String} (inner : Path.Inner text)
    (other_inner : Path.Inner other) (directory : left.isDirectory (template / text) = true) :
    right.isDirectory (template / other) = left.isDirectory (template / other) :=
  (preserves.agree_source inner directory).isDirectory_eq fun _ onWay =>
    (onWay_div_iff other_inner).1 onWay |>.imp (fun way => (onWay_div_iff inner).2 (Or.inl way))
      fun ⟨_, _, same⟩ => Or.inl (same ▸ List.prefix_append _ _)

theorem entries_preserved (descriptor : Descriptor) {left right : Disk} {template : Path}
    (preserves : Preserves template left right) {text : String} (inner : Path.Inner text)
    (directory : left.isDirectory (template / text) = true) :
    descriptor.entries right template = descriptor.entries left template := by
  unfold entries
  cases named : descriptor.root? with
  | some root => simp
  | none =>
      have default : descriptor.root = defaultRoot := by simp [root, named]
      rw [default, isDirectory_preserved preserves inner (by decide) directory]

section Again

variable {world reached : World} (sound : world.disk.Sound) {template target : Path}
  (template_written : template.IsWritten) (target_written : target.IsWritten)
  (descriptor : Descriptor) (copier : Copier) (replacements : Replacements)
  (separate : world.disk.Separate template target)
  (inners : ∀ entry ∈ descriptor.entries world.disk template, entry.Inner replacements)
  (inner : ∀ delivery ∈ descriptor.deliveries copier template target replacements world,
    Path.Inner delivery.relative)

include sound template_written target_written separate inners inner

theorem copyFiles_again {written : List Path}
    (ends : descriptor.copyFiles copier template target replacements world =
      .ok written reached) :
    ∃ again, descriptor.copyFiles copier template target replacements reached = .ok written again ∧
      Same reached.disk again.disk := by
  obtain ⟨runs, ran, rfl, -⟩ := Entry.copyAll_eq_ok template_written target_written inners sound
    separate inner ends
  have lays := ran.lays
  have preserves := separate.preserves lays sound ran.stays
  obtain ⟨last, lays_again, same⟩ := lays.same_of_again sound
  have ran_again := ran.transfer inners separate.template_temporary preserves lays_again
  obtain ⟨again, ends_again, final⟩ := Entry.copyAll_runs template_written target_written inners
    (lays.sound sound) (separate.after_lays lays sound ran.stays) ran_again
  have entries : descriptor.entries reached.disk template =
      descriptor.entries world.disk template := by
    obtain ⟨entry, others, whole⟩ :=
      List.exists_cons_of_ne_nil (descriptor.entries_ne_nil world.disk template)
    rw [whole] at ran inners
    cases ran with
    | cons plans =>
        exact descriptor.entries_preserved preserves (inners entry List.mem_cons_self).source
          plans.directory
  refine ⟨again, ?_, same.trans final⟩
  rw [copyFiles, disk_bind, entries]
  exact ends_again

end Again

theorem copyFiles_again_sample :
    ∃ written reached again,
      (sample "a.txt" "\x7b\x7bname\x7d\x7d.txt").copyFiles .standard (.ofText "/tmp/w/t")
        (.ofText "/tmp/w/p") sampleReplacements sampleWorld = .ok written reached ∧
      reached.disk.node? ["tmp", "w", "p", "out", "x.txt"] = some (.file "A".toUTF8 false) ∧
      (sample "a.txt" "\x7b\x7bname\x7d\x7d.txt").copyFiles .standard (.ofText "/tmp/w/t")
        (.ofText "/tmp/w/p") sampleReplacements reached = .ok written again ∧
      Same reached.disk again.disk := by
  obtain ⟨written, reached, ends, holds⟩ := ok_of_check
    ((sample "a.txt" "\x7b\x7bname\x7d\x7d.txt").copyFiles .standard (.ofText "/tmp/w/t")
      (.ofText "/tmp/w/p") sampleReplacements) sampleWorld
    (fun disk => decide (disk.node? ["tmp", "w", "p", "out", "x.txt"] =
      some (.file "A".toUTF8 false)))
    (by decide +kernel)
  obtain ⟨again, ends_again, same⟩ := copyFiles_again sound_sampleWorld (Path.isWritten_ofText _)
    (Path.isWritten_ofText _) _ _ _ (by decide +kernel) (by decide +kernel) (by decide +kernel) ends
  exact ⟨written, reached, again, ends, of_decide_eq_true holds, ends_again, same⟩

end Descriptor

end Archetype.Template
