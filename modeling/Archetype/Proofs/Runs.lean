import Archetype.Proofs.Plans

namespace Archetype.Template.Entry

open Archetype.Action Archetype.Disk Archetype.Copier

inductive Runs (copier : Copier) (template target : Path) (replacements : Replacements) :
    List Entry → List (List (Write × Place)) → Disk → Disk → Prop
  | nil {before after : Disk} (same : Same before after) :
      Runs copier template target replacements [] [] before after
  | cons {entry : Entry} {entries : List Entry} {writes : List Write} {laid : List (Write × Place)}
      {others : List (List (Write × Place))} {before middle after : Disk}
      (plans : entry.Plans copier template target replacements before writes)
      (follows : Follows laid target writes before middle)
      (rest : Runs copier template target replacements entries others middle after) :
      Runs copier template target replacements (entry :: entries) (laid :: others) before after

structure Inner (entry : Entry) (replacements : Replacements) : Prop where
  source : Path.Inner entry.source
  stays : entry.StaysBelow replacements

instance (entry : Entry) (replacements : Replacements) :
    Decidable (entry.Inner replacements) :=
  decidable_of_iff (Path.Inner entry.source ∧ entry.StaysBelow replacements)
    ⟨fun ⟨source, stays⟩ => ⟨source, stays⟩, fun inner => ⟨inner.source, inner.stays⟩⟩

section Runs

variable {copier : Copier} {template target : Path} {replacements : Replacements}
  {entries : List Entry} {runs : List (List (Write × Place))} {before after : Disk}

theorem Runs.stays (ran : Runs copier template target replacements entries runs before after) :
    ∀ item ∈ runs.flatten, item.1.StaysBelow target := by
  induction ran with
  | nil same => exact nofun
  | cons plans follows rest ih =>
      intro item member
      exact (List.mem_append.1 member).elim (follows.stays item) (ih item)

theorem Runs.lays (ran : Runs copier template target replacements entries runs before after) :
    Lays runs.flatten before after := by
  induction ran with
  | nil same => exact .nil same
  | cons plans follows rest ih => exact follows.lays.append ih

theorem Runs.transfer (ran : Runs copier template target replacements entries runs before after)
    (inners : ∀ entry ∈ entries, entry.Inner replacements)
    (apart : Apart (before.placeOf template) before.temporary) {other last : Disk}
    (preserves : Preserves template before other) (lays : Lays runs.flatten other last) :
    Runs copier template target replacements entries runs other last := by
  induction ran generalizing other with
  | nil same =>
      cases lays with
      | nil other_same => exact .nil other_same
  | @cons entry entries writes laid others before middle after plans follows rest ih =>
      obtain ⟨inner, others_inner⟩ := List.forall_mem_cons.1 inners
      obtain ⟨between, other_lays, others_lay⟩ := lays.split preserves.agree.right_sound
      have altered := follows.lays.altered preserves.agree.left_sound follows.stays
      refine .cons (plans.transfer inner.stays inner.source preserves apart)
        ⟨follows.writes, other_lays, follows.stays⟩
        (ih others_inner ?_ (preserves.lays follows.lays other_lays) others_lay)
      rw [altered.placeOf, altered.temporary]
      exact apart

theorem Runs.congr_left
    (ran : Runs copier template target replacements entries runs before after)
    (inners : ∀ entry ∈ entries, entry.Inner replacements)
    (apart : Apart (before.placeOf template) before.temporary) {first : Disk}
    (same : Same first before) :
    Runs copier template target replacements entries runs first after :=
  ran.transfer inners apart (.of_same same.symm) (ran.lays.congr_left same)

theorem Runs.plans_at (ran : Runs copier template target replacements entries runs before after)
    (inners : ∀ entry ∈ entries, entry.Inner replacements)
    (separate : before.Separate template target) (sound : before.Sound) {origin : Disk}
    (agree : Agree (fun place => before.placeOf template <+: place ∨ before.temporary <+: place)
      before origin)
    (way : ∀ place, before.OnWay template place → origin.node? place = some .directory) :
    List.Forall₂ (fun entry laid => entry.Plans copier template target replacements origin
      (laid.map Prod.fst)) entries runs := by
  induction ran with
  | nil => exact .nil
  | @cons entry entries writes laid others before middle after plans follows rest ih =>
      obtain ⟨inner, others_inner⟩ := List.forall_mem_cons.1 inners
      have preserves := separate.preserves follows.lays sound follows.stays
      have current := follows.lays.current
      refine .cons ?_ (ih others_inner (separate.after_lays follows.lays sound follows.stays)
        (follows.lays.sound sound) ?_ fun place onWay => way place ((onWay_congr current).1 onWay))
      · rw [follows.writes]
        exact plans.transfer inner.stays inner.source ⟨agree, fun place onWay _ => way place onWay⟩
          separate.template_temporary
      · rw [preserves.agree.placeOf, preserves.agree.temporary]
        exact preserves.agree.symm.trans agree

theorem runs_of_lays {origin : Disk}
    (planned : List.Forall₂ (fun entry laid => entry.Plans copier template target replacements origin
      (laid.map Prod.fst)) entries runs)
    (inners : ∀ entry ∈ entries, entry.Inner replacements)
    (stays : ∀ item ∈ runs.flatten, item.1.StaysBelow target)
    (preserves : Preserves template origin before) (separate : before.Separate template target)
    (sound : before.Sound) (lays : Lays runs.flatten before after) :
    Runs copier template target replacements entries runs before after := by
  induction planned generalizing before with
  | nil =>
      cases lays with
      | nil same => exact .nil same
  | @cons entry laid entries others plans planned ih =>
      obtain ⟨inner, others_inner⟩ := List.forall_mem_cons.1 inners
      obtain ⟨own, later⟩ := List.forall_mem_append.1 stays
      obtain ⟨middle, own_lays, others_lay⟩ := lays.split sound
      have kept := separate.preserves own_lays sound own
      have apart : Apart (origin.placeOf template) origin.temporary := by
        rw [← preserves.agree.placeOf, ← preserves.agree.temporary]
        exact separate.template_temporary
      exact .cons (plans.transfer inner.stays inner.source preserves apart) ⟨rfl, own_lays, own⟩
        (ih others_inner later (preserves.trans kept) (separate.after_lays own_lays sound own)
          (own_lays.sound sound) others_lay)

section World

variable (template_written : template.IsWritten) (target_written : target.IsWritten)
  (inners : ∀ entry ∈ entries, entry.Inner replacements) {world reached : World}
  (sound : world.disk.Sound) (separate : world.disk.Separate template target)

include template_written target_written inners sound separate

theorem copyAll_eq_ok {written : List Path}
    (inner : ∀ delivery ∈ allDeliveries copier template target replacements entries world,
      Path.Inner delivery.relative)
    (ends : copyAll copier template target replacements entries world = .ok written reached) :
    ∃ runs, Runs copier template target replacements entries runs world.disk reached.disk ∧
      (written = runs.flatten.map fun item => item.1.path) ∧
        ∀ item ∈ runs.flatten, ∃ delivery ∈
          allDeliveries copier template target replacements entries world, LandsAt delivery item := by
  induction entries generalizing world written with
  | nil =>
      cases ends
      exact ⟨[], .nil (Agree.refl sound), rfl, nofun⟩
  | cons entry entries ih =>
      obtain ⟨entry_inner, others_inner⟩ := List.forall_mem_cons.1 inners
      obtain ⟨_, noted, notes, continues⟩ := bind_eq_ok_iff.1 ends
      rw [allDeliveries, collect_of_ok notes] at inner ⊢
      obtain ⟨own, later⟩ := List.forall_mem_append.1 inner
      obtain ⟨first, middle, copies, continues⟩ := bind_eq_ok_iff.1 continues
      rw [collect_of_ok copies] at later ⊢
      obtain ⟨others, last, copied, returns⟩ := bind_eq_ok_iff.1 continues
      cases returns
      cases notes
      obtain ⟨writes, laid, plans, follows, rfl, lands⟩ := copy_eq_ok template_written target_written
        entry_inner.stays entry_inner.source (by exact sound) (by exact separate) own copies
      obtain ⟨runs, ran, rfl, others_land⟩ := ih others_inner (follows.lays.sound sound)
        (separate.after_lays follows.lays sound follows.stays) later copied
      refine ⟨laid :: runs, .cons plans follows ran, by simp, fun item member => ?_⟩
      rcases List.mem_append.1 member with own | later
      · obtain ⟨delivery, inside, lands⟩ := lands item own
        exact ⟨delivery, List.mem_append_left _ inside, lands⟩
      · obtain ⟨delivery, inside, lands⟩ := others_land item later
        exact ⟨delivery, List.mem_append_right _ inside, lands⟩

theorem copyAll_runs
    (ran : Runs copier template target replacements entries runs world.disk after) :
    ∃ reached, copyAll copier template target replacements entries world =
      .ok (runs.flatten.map fun item => item.1.path) reached ∧ Same after reached.disk := by
  induction entries generalizing world runs with
  | nil =>
      cases ran with
      | nil same => exact ⟨world, rfl, same.symm⟩
  | cons entry entries ih =>
      obtain ⟨entry_inner, others_inner⟩ := List.forall_mem_cons.1 inners
      cases ran with
      | @cons _ _ writes laid others _ middle _ plans follows rest =>
          let noted : World :=
            { world with journal := world.journal ++ [.noted (.applying entry.label)] }
          have noted_sound : noted.disk.Sound := sound
          obtain ⟨between, copies, same⟩ := copy_plans template_written target_written
            entry_inner.stays entry_inner.source noted_sound separate plans follows
          have separate_after := separate.after_lays (follows.lays.congr same) sound follows.stays
          have middle_apart : Apart (middle.placeOf template) middle.temporary := by
            rw [← placeOf_congr same.current, ← same.temporary]
            exact separate_after.template_temporary
          obtain ⟨last, copied, ends⟩ := ih others_inner same.right_sound separate_after
            (rest.congr_left others_inner middle_apart same.symm)
          refine ⟨last, ?_, ends⟩
          rw [copyAll, List.flatten_cons, List.map_append]
          refine (bind_ok rfl _).trans ((bind_ok copies _).trans ((bind_ok copied _).trans ?_))
          rfl

end World

end Runs

end Archetype.Template.Entry

namespace Archetype.Template.Descriptor

theorem entries_ne_nil (descriptor : Descriptor) (disk : Disk) (template : Path) :
    descriptor.entries disk template ≠ [] := by
  unfold entries
  split
  · simp
  · rename_i without
    cases transforms : descriptor.transforms with
    | nil => simp [transforms] at without
    | cons entry entries => simp

end Archetype.Template.Descriptor
