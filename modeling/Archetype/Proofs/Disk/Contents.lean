import Archetype.Proofs.Disk.Alteration
import Mathlib.Logic.Function.Basic

namespace Archetype.Disk

abbrev Content := ByteArray × Bool

def contentAt (disk : Disk) (place : Place) : Option Content :=
  match disk.node? place with
  | some (.file content executable) => some (content, executable)
  | _ => none

structure Holds (disk : Disk) (base : Place) (files : Place → Option Content)
    (ways : Place → Prop) : Prop where
  file : ∀ rest, disk.contentAt (base ++ rest) = files rest
  directory : ∀ rest, rest ≠ [] → disk.node? (base ++ rest) = some .directory → ways rest

def overlay (files : Place → Option Content) (writes : List (Place × Content)) :
    Place → Option Content :=
  writes.foldl (fun files write => Function.update files write.1 (some write.2)) files

def Below (place other : Place) : Prop :=
  other <+: place ∧ other ≠ place

instance (place other : Place) : Decidable (Below place other) :=
  inferInstanceAs (Decidable (_ ∧ _))

theorem contentAt_eq_some_iff {disk : Disk} {place : Place} {content : Content} :
    disk.contentAt place = some content ↔
      disk.node? place = some (.file content.1 content.2) := by
  unfold contentAt
  split
  · rename_i bytes executable held
    rw [held, Option.some_inj, Option.some_inj, Node.file.injEq, Prod.ext_iff]
  · rename_i other
    refine iff_of_false (by simp) fun held => other content.1 content.2 held

theorem contentAt_congr {disk other : Disk} {place : Place}
    (same : other.node? place = disk.node? place) :
    other.contentAt place = disk.contentAt place := by
  rw [contentAt, contentAt, same]

theorem contentAt_eq_none {disk : Disk} {place : Place}
    (noFile : disk.node? place = none ∨ disk.node? place = some .directory) :
    disk.contentAt place = none := by
  unfold contentAt
  rcases noFile with absent | directory
  · rw [absent]
  · rw [directory]

theorem Sound.directory_or_absent {disk : Disk} (sound : disk.Sound) {place : Place}
    (noFile : disk.contentAt place = none) :
    disk.node? place = some .directory ∨ disk.node? place = none := by
  cases held : disk.node? place with
  | none => exact Or.inr rfl
  | some node =>
      cases node with
      | directory => exact Or.inl rfl
      | link target => exact absurd held (sound.linkFree _ target)
      | file content executable => simp [contentAt, held] at noFile

theorem Sound.not_below {disk : Disk} (sound : disk.Sound) (base : Place) {front other : Place}
    (blocked : disk.node? (base ++ front) ≠ some .directory)
    (held : disk.node? (base ++ other) ≠ none) : ¬ Below other front := by
  rintro ⟨⟨rest, rfl⟩, apart⟩
  have more : rest ≠ [] := fun empty => apart (by simp [empty])
  rw [← List.append_assoc] at held
  exact blocked (sound.directory_of_append more held)

theorem overlay_other {writes : List (Place × Content)} {place : Place}
    (apart : ∀ write ∈ writes, write.1 ≠ place) (files : Place → Option Content) :
    overlay files writes place = files place := by
  induction writes generalizing files with
  | nil => rfl
  | cons write others ih =>
      obtain ⟨here, later⟩ := List.forall_mem_cons.1 apart
      exact (ih later _).trans (Function.update_of_ne (Ne.symm here) _ _)

theorem overlay_of_mem {writes : List (Place × Content)} {place : Place} {content : Content}
    (member : (place, content) ∈ writes)
    (once : ∀ write ∈ writes, write.1 = place → write.2 = content)
    (files : Place → Option Content) : overlay files writes place = some content := by
  induction writes generalizing files with
  | nil => cases member
  | cons write others ih =>
      obtain ⟨here, later⟩ := List.forall_mem_cons.1 once
      change overlay (Function.update files write.1 (some write.2)) others place = some content
      by_cases again : ∃ other ∈ others, other.1 = place
      · obtain ⟨other, inside, same⟩ := again
        have value := later other inside same
        exact ih (by rwa [← same, ← value]) later _
      · rcases List.mem_cons.1 member with same | inside
        · rw [overlay_other (fun other inside there => again ⟨other, inside, there⟩), ← same,
            Function.update_self]
        · exact absurd ⟨_, inside, rfl⟩ again

theorem overlay_congr {writes : List (Place × Content)} {place : Place}
    (wrote : ∃ write ∈ writes, write.1 = place) (files others : Place → Option Content) :
    overlay files writes place = overlay others writes place := by
  induction writes generalizing files others with
  | nil => simp at wrote
  | cons write rest ih =>
      change overlay (Function.update files write.1 (some write.2)) rest place =
        overlay (Function.update others write.1 (some write.2)) rest place
      by_cases again : ∃ other ∈ rest, other.1 = place
      · exact ih again _ _
      · have once : ∀ other ∈ rest, other.1 ≠ place := fun other member same =>
          again ⟨other, member, same⟩
        have here : write.1 = place := (List.exists_mem_cons_iff _ _ _).1 wrote |>.resolve_right again
        rw [overlay_other once, overlay_other once, here, Function.update_self, Function.update_self]

theorem overlay_ne_none {writes : List (Place × Content)} {place : Place}
    {files : Place → Option Content}
    (wrote : (∃ write ∈ writes, write.1 = place) ∨ files place ≠ none) :
    overlay files writes place ≠ none := by
  induction writes generalizing files with
  | nil => exact wrote.resolve_left (by simp)
  | cons write rest ih =>
      change overlay (Function.update files write.1 (some write.2)) rest place ≠ none
      refine ih ?_
      by_cases here : write.1 = place
      · rw [here, Function.update_self]
        exact Or.inr nofun
      · rw [Function.update_of_ne (Ne.symm here)]
        exact wrote.imp_left fun among =>
          ((List.exists_mem_cons_iff _ _ _).1 among).resolve_left here

theorem overlay_append (files : Place → Option Content) (writes others : List (Place × Content)) :
    overlay files (writes ++ others) = overlay (overlay files writes) others :=
  List.foldl_append

theorem overlay_last_write (files : Place → Option Content) (front : List (Place × Content))
    (write : Place × Content) {later : List (Place × Content)}
    (apart : ∀ other ∈ later, other.1 ≠ write.1) :
    overlay files (front ++ write :: later) write.1 = some write.2 := by
  rw [overlay_append]
  change overlay (Function.update _ write.1 (some write.2)) later write.1 = some write.2
  rw [overlay_other apart, Function.update_self]

theorem overlay_swap {writes others : List (Place × Content)}
    (apart : ∀ write ∈ writes, ∀ other ∈ others, write.1 ≠ other.1)
    (files : Place → Option Content) :
    overlay files (writes ++ others) = overlay files (others ++ writes) := by
  rw [overlay_append, overlay_append]
  funext place
  by_cases wrote : ∃ write ∈ writes, write.1 = place
  · obtain ⟨write, member, rfl⟩ := wrote
    rw [overlay_other fun other inside same => apart write member other inside same.symm]
    exact overlay_congr ⟨write, member, rfl⟩ _ _
  · have elsewhere : ∀ write ∈ writes, write.1 ≠ place := fun write member same =>
      wrote ⟨write, member, same⟩
    rw [overlay_other elsewhere]
    by_cases other_wrote : ∃ other ∈ others, other.1 = place
    · exact overlay_congr other_wrote _ _
    · have nowhere : ∀ other ∈ others, other.1 ≠ place := fun other member same =>
        other_wrote ⟨other, member, same⟩
      rw [overlay_other nowhere, overlay_other nowhere, overlay_other elsewhere]

theorem overlay_overlay (files : Place → Option Content) (writes : List (Place × Content)) :
    overlay (overlay files writes) writes = overlay files writes := by
  funext place
  by_cases wrote : ∃ write ∈ writes, write.1 = place
  · exact overlay_congr wrote _ _
  · exact overlay_other (fun write member same => wrote ⟨write, member, same⟩) _

section Holds

variable {disk : Disk} {base : Place} {files : Place → Option Content} {ways : Place → Prop}

theorem Holds.absent (holds : disk.Holds base files ways) (sound : disk.Sound) {rest : Place}
    (more : rest ≠ []) (noFile : files rest = none) (noWay : ¬ ways rest) :
    disk.node? (base ++ rest) = none :=
  (sound.directory_or_absent ((holds.file rest).trans noFile)).resolve_left fun directory =>
    noWay (holds.directory rest more directory)

theorem Holds.mono (holds : disk.Holds base files ways) {more : Place → Prop}
    (within : ∀ rest, ways rest → more rest) : disk.Holds base files more :=
  ⟨holds.file, fun rest apart held => within rest (holds.directory rest apart held)⟩

theorem holds_of_absent (sound : disk.Sound) (absent : disk.node? base = none) :
    disk.Holds base (fun _ => none) fun _ => False := by
  have nothing : ∀ rest, disk.node? (base ++ rest) = none := by
    intro rest
    by_cases more : rest = []
    · rwa [more, List.append_nil]
    · exact sound.none_of_append more (by simp [absent])
  refine ⟨fun rest => contentAt_eq_none (Or.inl (nothing rest)), fun rest _ held => ?_⟩
  rw [nothing rest] at held
  cases held

theorem Holds.put (holds : disk.Holds base files ways) {made : Disk} {rest : Place}
    (more : rest ≠ [])
    (way : ∀ inner, made.node? (base ++ inner) = disk.node? (base ++ inner) ∨
      (made.node? (base ++ inner) = some .directory ∧ disk.node? (base ++ inner) = none ∧
        (inner ≠ [] → Below rest inner))) (content : Content) :
    (made.put (base ++ rest) (.file content.1 content.2)).Holds base
      (Function.update files rest (some content)) fun inner => ways inner ∨ Below rest inner := by
  have base_more : base ++ rest ≠ [] := by simp [more]
  refine ⟨fun inner => ?_, fun inner inner_more held => ?_⟩
  · by_cases here : inner = rest
    · subst here
      rw [Function.update_self, contentAt_eq_some_iff, node?_put made base_more, if_pos rfl]
    · have apart : base ++ rest ≠ base ++ inner := fun same => here (List.append_cancel_left same).symm
      rw [Function.update_of_ne here, ← holds.file]
      rcases way inner with same | ⟨new, absent, -⟩
      · refine contentAt_congr ?_
        rw [node?_put made base_more, if_neg apart, same]
      · rw [contentAt_eq_none (Or.inl absent)]
        refine contentAt_eq_none (Or.inr ?_)
        rw [node?_put made base_more, if_neg apart, new]
  · rw [node?_put made base_more] at held
    split at held
    · cases held
    · rcases way inner with same | ⟨-, -, below⟩
      · exact Or.inl (holds.directory inner inner_more (same.symm.trans held))
      · exact Or.inr (below inner_more)

theorem Holds.erase (holds : disk.Holds base files ways) {rest : Place} (more : rest ≠ []) :
    (disk.erase (base ++ rest)).Holds base (Function.update files rest none) ways := by
  refine ⟨fun inner => ?_, fun inner inner_more held => ?_⟩
  · by_cases here : inner = rest
    · subst here
      rw [Function.update_self]
      refine contentAt_eq_none (Or.inl ?_)
      rw [node?_erase, if_pos ⟨rfl, by simp [more]⟩]
    · have apart : base ++ rest ≠ base ++ inner := fun same => here (List.append_cancel_left same).symm
      rw [Function.update_of_ne here, ← holds.file]
      refine contentAt_congr ?_
      rw [node?_erase, if_neg fun same => apart same.1]
  · rw [node?_erase] at held
    split at held
    · cases held
    · exact holds.directory inner inner_more held

end Holds

end Archetype.Disk
