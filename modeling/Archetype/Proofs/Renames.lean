import Archetype.Proofs.Containment
import Archetype.Proofs.CopyResults

namespace Archetype.Template.Entry

open Archetype.Action Archetype.Disk Archetype.Copier

def moved (contents staged : Place → Option Content) (moves : List (Place × Place)) :
    Place → Option Content :=
  moves.foldl (fun files move => Function.update (Function.update files move.1 none) move.2
    (contents move.1)) staged

/-- Moves that do not get in each other's way, nor in that of the copied files. -/
structure Orderly (moves : List (Place × Place)) (staged : Place → Option Content)
    (ways : Place → Prop) : Prop where
  targets : moves.Pairwise fun first later => Apart first.2 later.2
  ordered : moves.Pairwise fun first later => ¬ Below first.2 later.1 ∧ ¬ Below later.1 first.2
  listed : ∀ move ∈ moves, ¬ ways move.1 ∧ ∀ front, Below move.1 front → staged front = none
  vacant : ∀ move ∈ moves, ¬ ways move.2
  above : ∀ move ∈ moves, ∀ front, Below move.2 front → staged front ≠ none →
    ∃ other ∈ moves, other.1 = front

theorem moved_append (contents staged : Place → Option Content) (done rest : List (Place × Place)) :
    moved contents staged (done ++ rest) = moved contents (moved contents staged done) rest :=
  List.foldl_append

theorem moved_cons (contents staged : Place → Option Content) (move : Place × Place)
    (others : List (Place × Place)) :
    moved contents staged (move :: others) = moved contents (Function.update
      (Function.update staged move.1 none) move.2 (contents move.1)) others := rfl

theorem moved_cases {contents staged : Place → Option Content} {moves : List (Place × Place)}
    {place : Place} (held : moved contents staged moves place ≠ none) :
    (∃ move ∈ moves, move.2 = place) ∨
      (staged place ≠ none ∧ ∀ move ∈ moves, move.1 ≠ place) := by
  induction moves generalizing staged with
  | nil => exact Or.inr ⟨held, fun _ member => nomatch member⟩
  | cons move others ih =>
      rw [moved_cons] at held
      rcases ih held with ⟨other, member, same⟩ | ⟨before, apart⟩
      · exact Or.inl ⟨other, List.mem_cons_of_mem _ member, same⟩
      · by_cases target : place = move.2
        · exact Or.inl ⟨move, List.mem_cons_self, target.symm⟩
        · rw [Function.update_of_ne target] at before
          by_cases key : place = move.1
          · rw [key, Function.update_self] at before
            exact absurd rfl before
          · rw [Function.update_of_ne key] at before
            exact Or.inr ⟨before, List.forall_mem_cons.2 ⟨Ne.symm key, apart⟩⟩

theorem moved_other {contents staged : Place → Option Content} {moves : List (Place × Place)}
    {place : Place} (apart : ∀ move ∈ moves, move.1 ≠ place ∧ move.2 ≠ place) :
    moved contents staged moves place = staged place := by
  induction moves generalizing staged with
  | nil => rfl
  | cons move others ih =>
      obtain ⟨⟨key, target⟩, later⟩ := List.forall_mem_cons.1 apart
      rw [moved_cons, ih later, Function.update_of_ne (Ne.symm target),
        Function.update_of_ne (Ne.symm key)]

theorem not_apart_self (place : Place) : ¬ Apart place place :=
  fun apart => apart.1 (List.prefix_refl _)

section Kept

variable {contents staged : Place → Option Content} {done rest : List (Place × Place)}
  {move : Place × Place}
  (targets : (done ++ move :: rest).Pairwise fun first later => Apart first.2 later.2)

include targets

theorem apart_of_later {later : Place × Place} (member : later ∈ rest) : later.2 ≠ move.2 := by
  intro same
  have apart := List.rel_of_pairwise_cons (List.pairwise_append.1 targets).2.1 member
  rw [same] at apart
  exact not_apart_self _ apart

theorem moved_of_kept (kept : ∀ later ∈ rest, later.1 ≠ move.2) :
    moved contents staged (done ++ move :: rest) move.2 = contents move.1 := by
  rw [moved_append, moved_cons]
  refine (moved_other fun later member => ⟨kept later member, ?_⟩).trans
    (Function.update_self _ _ _)
  exact apart_of_later targets member

theorem moved_of_lost (lost : ∃ later ∈ rest, later.1 = move.2) :
    moved contents staged (done ++ move :: rest) move.2 = none := by
  obtain ⟨later, member, same⟩ := lost
  by_contra held
  rw [moved_append, moved_cons] at held
  rcases moved_cases held with ⟨other, inside, target⟩ | ⟨-, unmoved⟩
  · exact apart_of_later targets inside target
  · exact unmoved later member same

end Kept

def move (replacements : Replacements) (pair : String × String) : Place × Place :=
  (Path.segmentsOf pair.1, Path.segmentsOf (replacements.apply pair.2))

section Step

variable {contents staged : Place → Option Content} {ways : Place → Prop}
  {done rest : List (Place × Place)} {move : Place × Place}
  (orderly : Orderly (done ++ move :: rest) staged ways)

include orderly

theorem Orderly.clear_of_done {other : Place × Place} (member : other ∈ done) :
    ¬ Below other.2 move.1 ∧ ¬ Below move.1 other.2 :=
  (List.pairwise_append.1 orderly.ordered).2.2 other member move List.mem_cons_self

theorem Orderly.apart_of_done {other : Place × Place} (member : other ∈ done) :
    Apart other.2 move.2 :=
  (List.pairwise_append.1 orderly.targets).2.2 other member move List.mem_cons_self

theorem Orderly.clear_key {front : Place} (below : Below move.1 front) :
    moved contents staged done front = none := by
  by_contra held
  rcases moved_cases held with ⟨other, member, rfl⟩ | ⟨there, -⟩
  · exact (orderly.clear_of_done member).2 below
  · exact there ((orderly.listed move (by simp)).2 front below)

theorem Orderly.vacant_key : ¬ (ways move.1 ∨ ∃ other ∈ done, Below other.2 move.1) := by
  rintro (way | ⟨other, member, below⟩)
  · exact (orderly.listed move (by simp)).1 way
  · exact (orderly.clear_of_done member).1 below

theorem Orderly.clear_target {front : Place} (below : Below move.2 front) :
    Function.update (moved contents staged done) move.1 none front = none := by
  by_cases key : front = move.1
  · rw [key, Function.update_self]
  · rw [Function.update_of_ne key]
    by_contra held
    rcases moved_cases held with ⟨other, member, rfl⟩ | ⟨there, unmoved⟩
    · exact (orderly.apart_of_done member).1 below.1
    · obtain ⟨other, member, same⟩ := orderly.above move (by simp) front below there
      rcases List.mem_append.1 member with before | after
      · exact unmoved other before same
      · rcases List.mem_cons.1 after with rfl | later
        · exact key same.symm
        · have ordered := (List.pairwise_append.1 orderly.ordered).2.1
          have clear := List.rel_of_pairwise_cons ordered later
          rw [same] at clear
          exact clear.1 below

theorem Orderly.vacant_target : ¬ (ways move.2 ∨ ∃ other ∈ done, Below other.2 move.2) := by
  rintro (way | ⟨other, member, below⟩)
  · exact orderly.vacant move (by simp) way
  · exact (orderly.apart_of_done member).2 below.1

end Step

section Rename

variable {copied source : Path} (copied_written : copied.IsWritten) (label : String)
  {replacements : Replacements} {contents staged : Place → Option Content} {ways : Place → Prop}

def waysAfter (ways : Place → Prop) (moves : List (Place × Place)) (front : Place) : Prop :=
  ways front ∨ ∃ other ∈ moves, Below other.2 front

include copied_written

theorem rename_cons_ok {world : World} (sound : world.disk.Sound)
    {done others : List (String × String)} {pair : String × String}
    (orderly : Orderly ((done ++ pair :: others).map (move replacements)) staged ways)
    (names : Names pair.1) (target_names : Names (replacements.apply pair.2)) {content : Content}
    (listed : contents (Path.segmentsOf pair.1) = some content)
    (found : world.disk.find? (source / pair.1) = some (.file content.1 content.2))
    (outside : ∀ place, world.disk.OnWay (source / pair.1) place →
      ¬ world.disk.placeOf copied <+: place)
    (accepts : world.disk.Accepts copied)
    (holds : world.disk.Holds (world.disk.placeOf copied)
      (moved contents staged (done.map (move replacements)))
      (waysAfter ways (done.map (move replacements)))) :
    ∃ reached, rename copied source label replacements (pair :: others) world =
        rename copied source label replacements others reached ∧
      Altered (.into world.disk copied) world.disk reached.disk ∧ reached.disk.Accepts copied ∧
        reached.disk.Holds (world.disk.placeOf copied)
          (moved contents staged ((done ++ [pair]).map (move replacements)))
          (waysAfter ways ((done ++ [pair]).map (move replacements))) := by
  obtain ⟨file, pattern⟩ := pair
  rw [List.map_append, List.map_cons] at orderly
  let noted : World := { world with
    journal := world.journal ++ [.noted (.moving file (replacements.apply pattern))] }
  have noted_sound : noted.disk.Sound := sound
  -- the copy of the file goes
  obtain ⟨removed, removes, less, less_accepts, less_holds⟩ := remove_from noted_sound accepts
    holds names (fun front below => orderly.clear_key below) orderly.vacant_key
  have less_place := less.placeOf copied
  -- the file itself comes to its new path
  let emptied : World := { noted with disk := removed }
  have emptied_sound : emptied.disk.Sound := less.sound
  have kept : emptied.disk.find? (source / file) = some (.file content.1 content.2) :=
    less.find?_eq sound (fun place way => ⟨outside place way, id⟩) found
  obtain ⟨reached, copies, filled⟩ := copyFile_into emptied_sound less_accepts
    (by rw [less_place]; exact less_holds) target_names
    (fun front below => orderly.clear_target below) orderly.vacant_target copied_written kept
    (fun place way => by
      rw [less_place]
      exact outside place ((onWay_congr less.current).1 way))
  have step : rename copied source label replacements ((file, pattern) :: others) world =
      rename copied source label replacements others reached := by
    have there : world.disk.isFile (source / file) = true := isFile_iff.2 ⟨_, _, found⟩
    have notes : note (.moving file (replacements.apply pattern)) world = .ok () noted := rfl
    rw [rename, disk_bind, there]
    simp only [Bool.not_true, Bool.false_eq_true, ↓reduceIte]
    rw [bind_ok notes, bind_ok removes, bind_ok copies]
  have same : Function.update (Function.update
      (moved contents staged (done.map (move replacements))) (Path.segmentsOf file) none)
      (Path.segmentsOf (replacements.apply pattern)) (some content) =
      moved contents staged ((done ++ [(file, pattern)]).map (move replacements)) := by
    rw [List.map_append, moved_append, ← listed]
    rfl
  refine ⟨reached, step, less.trans (Allowance.into_congr less.current copied ▸ filled.altered),
    filled.accepts, ?_⟩
  rw [← same]
  have held := filled.holds
  rw [less_place] at held
  refine held.mono ?_
  rintro front ((way | ⟨other, member, below⟩) | below)
  · exact Or.inl way
  · refine Or.inr ⟨other, ?_, below⟩
    rw [List.map_append]
    exact List.mem_append_left _ member
  · exact Or.inr ⟨move replacements (file, pattern), by simp, below⟩

theorem rename_ok {world : World} (sound : world.disk.Sound) {done rest : List (String × String)}
    (orderly : Orderly ((done ++ rest).map (move replacements)) staged ways)
    (named : ∀ pair ∈ rest, Names pair.1 ∧ Names (replacements.apply pair.2))
    (files : ∀ pair ∈ rest, ∃ content, contents (Path.segmentsOf pair.1) = some content ∧
      world.disk.find? (source / pair.1) = some (.file content.1 content.2))
    (outside : ∀ pair ∈ rest, ∀ place, world.disk.OnWay (source / pair.1) place →
      ¬ world.disk.placeOf copied <+: place)
    (accepts : world.disk.Accepts copied)
    (holds : world.disk.Holds (world.disk.placeOf copied)
      (moved contents staged (done.map (move replacements)))
      (waysAfter ways (done.map (move replacements)))) :
    ∃ reached, rename copied source label replacements rest world = .ok () reached ∧
      Altered (.into world.disk copied) world.disk reached.disk ∧
        reached.disk.Holds (world.disk.placeOf copied)
          (moved contents staged ((done ++ rest).map (move replacements)))
          (waysAfter ways ((done ++ rest).map (move replacements))) := by
  -- the moves that are done grow, and the directory holds what they have made of the copies
  induction rest generalizing world done with
  | nil =>
      rw [List.append_nil]
      exact ⟨world, rfl, Altered.refl sound, holds⟩
  | cons pair others ih =>
      obtain ⟨⟨names, target_names⟩, others_named⟩ := List.forall_mem_cons.1 named
      obtain ⟨⟨content, listed, found⟩, others_files⟩ := List.forall_mem_cons.1 files
      obtain ⟨pair_outside, others_outside⟩ := List.forall_mem_cons.1 outside
      obtain ⟨reached, step, altered, still, held⟩ := rename_cons_ok copied_written label sound
        orderly names target_names listed found pair_outside accepts holds
      have place := altered.placeOf copied
      have whole : done ++ pair :: others = (done ++ [pair]) ++ others := by simp
      rw [whole] at orderly ⊢
      rw [← place] at held
      have reached_files : ∀ other ∈ others, ∃ content,
          contents (Path.segmentsOf other.1) = some content ∧
            reached.disk.find? (source / other.1) = some (.file content.1 content.2) := by
        intro other member
        obtain ⟨content, listed, found⟩ := others_files other member
        exact ⟨content, listed,
          altered.find?_eq sound (fun place way => ⟨others_outside other member place way, id⟩) found⟩
      have reached_outside : ∀ other ∈ others, ∀ place, reached.disk.OnWay (source / other.1) place →
          ¬ reached.disk.placeOf copied <+: place := by
        intro other member spot way
        rw [place]
        exact others_outside other member spot ((onWay_congr altered.current).1 way)
      obtain ⟨last, ends, last_altered, last_holds⟩ := ih altered.sound orderly others_named
        reached_files reached_outside still held
      rw [place] at last_holds
      rw [Allowance.into_congr altered.current] at last_altered
      exact ⟨last, step.trans ends, altered.trans last_altered, last_holds⟩

end Rename

def staged (entry : Entry) (copier : Copier) (disk : Disk) (source : Path) :
    Place → Option Content :=
  if entry.only then fun _ => none else copier.takes disk source

def moves (entry : Entry) (replacements : Replacements) : List (Place × Place) :=
  entry.files.entries.map (move replacements)

def filesOf (disk : Disk) (source : Path) (front : Place) : Option Content :=
  disk.contentAt (disk.placeOf source ++ front)

def ways (entry : Entry) (copier : Copier) (disk : Disk) (source : Path) (front : Place) : Prop :=
  ∃ file, entry.staged copier disk source file ≠ none ∧ Below file front

section Stage

variable {entry : Entry} {copier : Copier} {world : World} (sound : world.disk.Sound)
  {source copied : Path} (copied_written : copied.IsWritten) {replacements : Replacements}
  (stands : Stands world.disk copied source (listing world.disk source))
  (accepts : world.disk.Accepts copied)
  (holds : world.disk.Holds (world.disk.placeOf copied) (fun _ => none) fun _ => False)

include sound copied_written stands accepts holds

variable (entry copier) in
theorem copies_ok (next : Action Unit) :
    ∃ reached, (if !entry.only then do
        let _ ← copier.copyTree copied [source] none
        next
      else next) world = next reached ∧
        Altered (.into world.disk copied) world.disk reached.disk ∧ reached.disk.Accepts copied ∧
          reached.disk.Holds (world.disk.placeOf copied) (entry.staged copier world.disk source)
            (entry.ways copier world.disk source) := by
  cases only : entry.only with
  | true =>
      refine ⟨world, rfl, Altered.refl sound, accepts, ?_⟩
      simp only [staged, only, ↓reduceIte]
      exact holds.mono fun _ nowhere => nowhere.elim
  | false =>
      obtain ⟨written, reached, ends, altered, still, held⟩ :=
        copyTree_none_ok copier sound copied_written stands accepts holds
      refine ⟨reached, bind_ok ends _, altered, still, ?_⟩
      have all : entry.staged copier world.disk source = copier.takes world.disk source := by
        simp [staged, only]
      unfold ways
      rw [all]
      exact held

theorem stage_ok
    (orderly : Orderly (entry.moves replacements) (entry.staged copier world.disk source)
      (entry.ways copier world.disk source))
    (named : ∀ pair ∈ entry.files.entries, Names pair.1 ∧ Names (replacements.apply pair.2))
    (files : ∀ pair ∈ entry.files.entries, world.disk.isFile (source / pair.1) = true) :
    ∃ reached, entry.stage copier source copied replacements world = .ok () reached ∧
      Altered (.into world.disk copied) world.disk reached.disk ∧
        reached.disk.Holds (world.disk.placeOf copied)
          (moved (filesOf world.disk source) (entry.staged copier world.disk source)
            (entry.moves replacements))
          (waysAfter (entry.ways copier world.disk source) (entry.moves replacements)) := by
  have found : ∀ pair ∈ entry.files.entries, ∃ content : Content,
      world.disk.find? (source / pair.1) = some (.file content.1 content.2) ∧
        filesOf world.disk source (Path.segmentsOf pair.1) = some content := by
    intro pair member
    obtain ⟨content, executable, found⟩ := isFile_iff.1 (files pair member)
    refine ⟨(content, executable), found, contentAt_eq_some_iff.2 ?_⟩
    rw [← placeOf_div _ _ (named pair member).1.inner]
    exact (sound.find?_cases found).1
  -- no listed file lies in the directory of the copies, which holds nothing
  have outside : ∀ pair ∈ entry.files.entries, ∀ place, world.disk.OnWay (source / pair.1) place →
      ¬ world.disk.placeOf copied <+: place := by
    intro pair member place way within
    obtain ⟨content, -, held⟩ := found pair member
    rcases (onWay_div_iff (named pair member).1.inner).1 way with way | ⟨front, starts, rfl⟩
    · exact stands.apart place way within
    · obtain ⟨rest, whole⟩ := within.trans ((List.prefix_append_right_inj _).2 starts)
      rw [filesOf, ← whole, holds.file] at held
      cases held
  obtain ⟨ready, copies, altered, still, held⟩ := copies_ok entry copier sound copied_written stands
    accepts holds
    (rename copied source entry.label replacements entry.files.entries)
  have place := altered.placeOf copied
  have kept : ∀ pair ∈ entry.files.entries, ∃ content : Content,
      filesOf world.disk source (Path.segmentsOf pair.1) = some content ∧
        ready.disk.find? (source / pair.1) = some (.file content.1 content.2) := by
    intro pair member
    obtain ⟨content, found, listed⟩ := found pair member
    exact ⟨content, listed,
      altered.find?_eq sound (fun place way => ⟨outside pair member place way, id⟩) found⟩
  -- at first nothing has been moved
  have none_moved : ready.disk.Holds (ready.disk.placeOf copied)
      (moved (filesOf world.disk source) (entry.staged copier world.disk source)
        (([] : List (String × String)).map (move replacements)))
      (waysAfter (entry.ways copier world.disk source)
        (([] : List (String × String)).map (move replacements))) := by
    rw [place]
    exact held.mono fun _ => Or.inl
  have all_orderly : Orderly ((([] : List (String × String)) ++ entry.files.entries).map
      (move replacements)) (entry.staged copier world.disk source)
      (entry.ways copier world.disk source) := orderly
  obtain ⟨reached, ends, moving, last⟩ := rename_ok copied_written entry.label altered.sound
    all_orderly named kept (fun pair member other way => by
      rw [place]
      exact outside pair member other ((onWay_congr altered.current).1 way)) still none_moved
  rw [place] at last
  rw [Allowance.into_congr altered.current] at moving
  refine ⟨reached, ?_, altered.trans moving, last⟩
  unfold stage
  exact copies.trans ends

end Stage

end Archetype.Template.Entry
