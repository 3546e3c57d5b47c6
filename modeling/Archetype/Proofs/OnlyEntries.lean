import Archetype.Proofs.StagedFiles

namespace Archetype.Template.Entry

open Archetype.Action Archetype.Disk Archetype.Copier

def newPlace (entry : Entry) (replacements : Replacements) (pair : String × String) : Place :=
  Path.segmentsOf (entry.relativeTarget replacements) ++ Path.segmentsOf (replacements.apply pair.2)

structure Parallel (entry : Entry) (replacements : Replacements) : Prop where
  more : ∀ pair ∈ entry.files.entries, Path.segmentsOf (replacements.apply pair.2) ≠ []
  free : ∀ pair ∈ entry.files.entries, ∀ other ∈ entry.files.entries,
    ¬ Below (Path.segmentsOf (replacements.apply pair.2))
      (Path.segmentsOf (replacements.apply other.2))

theorem staged_of_only {entry : Entry} (only : entry.only = true) (copier : Copier) (disk : Disk)
    (source : Path) (place : Place) : entry.staged copier disk source place = none := by
  simp [staged, only]

section Listed

variable {entry : Entry} {copier : Copier} {origin disk : Disk} {source : Path} {base : Place}
  {replacements : Replacements} (only : entry.only = true) (parallel : entry.Parallel replacements)
  (tracks : entry.Tracks copier origin source base
    (Path.segmentsOf (entry.relativeTarget replacements)) replacements disk)

include only parallel tracks

theorem Tracks.not_directory {pair : String × String} (member : pair ∈ entry.files.entries) :
    disk.node? (base ++ entry.newPlace replacements pair) ≠ some .directory := by
  intro directory
  rcases tracks.way _ directory with above | ⟨relative, below, staged | ⟨other, inside, rfl⟩⟩
  · have short := above.length_le
    have long := List.length_pos_iff.2 (parallel.more pair member)
    rw [newPlace, List.length_append] at short
    omega
  · exact staged (staged_of_only only copier origin source relative)
  · exact parallel.free other inside pair member ⟨(List.prefix_append_right_inj _).1 below.1,
      fun same => below.2 (congrArg (Path.segmentsOf (entry.relativeTarget replacements) ++ ·) same)⟩

theorem Tracks.listed {rest : Place} {content : Content}
    (held : disk.contentAt (base ++ rest) = some content) :
    ∃ pair ∈ entry.files.entries, rest = entry.newPlace replacements pair ∧
      Stems origin source base pair.1 content := by
  obtain ⟨relative, rfl, staged | ⟨pair, member, fresh, stems⟩⟩ := tracks.file rest content held
  · rw [staged_of_only only] at staged
    cases staged
  · rcases List.mem_cons.1 fresh with rfl | inside
    · exact ⟨pair, member, rfl, stems⟩
    · -- a file in a directory at the new path
      obtain rfl := List.mem_singleton.1 inside
      refine absurd ?_ (tracks.not_directory only parallel member)
      have file := contentAt_eq_some_iff.1 held
      rw [← List.append_assoc, ← List.append_assoc, List.append_assoc base] at file
      exact tracks.agree.right_sound.directory_of_append (List.cons_ne_nil _ _)
        (by rw [newPlace, file]; exact nofun)

theorem Tracks.prefix_newPlace (renames : entry.files.isEmpty = false) {rest : Place}
    (held : disk.node? (base ++ rest) ≠ none) :
    ∃ pair ∈ entry.files.entries, rest <+: entry.newPlace replacements pair := by
  cases content : disk.contentAt (base ++ rest) with
  | some content =>
      obtain ⟨pair, member, rfl, -⟩ := tracks.listed only parallel content
      exact ⟨pair, member, List.prefix_refl _⟩
  | none =>
      have directory := (tracks.agree.right_sound.directory_or_absent content).resolve_right held
      rcases tracks.way rest directory with above | ⟨relative, below, staged | ⟨pair, member, rfl⟩⟩
      · obtain ⟨pair, member⟩ := List.exists_mem_of_ne_nil _
          (show entry.files.entries ≠ [] by simpa [Table.isEmpty] using renames)
        exact ⟨pair, member, above.trans (List.prefix_append _ _)⟩
      · exact absurd (staged_of_only only copier origin source relative) staged
      · exact ⟨pair, member, below.1⟩

end Listed

section Only

variable {world reached : World} (sound : world.disk.Sound) {template target : Path}
  (template_written : template.IsWritten) (target_written : target.IsWritten) {entry : Entry}
  {copier : Copier} {replacements : Replacements}
  (spelled : ∀ pair ∈ replacements.entries, ∃ name, pair.1 = Placeholder.spell name)
  (only : entry.only = true) (stays : entry.StaysBelow replacements)
  (parallel : entry.Parallel replacements)
  (unopened : entry.raw = false → ∀ pair ∈ entry.files.entries,
    ¬ entry.opened.toList <:+: ("/".intercalate (entry.newPlace replacements pair)).toList)
  (vacant : ∀ pair ∈ entry.files.entries,
    world.disk.isDirectory (inside target (entry.relativeTarget replacements) /
      replacements.apply pair.2) = false)
  (missing : world.disk.MissingAbove target) {written : List Path}
  (ends : entry.copy copier template target replacements world = .ok written reached)

include sound template_written target_written spelled only stays parallel unopened vacant missing ends

/-- An entry that copies listed files only writes these, each to its new path, and at most makes
directories for them besides. A file holds what a listed file holds that has this new path, with
replacements if it is text and the entry is not raw. -/
theorem copy_only (apart : Apart (world.disk.placeOf target) world.disk.temporary) :
    (∀ path ∈ written, ∃ pair ∈ entry.files.entries,
      path = inside target (entry.relativeTarget replacements) / replacements.apply pair.2 ∧
      ∃ content, Stems world.disk (template / entry.source) (stagingPlace world.disk) pair.1 content ∧
        let arrived := copier.delivered (effective (entry.contentReplacements replacements)) path content
        reached.disk.find? path = some (.file arrived.1 arrived.2)) ∧
    (∀ place, (∀ path ∈ written, world.disk.placeOf path ≠ place) →
      reached.disk.node? place = world.disk.node? place ∨
        world.disk.node? place = none ∧ reached.disk.node? place = some .directory ∧
          ∃ path ∈ written, world.disk.OnWay path.parent place) ∧
    (entry.files.isEmpty = true → written = [] ∧ reached.disk = world.disk) := by
  cases plain : entry.files.isEmpty with
  | true =>
      obtain ⟨rfl, same⟩ := copy_nothing ends plain only
      exact ⟨nofun, fun place _ => Or.inl (by rw [same]), fun _ => ⟨rfl, same⟩⟩
  | false =>
      -- every staged file has been moved to its new path, which the second copy keeps
      obtain ⟨staged, between, tracks, copies, unstaged⟩ :=
        copy_tracks sound template_written stays plain ends
      have directory := isDirectory_of_copyTree copies
      have base := staged.disk.placeOf_fromRoot fun name (member : name ∈ stagingPlace world.disk) =>
        isName_of_mem_stagingPlace sound member
      have destination : ∀ pair ∈ entry.files.entries,
          target.join ⟨.current, entry.newPlace replacements pair⟩ =
            inside target (entry.relativeTarget replacements) / replacements.apply pair.2 := by
        intro pair member
        rw [inside_eq, Path.div_div_eq_join target stays.target (stays.renamed pair member)]
        rfl
      have kept : ∀ rest ∈ listing staged.disk (.fromRoot (stagingPlace world.disk)),
          relativeText (effective (entry.contentReplacements replacements)) rest =
            "/".intercalate rest := by
        intro rest listed
        have held := ((mem_listing_iff tracks.agree.right_sound directory).1 listed).2
        rw [base] at held
        obtain ⟨pair, member, starts⟩ := tracks.prefix_newPlace only parallel plain held
        refine arrival_of_unopened spelled fun rendered inside => unopened rendered pair member ?_
        exact inside.trans (Path.intercalate_prefix starts).isInfix
      have free : ∀ rest content,
          staged.disk.contentAt (stagingPlace world.disk ++ rest) = some content →
            world.disk.isDirectory (target.join ⟨.current, rest⟩) = false := by
        intro rest content held
        obtain ⟨pair, member, rfl, -⟩ := tracks.listed only parallel held
        rw [destination pair member]
        exact vacant pair member
      obtain ⟨arrive, others⟩ :=
        copyTree_arrives sound apart missing target_written tracks.agree kept free copies
      rw [← unstaged] at arrive others
      refine ⟨fun path member => ?_, others, nofun⟩
      obtain ⟨rest, content, held, rfl, found⟩ := arrive path member
      obtain ⟨pair, listed, rfl, stems⟩ := tracks.listed only parallel held
      exact ⟨pair, listed, destination pair listed, content, stems, found⟩

end Only

open Archetype.Template.Descriptor (sampleReplacements)

theorem copy_only_marked :
    let entry : Entry := {
      source := "src", target? := some "\x7b\x7bname\x7d\x7d", only := true
      files := Table.ofList [("\x7b\x7bname\x7d\x7d.txt", "\x7b\x7bname\x7d\x7d.md")] }
    ∃ reached,
      entry.copy .standard (.ofText "/tmp/w/t") (.ofText "/tmp/w/q") sampleReplacements markedWorld =
        .ok [.ofText "/tmp/w/q/x/x.md"] reached ∧
      reached.disk.find? (.ofText "/tmp/w/q/x/x.md") = some (.file "I am x".toUTF8 true) ∧
      ∀ place, place ≠ ["tmp", "w", "q", "x", "x.md"] →
        reached.disk.contentAt place = markedWorld.disk.contentAt place := by
  intro entry
  obtain ⟨_, reached, ends, rfl⟩ : Yields
      (entry.copy .standard (.ofText "/tmp/w/t") (.ofText "/tmp/w/q") sampleReplacements) markedWorld
      (· = [.ofText "/tmp/w/q/x/x.md"]) := by
    decide +kernel
  have pairs : entry.files.entries =
      [("\x7b\x7bname\x7d\x7d.txt", "\x7b\x7bname\x7d\x7d.md")] := by
    decide +kernel
  obtain ⟨files, others, -⟩ := copy_only sound_markedWorld (Path.isWritten_ofText _)
    (Path.isWritten_ofText _) spelled_sampleReplacements rfl (by decide +kernel)
    ⟨by decide +kernel, by decide +kernel⟩ (by decide +kernel) (by decide +kernel)
    (missingAbove_of_inner _ (Path.isWritten_ofText _) (by decide +kernel)) ends (by decide +kernel)
  refine ⟨reached, ends, ?_, fun place elsewhere => ?_⟩
  · obtain ⟨pair, member, -, content, stems, found⟩ := files _ List.mem_cons_self
    rw [pairs, List.mem_singleton] at member
    subst member
    have held := stems.own.resolve_left (by decide +kernel)
    obtain rfl : ("I am \x7b\x7bname\x7d\x7d".toUTF8, true) = content :=
      Option.some.inj ((by decide +kernel : markedWorld.disk.contentAt _ = _).symm.trans held)
    exact found.trans (by decide +kernel)
  · have led : markedWorld.disk.placeOf (.ofText "/tmp/w/q/x/x.md") =
        ["tmp", "w", "q", "x", "x.md"] := by decide +kernel
    rcases others place (List.forall_mem_singleton.2 (led ▸ elsewhere.symm)) with
      same | ⟨absent, made, -⟩
    · exact contentAt_congr same
    · rw [contentAt_eq_none (Or.inl absent), contentAt_eq_none (Or.inr made)]

/-- A target that leads back through a missing directory: this is made on the way to it, and the listed
file comes to lie in it, at a path that is in no list. -/
theorem copy_only_backwards :
    let entry : Entry := { source := "src", files := Table.ofList [("x", "x")], raw := true, only := true }
    let target := Path.ofText "/tmp/w/q/x/.."
    markedWorld.disk.Sound ∧ entry.StaysBelow sampleReplacements ∧
    entry.Parallel sampleReplacements ∧
    markedWorld.disk.isDirectory (target / "x") = false ∧
    Apart (markedWorld.disk.placeOf target) (markedWorld.disk.placeOf (.ofText "/tmp/w/t")) ∧
    Apart (markedWorld.disk.placeOf target) markedWorld.disk.temporary ∧
    ∃ reached,
      entry.copy .standard (.ofText "/tmp/w/t") target sampleReplacements markedWorld =
        .ok [target / "x"] reached ∧
      reached.disk.isFile (target / "x") = false ∧
      reached.disk.node? ["tmp", "w", "q", "x", "x"] = some (.file "A".toUTF8 false) := by
  intro entry target
  refine ⟨sound_markedWorld, by decide +kernel, ⟨by decide +kernel, by decide +kernel⟩,
    by decide +kernel, by decide +kernel, by decide +kernel, ?_⟩
  obtain ⟨_, reached, ends, rfl⟩ : Yields
      (entry.copy .standard (.ofText "/tmp/w/t") target sampleReplacements) markedWorld
      (· = [target / "x"]) := by
    decide +kernel
  obtain ⟨_, _, same, inside⟩ := ok_of_check
    (entry.copy .standard (.ofText "/tmp/w/t") target sampleReplacements) markedWorld
    (fun disk => decide (disk.isFile (target / "x") = false ∧
      disk.node? ["tmp", "w", "q", "x", "x"] = some (.file "A".toUTF8 false))) (by decide +kernel)
  rw [ends] at same
  cases same
  exact ⟨reached, ends, of_decide_eq_true inside⟩

end Archetype.Template.Entry
