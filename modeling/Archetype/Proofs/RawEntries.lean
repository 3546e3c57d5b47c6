import Archetype.Proofs.StagedFiles

namespace Archetype.Template.Entry

open Archetype.Action Archetype.Disk Archetype.Copier

theorem contentReplacements_of_raw {entry : Entry} (raw : entry.raw = true)
    (replacements : Replacements) : entry.contentReplacements replacements = none := by
  simp [contentReplacements, raw]

section Raw

variable {world reached : World} (sound : world.disk.Sound) {template target : Path}
  (template_written : template.IsWritten) (target_written : target.IsWritten) {entry : Entry}
  {copier : Copier} {replacements : Replacements} (raw : entry.raw = true)
  (stays : entry.StaysBelow replacements)
  (absent : world.disk.node? (world.disk.placeOf target) = none)
  (missing : world.disk.MissingAbove target) {written : List Path}
  (ends : entry.copy copier template target replacements world = .ok written reached)

include sound template_written target_written raw stays absent missing ends

theorem carried_of_raw (plain : entry.files.isEmpty = true) (all : entry.only = false) :
    Carried copier world.disk (template / entry.source)
      (target / entry.relativeTarget replacements) none written reached.disk := by
  have directory := isDirectory_of_copy entry ends
  obtain ⟨noted, same, copies, -⟩ := copy_direct ends plain all
  rw [contentReplacements_of_raw raw] at copies
  rw [← same] at sound absent missing directory ⊢
  have start := node?_div_of_absent sound absent stays.target
  exact copyTree_carries sound (Path.isWritten_div template_written _)
    (Path.isWritten_div target_written _) (fun _ _ => rfl) (fun relative listed within =>
      ((mem_listing_iff sound directory).1 listed).2 (sound.none_of_prefix start within))
    (missing.div stays.target) (fun relative _ _ => isDirectory_join_of_absent sound start relative)
    copies

/-- Every path that a raw entry answers with leads to a file that holds what a file of its directory
holds. Without renaming, the files below the target are those of the directory that are not ignored. -/
theorem copy_raw (apart : Apart (world.disk.placeOf target) world.disk.temporary) :
    let source := template / entry.source
    (∀ path ∈ written, ∃ place content,
      world.disk.contentAt (world.disk.placeOf source ++ place) = some content ∧
        reached.disk.find? path = some (.file content.1 content.2)) ∧
    (entry.files.isEmpty = true → entry.only = false → ∀ place content,
      reached.disk.contentAt (world.disk.placeOf
          (inside target (entry.relativeTarget replacements)) ++ place) = some content ↔
        copier.isIgnored place = false ∧ hasNull place = false ∧
          world.disk.contentAt (world.disk.placeOf source ++ place) = some content) := by
  intro source
  have directory := isDirectory_of_copy entry ends
  refine ⟨fun path member => ?_, fun plain all place content => ?_⟩
  · cases plain : entry.files.isEmpty with
    | true =>
        cases only : entry.only with
        | true =>
            rw [(copy_nothing ends plain only).1] at member
            cases member
        | false =>
            have carried := carried_of_raw sound template_written target_written raw stays absent
              missing ends plain only
            obtain ⟨relative, content, takes, rfl⟩ := carried.path path member
            obtain ⟨-, file⟩ := file_of_takes sound directory takes
            exact ⟨relative, content, contentAt_eq_some_iff.2 file,
              carried.file relative content takes⟩
    | false =>
        obtain ⟨staged, between, tracks, copies, unstaged⟩ :=
          copy_tracks sound template_written stays plain ends
        rw [contentReplacements_of_raw raw] at copies
        obtain ⟨arrive, -⟩ := copyTree_arrives sound apart missing target_written tracks.agree
          (fun _ _ => rfl) (fun rest _ _ => isDirectory_join_of_absent sound absent rest) copies
        obtain ⟨rest, content, held, rfl, found⟩ := arrive path member
        obtain ⟨place, original⟩ := tracks.exists_origin held
        exact ⟨place, content, original, unstaged ▸ found⟩
  · have carried := carried_of_raw sound template_written target_written raw stays absent missing ends
      plain all
    rw [inside_eq, carried.contentAt_eq sound directory
      (node?_div_of_absent sound absent stays.target), contentAt_eq_some_iff, ← takes_eq_some_iff]
    exact Eq.congr_left Option.map_id'

end Raw

open Archetype.Template.Descriptor (sampleReplacements)

theorem copy_raw_marked :
    let entry : Entry := { source := "src", target? := some "\x7b\x7bname\x7d\x7d", raw := true }
    ∃ written reached,
      entry.copy .standard (.ofText "/tmp/w/t") (.ofText "/tmp/w/q") sampleReplacements markedWorld =
        .ok written reached ∧
      (∀ path ∈ written, ∃ place content,
        markedWorld.disk.contentAt
            (markedWorld.disk.placeOf (Path.ofText "/tmp/w/t" / "src") ++ place) = some content ∧
          reached.disk.find? path = some (.file content.1 content.2)) ∧
      reached.disk.contentAt ["tmp", "w", "q", "x", "\x7b\x7bname\x7d\x7d.txt"] =
        some ("I am \x7b\x7bname\x7d\x7d".toUTF8, true) := by
  intro entry
  obtain ⟨written, reached, ends, -⟩ : Yields
      (entry.copy .standard (.ofText "/tmp/w/t") (.ofText "/tmp/w/q") sampleReplacements) markedWorld
      (·.length = 2) := by
    decide +kernel
  obtain ⟨files, places⟩ := copy_raw sound_markedWorld (Path.isWritten_ofText _)
    (Path.isWritten_ofText _) rfl (by decide +kernel) (by decide +kernel)
    (missingAbove_of_inner _ (Path.isWritten_ofText _) (by decide +kernel)) ends (by decide +kernel)
  have led : markedWorld.disk.placeOf (inside (.ofText "/tmp/w/q")
      (entry.relativeTarget sampleReplacements)) = ["tmp", "w", "q", "x"] := by decide +kernel
  rw [led] at places
  exact ⟨written, reached, ends, files, (places rfl rfl ["\x7b\x7bname\x7d\x7d.txt"] _).2
    (by decide +kernel)⟩

/-- A target that leads back through a missing directory is not there, and the directory is made on the
way to it. The file of that name then lies in the directory, and a run answers with the directory. -/
theorem copy_raw_backwards :
    let entry : Entry := { source := "src", raw := true }
    let target := Path.ofText "/tmp/w/q/x/.."
    markedWorld.disk.Sound ∧ entry.StaysBelow sampleReplacements ∧ Path.Inner entry.source ∧
    markedWorld.disk.node? (markedWorld.disk.placeOf target) = none ∧
    Apart (markedWorld.disk.placeOf target) (markedWorld.disk.placeOf (.ofText "/tmp/w/t")) ∧
    Apart (markedWorld.disk.placeOf target) markedWorld.disk.temporary ∧
    ∃ written reached,
      entry.copy .standard (.ofText "/tmp/w/t") target sampleReplacements markedWorld =
        .ok written reached ∧
      target / "x" ∈ written ∧ reached.disk.isFile (target / "x") = false := by
  intro entry target
  refine ⟨sound_markedWorld, by decide +kernel, by decide +kernel, by decide +kernel,
    by decide +kernel, by decide +kernel, ?_⟩
  obtain ⟨written, reached, ends, member⟩ : Yields
      (entry.copy .standard (.ofText "/tmp/w/t") target sampleReplacements) markedWorld
      (target / "x" ∈ ·) := by
    decide +kernel
  obtain ⟨_, _, same, occupied⟩ := ok_of_check
    (entry.copy .standard (.ofText "/tmp/w/t") target sampleReplacements) markedWorld
    (fun disk => !disk.isFile (target / "x")) (by decide +kernel)
  rw [ends] at same
  cases same
  exact ⟨written, reached, ends, member, by simpa using occupied⟩

end Archetype.Template.Entry
