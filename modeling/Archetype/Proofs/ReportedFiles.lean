import Archetype.Proofs.Placements
import Archetype.Proofs.Runs

namespace Archetype.Disk

namespace Lays

variable {laid : List (Write × Place)} {before after : Disk} (lays : Lays laid before after)

include lays

theorem led (path : Path) : after.placeOf path = before.placeOf path :=
  placeOf_congr lays.current path

variable {item : Write × Place} (member : item ∈ laid)

include member

theorem way {place : Place} (onWay : before.OnWay item.1.path.parent place) :
    after.node? place = some .directory :=
  (lays.directory_iff place).2 (Or.inr ⟨item, member, onWay⟩)

theorem held : after.contentAt item.2 ≠ none := by
  rw [lays.contentAt_eq]
  exact overlay_ne_none (Or.inl ⟨_, List.mem_map_of_mem member, rfl⟩)

variable (sound : before.Sound)

include sound

theorem find?_path {node : Node} (there : after.node? (before.placeOf item.1.path) = some node) :
    after.find? item.1.path = some node := by
  obtain ⟨_, _, -, receives⟩ := lays.receives sound member
  refine (lays.sound sound).find?_eq_some_iff.2 ⟨receives.noNull, ?_, ?_, ?_⟩
  · rw [start_congr lays.current]
    exact lays.way member ⟨[], List.nil_prefix, rfl⟩
  · rw [start_congr lays.current]
    exact passes_of_directories fun front starts apart =>
      lays.way member ⟨front, segments_eq_of_parent starts apart, rfl⟩
  · rwa [lays.led]

theorem isFile_or_inside : after.isFile item.1.path = true ∧ item.2 = before.placeOf item.1.path ∨
    ∃ name, item.1.name? = some name ∧ item.2 = before.placeOf item.1.path ++ [name] ∧
      after.isDirectory item.1.path = true ∧
      after.isFile (item.1.path.join ⟨.current, [name]⟩) = true := by
  obtain ⟨content, held⟩ := Option.ne_none_iff_exists'.1 (lays.held member)
  have file := contentAt_eq_some_iff.1 held
  obtain ⟨_, middle, front, receives⟩ := lays.receives sound member
  obtain ⟨write, landing⟩ := item
  dsimp only at receives file ⊢
  cases receives.lands with
  | here _ =>
      rw [front.led] at file ⊢
      exact Or.inl ⟨isFile_iff.2 ⟨_, _, lays.find?_path member sound file⟩, rfl⟩
  | @inside name named _ _ =>
      rw [front.led] at file ⊢
      obtain ⟨isName, noNull⟩ := receives.proper.named name named
      have there : after.node? (before.placeOf write.path) = some .directory :=
        (lays.sound sound).directory_of_append (List.cons_ne_nil name []) (by simp [file])
      have directory : after.isDirectory write.path = true := by
        rw [isDirectory, lays.find?_path member sound there]
        rfl
      refine Or.inr ⟨name, named, rfl, directory, isFile_iff.2 ⟨content.1, content.2, ?_⟩⟩
      refine ((lays.sound sound).find?_join_iff directory (by simpa using isName)).2 ⟨noNull, ?_⟩
      rwa [lays.led]

end Lays

end Archetype.Disk

namespace Archetype.Template.Descriptor

open Archetype.Action Archetype.Disk Archetype.Copier

section Reports

variable {world reached : World} (sound : world.disk.Sound) {template target : Path}
  (template_written : template.IsWritten) (target_written : target.IsWritten)
  (descriptor : Descriptor) (copier : Copier) (replacements : Replacements)
  (separate : world.disk.Separate template target)
  (inners : ∀ entry ∈ descriptor.entries world.disk template, entry.Inner replacements)
  (inner : ∀ delivery ∈ descriptor.deliveries copier template target replacements world,
    Path.Inner delivery.relative)

include sound template_written target_written separate inners inner

/-- A file lies at every path that a run answers with, unless a directory was there when the file was
due. Then it is a file that is copied as it is, and it lies in the directory under its own name. -/
theorem copyFiles_reports {written : List Path}
    (ends : descriptor.copyFiles copier template target replacements world = .ok written reached) :
    ((∀ delivery ∈ descriptor.deliveries copier template target replacements world,
        delivery.disk.isDirectory delivery.path = false) →
      ∀ path ∈ written, reached.disk.isFile path = true) ∧
    ∃ runs, Entry.Runs copier template target replacements (descriptor.entries world.disk template)
        runs world.disk reached.disk ∧
      (written = runs.flatten.map fun item => item.1.path) ∧
      ∀ item ∈ runs.flatten, reached.disk.isFile item.1.path = true ∨
        ∃ name, item.1.name? = some name ∧ reached.disk.isDirectory item.1.path = true ∧
          reached.disk.isFile (item.1.path.join ⟨.current, [name]⟩) = true ∧
          ∃ delivery ∈ descriptor.deliveries copier template target replacements world,
            delivery.path = item.1.path ∧ delivery.disk.isDirectory delivery.path = true := by
  obtain ⟨runs, ran, rfl, lands⟩ := Entry.copyAll_eq_ok template_written target_written inners sound
    separate inner ends
  have lays := ran.lays
  have placed : ∀ item ∈ runs.flatten, reached.disk.isFile item.1.path = true ∨
      ∃ name, item.1.name? = some name ∧ reached.disk.isDirectory item.1.path = true ∧
        reached.disk.isFile (item.1.path.join ⟨.current, [name]⟩) = true ∧
        ∃ delivery ∈ descriptor.deliveries copier template target replacements world,
          delivery.path = item.1.path ∧ delivery.disk.isDirectory delivery.path = true := by
    intro item member
    refine (lays.isFile_or_inside member sound).imp And.left ?_
    rintro ⟨name, named, landed, directory, file⟩
    obtain ⟨delivery, delivered, path, vacant⟩ := lands item member
    refine ⟨name, named, directory, file, delivery, delivered, path.symm, ?_⟩
    by_contra absent
    obtain ⟨current, -⟩ := Entry.of_mem_allDeliveries template_written target_written sound
      (fun entry listed => (inners entry listed).stays) delivered
    rw [vacant (Bool.not_eq_true _ ▸ absent), ← path, placeOf_congr current] at landed
    simpa using congrArg List.length landed
  refine ⟨fun vacant path member => ?_, runs, ran, rfl, placed⟩
  obtain ⟨item, listed, rfl⟩ := List.mem_map.1 member
  rcases placed item listed with file | ⟨_, -, -, -, delivery, delivered, -, occupied⟩
  · exact file
  · rw [vacant delivery delivered] at occupied
    cases occupied

end Reports

theorem copyFiles_reports_sample :
    ∃ written reached,
      (sample "a.txt" "\x7b\x7bname\x7d\x7d.txt").copyFiles .standard (.ofText "/tmp/w/t")
        (.ofText "/tmp/w/p") sampleReplacements sampleWorld = .ok written reached ∧
      written = ["b.txt", "x.txt"].map (.ofText <| "/tmp/w/p/out/" ++ ·) ∧
      ∀ path ∈ written, reached.disk.isFile path = true := by
  obtain ⟨written, reached, ends, paths⟩ : Yields
      ((sample "a.txt" "\x7b\x7bname\x7d\x7d.txt").copyFiles .standard (.ofText "/tmp/w/t")
        (.ofText "/tmp/w/p") sampleReplacements) sampleWorld
      (· = ["b.txt", "x.txt"].map (.ofText <| "/tmp/w/p/out/" ++ ·)) := by
    decide +kernel
  obtain ⟨reports, -⟩ := copyFiles_reports sound_sampleWorld (Path.isWritten_ofText _)
    (Path.isWritten_ofText _) _ _ _ (by decide +kernel) (by decide +kernel) (by decide +kernel) ends
  exact ⟨written, reached, ends, paths, reports (by decide +kernel)⟩

def occupiedWorld : World where
  disk := .holding
    [(["tmp"], .directory), (["tmp", "w"], .directory), (["tmp", "w", "tmp"], .directory),
      (["tmp", "w", "p"], .directory), (["tmp", "w", "p", "x.png"], .directory),
      (["tmp", "w", "t"], .directory), (["tmp", "w", "t", "src"], .directory),
      (["tmp", "w", "t", "src", "x.png"], .file "P".toUTF8 false)]
    ["tmp", "w"] ["tmp", "w", "tmp"]

/-- A run answers with the path of the directory, in which the image now lies. -/
theorem copyFiles_reports_directory :
    let descriptor : Descriptor := { transforms := [{ source := "src" }] }
    occupiedWorld.disk.Separate (.ofText "/tmp/w/t") (.ofText "/tmp/w/p") ∧
    (∀ entry ∈ descriptor.entries occupiedWorld.disk (.ofText "/tmp/w/t"),
      entry.Inner sampleReplacements) ∧
    (∀ delivery ∈ descriptor.deliveries .standard (.ofText "/tmp/w/t") (.ofText "/tmp/w/p")
      sampleReplacements occupiedWorld, Path.Inner delivery.relative) ∧
    ∃ reached,
      descriptor.copyFiles .standard (.ofText "/tmp/w/t") (.ofText "/tmp/w/p") sampleReplacements
        occupiedWorld = .ok [.ofText "/tmp/w/p/x.png"] reached ∧
      reached.disk.isFile (.ofText "/tmp/w/p/x.png") = false := by
  intro descriptor
  refine ⟨by decide +kernel, by decide +kernel, by decide +kernel, ?_⟩
  obtain ⟨_, reached, ends, rfl⟩ : Yields
      (descriptor.copyFiles .standard (.ofText "/tmp/w/t") (.ofText "/tmp/w/p") sampleReplacements)
      occupiedWorld (· = [.ofText "/tmp/w/p/x.png"]) := by
    decide +kernel
  obtain ⟨_, _, same, absent⟩ := ok_of_check
    (descriptor.copyFiles .standard (.ofText "/tmp/w/t") (.ofText "/tmp/w/p") sampleReplacements)
    occupiedWorld (fun disk => !disk.isFile (.ofText "/tmp/w/p/x.png")) (by decide +kernel)
  rw [ends] at same
  cases same
  exact ⟨reached, ends, by simpa using absent⟩

end Archetype.Template.Descriptor
