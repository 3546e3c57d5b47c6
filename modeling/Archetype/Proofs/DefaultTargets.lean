import Archetype.Proofs.Courses
import Archetype.Proofs.EarlyFailures

namespace Archetype

theorem Hook.added_of_unnamed {registry : Hook.Registry} {descriptor : Template.Descriptor}
    {data added : Data} {world reached : World}
    (adds : Hook.Adds registry descriptor data world added reached)
    (unnamed : Hook.named? descriptor.dataHook? = none) : added = ∅ := by
  cases adds with
  | unnamed => rfl
  | nothing named => cases unnamed.symm.trans named
  | map named => cases unnamed.symm.trans named

namespace Project

/-- A main name that means nothing else to a disk. -/
structure IsPlainMain (main : String) : Prop where
  here : main ≠ "."
  above : main ≠ ".."
  home : main.toList.head? ≠ some '~'

theorem main_of_resolve {groupPrefix token : String} {addressOf : String → Option String}
    {identity : Identity}
    (resolves : Identity.resolve groupPrefix addressOf token = .ok identity) :
    identity.main = (Name.splitQualified (Text.strip token)).2 ∧ isSegment identity.main = true := by
  unfold Identity.resolve at resolves
  simp only at resolves
  split at resolves
  · cases resolves
  · generalize Name.splitQualified (Text.strip token) = parts at resolves ⊢
    obtain ⟨qualifier, main⟩ := parts
    split at resolves
    · cases resolves
    · rename_i proper
      cases resolves
      have kept : isSegment main = true := by
        simpa using List.find?_eq_none.1 proper main (by simp)
      exact ⟨rfl, kept⟩

section Segment

variable {main : String} (segment : isSegment main = true)

include segment

theorem mem_segmentChars {character : Char} (member : character ∈ main.toList) :
    isSegmentChar character = true :=
  List.all_eq_true.1 (Bool.and_eq_true_iff.1 segment).2 character member

theorem slash_not_mem_segment : '/' ∉ main.toList :=
  fun member => absurd (mem_segmentChars segment member) (by decide)

theorem ne_empty_of_segment : main ≠ "" := by
  rintro rfl
  cases segment

theorem ofText_segment (here : main ≠ ".") : Path.ofText main = ⟨.current, [main]⟩ := by
  have proper : Path.IsSegment main :=
    ⟨ne_empty_of_segment segment, here, slash_not_mem_segment segment⟩
  have anchor : Path.anchorOf main.toList = .current := by
    unfold Path.anchorOf
    have slash := slash_not_mem_segment segment
    split <;> rename_i same <;> simp_all
  rw [Path.ofText, anchor, Path.segmentsOf_segment proper]

end Segment

section Disk

variable {disk : Disk} {main : String}

theorem resolve_of_steps {path : Path} {place : Place}
    (steps : ∀ onLink, disk.resolveSteps onLink (if path.anchor = .current then disk.current else [])
      path.segments = .ok place) : disk.resolve path = .ok (.fromRoot place) := by
  have reaches : disk.resolveLinks Disk.maximumLinks []
      (if path.anchor = .current then disk.current else []) path.segments = .ok place := steps _
  simp only [Disk.resolve, reaches]

theorem resolve_here (disk : Disk) :
    disk.resolve ⟨.current, []⟩ = .ok (.fromRoot disk.current) :=
  resolve_of_steps fun _ => rfl

theorem resolve_above (disk : Disk) :
    disk.resolve ⟨.current, [".."]⟩ = .ok (.fromRoot disk.current.dropLast) :=
  resolve_of_steps fun _ => rfl

theorem resolve_inside (here : main ≠ ".") (above : main ≠ "..")
    (unlinked : ∀ target, disk.node? (disk.current ++ [main]) ≠ some (.link target)) :
    disk.resolve ⟨.current, [main]⟩ = .ok (.fromRoot (disk.current ++ [main])) := by
  refine resolve_of_steps fun onLink => ?_
  rw [if_pos rfl, Disk.resolveSteps]
  · cases held : disk.node? (disk.current ++ [main]) with
    | none => rfl
    | some node =>
        cases node with
        | link target => exact absurd held (unlinked target)
        | _ => rfl
  · exact here
  · exact above

theorem expand?_of_head {homes : Homes} (home : main.toList.head? ≠ some '~') :
    homes.expand? ⟨.current, [main]⟩ = some ⟨.current, [main]⟩ := by
  simp only [Homes.expand?]
  split
  · rename_i user same
    simp [same] at home
  · rfl

end Disk

theorem get?_derived (settings : Settings) (environment : Environment)
    (token target template : String) (checkout? : Option Path) :
    (derived settings environment token target template checkout?).get? (.text targetEntry) =
      some (.text target) := by
  refine Table.get?_ofList_of_forall (by simp [targetEntry]) fun entry member same => ?_
  obtain ⟨⟨name, value⟩, inside, rfl⟩ := List.mem_map.1 member
  have named : name = targetEntry := by
    simpa [Key.text] using Key.beq_text_iff.1 same
  subst named
  simpa [targetEntry] using inside

namespace Generator

variable {generator : Generator} {options : Data} {world : World} {schedule : Schedule}

theorem targetNamed_of_reaches {drafted : World}
    (begins : generator.Reaches options world schedule .copying drafted)
    (plain : Hook.named? schedule.loaded.dataHook? = none)
    (unnamed : option? options "target-dir" = none)
    (unspelled : option? options "target_dir" = none) :
    ∃ token, (option? options "name").map Value.toText = some token ∧
      Identity.resolve generator.settings.groupPrefix Git.address? token =
        .ok schedule.prepared.identity ∧
      targetNamed schedule.data = schedule.prepared.identity.main := by
  cases begins with
  | copying before replaces =>
  cases before with
  | replacing before adds =>
  cases before with
  | extending finds loads =>
  obtain ⟨prepared, ready, prepares, locates⟩ := Action.bind_eq_ok_iff.1 finds
  obtain ⟨location, located, -, returns⟩ := Action.bind_eq_ok_iff.1 locates
  have same : prepared = schedule.prepared := by
    cases returns
    rfl
  subst same
  obtain ⟨token, names, prepared_data⟩ := names_of_prepare prepares
  refine ⟨token, names.named, names.identity, ?_⟩
  have counts : schedule.data.get? (.text targetEntry) =
      (schedule.prepared.sources generator.settings generator.environment options token
        schedule.location.directory.toText schedule.added schedule.final).value?
          (.text targetEntry) := by
    refine get?_finalData_sources (schedule.prepared.sources generator.settings
      generator.environment options token schedule.location.directory.toText schedule.added
      schedule.final) ?_ rfl _
    rw [prepared_data]
    rfl
  have derives : (schedule.prepared.derivedData generator.settings generator.environment options
      token).get? (.text targetEntry) = some (.text schedule.prepared.identity.main) := by
    rw [Prepared.derivedData, Table.get?_union, get?_derived, targetOf, unnamed, unspelled]
    rfl
  have consumed : IsConsumed (.text targetEntry) := by decide
  have apart : (Key.text targetEntry).spelled ≠ .text "template-dir" := by decide
  rw [targetNamed, Data.find?, counts]
  simp only [Sources.value?, Sources.values, Prepared.sources, Hook.added_of_unnamed adds plain,
    consumed, apart, derives, Table.get?_empty, if_true, if_false, List.findSome?_cons, id]
  rfl

theorem expands_of_resolveTarget {environment : Environment} {data : Data} {target : Path}
    {reached : World}
    (resolves : resolveTarget environment data world = .ok target reached) :
    ∃ path, environment.homes.expand? (.ofText (targetNamed data)) = some path ∧
      world.disk.resolve path = .ok target := by
  rw [resolveTarget_eq, Environment.expand] at resolves
  cases expands : environment.homes.expand? (.ofText (targetNamed data)) with
  | none =>
      rw [expands] at resolves
      cases resolves
  | some path =>
      simp only [expands] at resolves
      split at resolves
      · cases resolves
      · split at resolves <;> cases resolves
        rename_i found
        exact ⟨path, rfl, found⟩

theorem exists_drafted_of_ok {result : Result} {reached : World}
    (generates : generator.generate options world = .ok result reached) :
    ∃ schedule drafted, generator.Reaches options world schedule .copying drafted ∧
      resolveTarget generator.environment schedule.data drafted = .ok result.target drafted := by
  rcases generate_eq_iff.1 generates with ⟨_, _, -, ⟨⟩⟩ | ⟨schedule, phase, ends⟩
  cases ends with
  | finished begins finishes =>
      cases begins with
      | finishing before resolves copied => exact ⟨schedule, _, before, resolves⟩

theorem read_of_copying {drafted : World}
    (begins : generator.Reaches options world schedule .copying drafted) :
    ∃ ready, generator.read options world = .ok schedule.loaded ready := by
  cases begins with
  | copying before replaces =>
  cases before with
  | replacing before adds =>
  cases before with
  | extending finds loads => exact ⟨_, (Action.bind_ok finds _).trans loads⟩

theorem draft_of_copying {drafted : World}
    (begins : generator.Reaches options world schedule .copying drafted) :
    generator.draft options world = .ok schedule.draft drafted := by
  cases begins with
  | copying before replaces =>
  cases before with
  | replacing before adds =>
  cases before with
  | extending finds loads =>
  rw [draft, Action.bind_ok finds, Action.bind_ok loads]
  simp only [draftFrom, Hook.apply, bind_assoc, pure_bind]
  exact (Action.bind_ok (Hook.extendData_of_adds adds) _).trans
    (Action.bind_ok (Hook.replaceDescriptor_of_replaces replaces) _)

theorem current_of_copying {drafted : World}
    (begins : generator.Reaches options world schedule .copying drafted)
    (stays : ∀ before after, generator.PartnerStep before after →
      after.disk.current = before.disk.current) :
    drafted.disk.current = world.disk.current := by
  have moves := generator.movesBy_draft options world
  rw [Action.after_of_ok (draft_of_copying begins)] at moves
  clear begins
  induction moves with
  | refl => rfl
  | tail moves step ih => exact (stays _ _ step).trans ih

/-- Without a hook for data and without an option for it, the directory of a project is the one of
its main name in the current directory; a name that means something else to a disk leads there. -/
theorem default_target {result : Result} {reached : World}
    (unnamed : option? options "target-dir" = none)
    (unspelled : option? options "target_dir" = none)
    (plain : ∀ loaded ready, generator.read options world = .ok loaded ready →
      Hook.named? loaded.dataHook? = none)
    (generates : generator.generate options world = .ok result reached) :
    ∃ token identity draft drafted, (option? options "name").map Value.toText = some token ∧
      Identity.resolve generator.settings.groupPrefix Git.address? token = .ok identity ∧
      generator.draft options world = .ok draft drafted ∧
      ((∀ before after, generator.PartnerStep before after →
        after.disk.current = before.disk.current) →
          drafted.disk.current = world.disk.current) ∧
      (IsPlainMain identity.main →
        (∀ target, drafted.disk.node? (drafted.disk.current ++ [identity.main]) ≠
          some (.link target)) →
          result.target = .fromRoot (drafted.disk.current ++ [identity.main])) ∧
      (identity.main = "." → result.target = .fromRoot drafted.disk.current) ∧
      (identity.main = ".." → result.target = .fromRoot drafted.disk.current.dropLast) ∧
      (identity.main.toList.head? = some '~' →
        ∃ home, generator.environment.homes.expand? (.ofText identity.main) = some home ∧
          drafted.disk.resolve home = .ok result.target) := by
  obtain ⟨schedule, drafted, begins, resolves⟩ := exists_drafted_of_ok generates
  obtain ⟨ready, reads⟩ := read_of_copying begins
  obtain ⟨token, named, identifies, target⟩ :=
    targetNamed_of_reaches begins (plain _ ready reads) unnamed unspelled
  refine ⟨token, schedule.prepared.identity, schedule.draft, drafted, named, identifies,
    draft_of_copying begins, current_of_copying begins, ?_⟩
  have segment := (main_of_resolve identifies).2
  generalize schedule.prepared.identity.main = main at target segment ⊢
  obtain ⟨path, expands, resolves⟩ := expands_of_resolveTarget resolves
  rw [target] at expands
  refine ⟨fun plain unlinked => ?_, ?_, ?_, fun _ => ⟨path, expands, resolves⟩⟩
  · rw [ofText_segment segment plain.here, expand?_of_head plain.home] at expands
    cases expands
    rw [resolve_inside plain.here plain.above unlinked] at resolves
    exact (Except.ok.inj resolves).symm
  · rintro rfl
    cases expands
    rw [show Path.ofText "." = ⟨.current, []⟩ from by decide +kernel, resolve_here] at resolves
    exact (Except.ok.inj resolves).symm
  · rintro rfl
    cases expands
    rw [show Path.ofText ".." = ⟨.current, [".."]⟩ from by decide +kernel, resolve_above] at resolves
    exact (Except.ok.inj resolves).symm

end Generator

def workGenerator : Generator where
  settings := ⟨[.ofText "/t"], .ofText "/cache", "lib", "net.", "0.1.0"⟩
  environment := ⟨∅, ⟨some "/home", fun _ => none⟩, some "jane", ⟨2024, 3, 9⟩⟩
  resolver := ⟨fun _ => return none, fun _ _ => return none, fun _ _ _ => return .ofText "/"⟩

def workOptions (name : String) : Data :=
  Data.ofEntries [(.text "template", .text "acme/base"), (.text "name", .text name)]

def workWorld : World where
  disk := .holding
    [(["t"], .directory), (["t", "acme"], .directory), (["t", "acme", "base"], .directory),
      (["t", "acme", "base", "template.yaml"], .file "".toUTF8 false),
      (["t", "acme", "base", "root"], .directory),
      (["t", "acme", "base", "root", "one.txt"], .file "".toUTF8 false),
      (["home"], .directory), (["home", "work"], .directory)]
    ["home", "work"] []

theorem resolve_none (reference : String) (target : Hook.Target) :
    workGenerator.registry.resolve reference ≠ .ok target := by
  intro resolves
  have absent (name : String) : ∃ failure,
      Hook.Library.empty.find reference name = .error failure := by
    unfold Hook.Library.find
    split
    · exact ⟨_, rfl⟩
    · exact ⟨_, rfl⟩
  have unlisted : ∃ failure, Hook.Library.empty.member reference = .error failure := by
    unfold Hook.Library.member
    simp only
    split
    · exact ⟨_, rfl⟩
    · obtain ⟨failure, fails⟩ :=
        absent (String.ofList (Hook.splitReference reference.toList).1)
      exact ⟨failure, by rw [fails]; rfl⟩
  obtain ⟨failure, fails⟩ := unlisted
  have unfolds : workGenerator.registry.resolve reference =
      (do Hook.callable reference (← Hook.Library.empty.member reference)) := rfl
  rw [unfolds, fails] at resolves
  cases resolves

theorem current_work {before after : World} (step : workGenerator.PartnerStep before after) :
    after.disk.current = before.disk.current := by
  cases step with
  | called arguments world resolves => exact absurd resolves (resolve_none _ _)
  | _ => rfl

theorem default_target_work :
    ∃ result reached, workGenerator.generate (workOptions "acme/tool") workWorld =
        .ok result reached ∧
      result.target = .fromRoot ["home", "work", "tool"] := by
  obtain ⟨result, reached, generates, -⟩ :
      (workGenerator.generate (workOptions "acme/tool")).Yields workWorld fun _ => True := by
    decide +kernel
  obtain ⟨loaded, ready, reads, unhooked⟩ :
      (workGenerator.read (workOptions "acme/tool")).Yields workWorld fun loaded =>
        Hook.named? loaded.dataHook? = none := by
    decide +kernel
  obtain ⟨_, drafted_disk, drafts, unlinked⟩ := Action.ok_of_check
    (workGenerator.draft (workOptions "acme/tool")) workWorld
    (fun disk => disk.node? ["home", "work", "tool"] == none) (by decide +kernel)
  obtain ⟨token, identity, draft, drafted, named, identifies, drafts_same, stays, child, -⟩ :=
    Generator.default_target (by decide +kernel) (by decide +kernel)
      (fun other after read => by rw [reads] at read; cases read; exact unhooked) generates
  rw [drafts] at drafts_same
  cases drafts_same
  have token_same : some "acme/tool" = some token :=
    (show _ = (option? (workOptions "acme/tool") "name").map Value.toText by decide +kernel).trans
      named
  cases token_same
  have main : (match Identity.resolve "net." Git.address? "acme/tool" with
      | .ok identity => identity.main
      | .error _ => "") = "tool" := by
    decide +kernel
  have current := stays fun _ _ => current_work
  rw [show Identity.resolve "net." Git.address? "acme/tool" = .ok identity from identifies] at main
  simp only at main
  rw [main, current] at child
  refine ⟨result, reached, generates, child ⟨by decide, by decide, by decide⟩ fun target => ?_⟩
  rw [show workWorld.disk.current ++ ["tool"] = ["home", "work", "tool"] from rfl,
    beq_iff_eq.1 unlinked]
  nofun

/-- The project goes into the home directory, next to what is there; here the current directory lies
below it. -/
theorem default_target_at_home :
    ∃ result reached, workGenerator.generate (workOptions "acme/~") workWorld =
        .ok result reached ∧
      (∃ identity, Identity.resolve "net." Git.address? "acme/~" = .ok identity ∧
        result.target ≠ .fromRoot (workWorld.disk.current ++ [identity.main])) ∧
      result.target = .fromRoot ["home"] ∧ result.written = [.fromRoot ["home", "one.txt"]] := by
  obtain ⟨result, reached, generates, target, written⟩ :
      (workGenerator.generate (workOptions "acme/~")).Yields workWorld fun result =>
        result.target = .fromRoot ["home"] ∧ result.written = [.fromRoot ["home", "one.txt"]] := by
    decide +kernel
  refine ⟨result, reached, generates, ⟨_, rfl, ?_⟩, target, written⟩
  rw [target]
  decide +kernel

end Project

end Archetype
