import Archetype.Proofs.HookCalls
import Archetype.Proofs.Phases

namespace Archetype

namespace Shape

variable {before after : List (Value × Value)} {name : String}

theorem find?_insert_of_ne {entry : Value × Value} (other : entry.1 ≠ .text name) :
    find? name (before ++ entry :: after) = find? name (before ++ after) := by
  simp only [find?, List.find?_append, List.find?_cons, other, decide_false]

theorem find?_insert (value : Value) (absent : find? name (before ++ after) = none) :
    find? name (before ++ (.text name, value) :: after) = some value := by
  unfold find? at absent ⊢
  have clear : before.find? (fun entry => decide (entry.1 = .text name)) = none := by
    simp only [List.find?_append, Option.map_eq_none_iff, Option.or_eq_none_iff] at absent
    exact absent.1
  simp only [List.find?_append, clear, List.find?_cons, decide_true, Option.none_or,
    Option.map_some]

theorem field_insert_of_ne {α : Type} {default : Shaped α} {read : Value → Shaped α}
    {entry : Value × Value} (other : entry.1 ≠ .text name) :
    field name default read (before ++ entry :: after) =
      field name default read (before ++ after) := by
  simp only [field, find?_insert_of_ne other]

theorem all_insert {α : Type} (value : α) (before after : List (Shaped α)) :
    (all (before ++ .ok value :: after)).map (fun _ => ()) =
      (all (before ++ after)).map fun _ => () := by
  induction before with
  | nil =>
      simp only [List.nil_append, all]
      cases all after <;> rfl
  | cons part parts ih =>
      simp only [List.cons_append, all]
      cases part <;> cases left : all (parts ++ .ok value :: after) <;>
        cases right : all (parts ++ after) <;> simp_all [both, Except.map]

theorem both_map {α β γ : Type} (first : Shaped α) (second : Shaped β) (next : β → γ) :
    both first (second.map next) = (both first second).map (Prod.map id next) := by
  cases first <;> cases second <;> rfl

theorem names_insert {accept : String → Bool} (accepted : accept name = true) (value : Value) :
    names accept (before ++ (.text name, value) :: after) = names accept (before ++ after) := by
  simp only [names, List.map_append, List.map_cons, accepted, if_true]
  exact all_insert _ _ _

end Shape

namespace Template.Descriptor

def postEntry : String := "post_process_fn"

def endingWith (reference : String) (descriptor : Descriptor) : Descriptor :=
  { descriptor with postHook? := some reference }

/-- What a descriptor file holds once an entry is added that names a last hook; an empty file
becomes one with this entry alone. -/
inductive Ends (reference : String) : Value → Value → Prop
  | empty : Ends reference .null (.map [(.text postEntry, .text reference)])
  | map (before after : List (Value × Value))
      (unnamed : hookName? postEntry (before ++ after) = none) :
      Ends reference (.map (before ++ after))
        (.map (before ++ (.text postEntry, .text reference) :: after))

section

variable {before after : List (Value × Value)}

theorem hookName?_insert {name : String} {entry : Value × Value}
    (other : ∀ spelling ∈ hookNames name, entry.1 ≠ .text spelling) :
    hookName? name (before ++ entry :: after) = hookName? name (before ++ after) := by
  have same (spelling : String) (member : spelling ∈ hookNames name) :
      Shape.find? spelling (before ++ entry :: after) = Shape.find? spelling (before ++ after) :=
    Shape.find?_insert_of_ne (other spelling member)
  simp only [hookName?, hookNames, List.find?_cons, List.find?_nil, same _ (List.mem_cons_self ..),
    same _ (List.mem_cons_of_mem _ (List.mem_cons_self ..))]

theorem hook_insert {name : String} {entry : Value × Value}
    (other : ∀ spelling ∈ hookNames name, entry.1 ≠ .text spelling) :
    hook name (before ++ entry :: after) = hook name (before ++ after) := by
  unfold hook
  rw [hookName?_insert other]
  cases found : hookName? name (before ++ after) with
  | none => rfl
  | some spelling => exact Shape.field_insert_of_ne (other spelling (List.mem_of_find?_eq_some found))

theorem find?_postEntry (unnamed : hookName? postEntry (before ++ after) = none) :
    Shape.find? postEntry (before ++ after) = none := by
  have absent := List.find?_eq_none.1 unnamed postEntry (List.mem_cons_self ..)
  simpa using absent

theorem hookName?_postEntry (reference : String)
    (unnamed : hookName? postEntry (before ++ after) = none) :
    hookName? postEntry (before ++ (.text postEntry, .text reference) :: after) =
      some postEntry := by
  unfold hookName? hookNames
  rw [List.find?_cons, Shape.find?_insert _ (find?_postEntry unnamed)]
  rfl

theorem other_postEntry {name : String} (other : postEntry ∉ hookNames name) (value : Value) :
    ∀ spelling ∈ hookNames name, ((Value.text postEntry, value) : Value × Value).1 ≠ .text spelling := by
  rintro spelling member same
  cases same
  exact other member

theorem extrasOf_insert (reference : String)
    (unnamed : hookName? postEntry (before ++ after) = none) :
    extrasOf (before ++ (.text postEntry, .text reference) :: after) = extrasOf (before ++ after) := by
  have named : fields (before ++ (.text postEntry, .text reference) :: after) =
      fields (before ++ after) ++ [postEntry] := by
    simp only [fields, List.filterMap_cons, List.filterMap_nil]
    rw [hookName?_insert (other_postEntry (by decide) _),
      hookName?_insert (other_postEntry (by decide) _),
      show "post_process_fn" = postEntry from rfl, hookName?_postEntry reference unnamed, unnamed]
    cases hookName? "data_fn" (before ++ after) <;>
      cases hookName? "template_fn" (before ++ after) <;> rfl
  -- one more field is known, but no entry that was there before has its name
  have kept (entry : Value × Value) (member : entry ∈ before ++ after) :
      entry.1.asText?.any (fields (before ++ after) ++ [postEntry]).contains =
        entry.1.asText?.any (fields (before ++ after)).contains := by
    have other : entry.1 ≠ .text postEntry := by
      have absent := find?_postEntry unnamed
      rw [Shape.find?, Option.map_eq_none_iff, List.find?_eq_none] at absent
      simpa using absent entry member
    cases key : entry.1.asText? with
    | none => rfl
    | some characters =>
        have ne : characters ≠ postEntry := by
          rintro rfl
          cases value : entry.1 with
          | text name =>
              rw [value] at key other
              cases key
              exact other rfl
          | _ => rw [value] at key; cases key
        simp [ne]
  unfold extrasOf
  rw [named, List.filter_append, List.filter_cons, if_neg (by simp [Value.asText?]),
    ← List.filter_append, List.filter_congr fun entry member => by rw [kept entry member]]

theorem ofMap_insert (reference : String)
    (unnamed : hookName? postEntry (before ++ after) = none) :
    ofMap (before ++ (.text postEntry, .text reference) :: after) =
      (ofMap (before ++ after)).map (endingWith reference) := by
  have written : hook postEntry (before ++ (.text postEntry, .text reference) :: after) =
      .ok (some reference) := by
    rw [hook, hookName?_postEntry reference unnamed]
    simp only [Shape.field, Shape.find?_insert _ (find?_postEntry unnamed)]
    rfl
  have unwritten : hook postEntry (before ++ after) = .ok none := by
    rw [hook, unnamed]
  have other {name : String} (ne : postEntry ≠ name) :
      ((Value.text postEntry, Value.text reference) : Value × Value).1 ≠ .text name := by
    simpa using ne
  unfold ofMap
  simp only [Shape.field_insert_of_ne (other (show postEntry ≠ "description" by decide)),
    Shape.field_insert_of_ne (other (show postEntry ≠ "root" by decide)),
    Shape.field_insert_of_ne (other (show postEntry ≠ "transform" by decide)),
    hook_insert (other_postEntry (show postEntry ∉ hookNames "data_fn" by decide) _),
    hook_insert (other_postEntry (show postEntry ∉ hookNames "template_fn" by decide) _),
    show "post_process_fn" = postEntry from rfl, written, unwritten,
    extrasOf_insert reference unnamed]
  rw [Shape.names_insert rfl]
  have ended (names : Shaped Unit) : Shape.both (.ok (some reference)) names =
      (Shape.both (.ok none) names).map (Prod.map (fun _ : Option String => some reference) id) := by
    cases names <;> rfl
  rw [ended]
  simp only [Shape.both_map]
  cases Shape.both _ _ <;> rfl

end

theorem ofFileValue_ends {reference : String} {value added : Value}
    (ends : Ends reference value added) (path : Path) :
    ofFileValue path added = (ofFileValue path value).map (endingWith reference) := by
  cases ends with
  | empty => rfl
  | map before after unnamed =>
      simp only [ofFileValue, ofMap_insert reference unnamed]
      cases ofMap (before ++ after) with
      | ok descriptor => rfl
      | error mismatch => cases mismatch <;> rfl

/-- The template has neither a hook that replaces its descriptor nor a last one. -/
structure IsPlain (descriptor : Descriptor) : Prop where
  noTemplateHook : Hook.named? descriptor.templateHook? = none
  noPostHook : Hook.named? descriptor.postHook? = none

instance : DecidablePred IsPlain := fun descriptor =>
  decidable_of_iff (Hook.named? descriptor.templateHook? = none ∧
      Hook.named? descriptor.postHook? = none)
    ⟨fun plain => ⟨plain.1, plain.2⟩, fun plain => ⟨plain.1, plain.2⟩⟩

end Template.Descriptor

namespace Hook

open Archetype.Template (Descriptor)

/-- If a module is imported for the reference, it is named from the top, and its own code does not
fail. -/
def Registry.Imports (registry : Registry) (reference : String) : Prop :=
  registry.Seeks reference → (moduleOf reference).toList.head? ≠ some '.' ∧
    ∀ failure, registry.library.modules (moduleOf reference) ≠ .error (.raised failure)

def Registry.Keeps (registry : Registry) (reference : String) : Prop :=
  ∀ function, registry.resolve reference = .ok (.function function) →
    ∀ arguments disk, (function.run arguments disk).2 = disk

def Registry.Answers (registry : Registry) (reference : String) (arguments : List Argument)
    (disk : Disk) : Prop :=
  ∃ function answer, registry.resolve reference = .ok (.function function) ∧
    (function.run arguments disk).1 = .ok answer

section

variable {registry : Registry} {reference : String}

theorem fails_of_imports (imports : registry.Imports reference) {failure : Failure}
    (fails : registry.resolve reference = .error failure) :
    ∃ fault, failure = .fault fault ∧ fault.cause.stage = .hook := by
  rcases Registry.fails_of_resolve fails with reported | ⟨seeks, relative | raised⟩
  · exact reported.belongs
  · exact absurd relative.1 (imports seeks).1
  · exact absurd raised ((imports seeks).2 failure)

theorem invoke_ends (imports : registry.Imports reference) (keeps : registry.Keeps reference)
    (role : HookRole) (arguments : List Argument) (world : World) :
    ∃ events, (registry.Answers reference arguments world.disk ∧
        ∃ answer, registry.invoke role reference arguments world =
          .ok answer { world with journal := world.journal ++ events }) ∨
      ¬ registry.Answers reference arguments world.disk ∧
        ∃ fault, fault.cause.stage = .hook ∧ registry.invoke role reference arguments world =
          .error (.fault fault) { world with journal := world.journal ++ events } := by
  rw [Registry.invoke_eq]
  cases resolved : registry.resolve reference with
  | error failure =>
      obtain ⟨fault, rfl, stage⟩ := fails_of_imports imports resolved
      refine ⟨[], Or.inr ⟨by simp [Registry.Answers, resolved], fault, stage, ?_⟩⟩
      rw [List.append_nil]
  | ok target =>
      cases target with
      | value value =>
          obtain ⟨fault, same, stage⟩ :=
            Problem.stage_toFailure role reference (.other (notFunction value) [])
          refine ⟨[.noted (.calling role reference)],
            Or.inr ⟨by simp [Registry.Answers, resolved], fault, stage, ?_⟩⟩
          simp only [same]
      | function function =>
          have after : Registry.afterCall role reference arguments function world =
              { world with journal := world.journal ++ [.noted (.calling role reference),
                .called ⟨role, reference, function.name, arguments⟩] } := by
            rw [Registry.afterCall, keeps function resolved, List.append_assoc]
            rfl
          refine ⟨[.noted (.calling role reference),
            .called ⟨role, reference, function.name, arguments⟩], ?_⟩
          simp only [after]
          cases answered : (function.run arguments world.disk).1 with
          | ok answer =>
              exact Or.inl ⟨⟨function, answer, resolved, answered⟩, answer, rfl⟩
          | error problem =>
              obtain ⟨fault, same, stage⟩ := Problem.stage_toFailure role reference problem
              refine Or.inr ⟨by simp [Registry.Answers, resolved, answered], fault, stage, ?_⟩
              simp only [same]

theorem noting_of_ok {work : Action Unit} {world reached : World}
    (ends : work world = .ok () reached) : noting work world = .ok none reached := by
  rw [noting, ends]

theorem noting_of_fault {work : Action Unit} {world reached : World} {fault : Fault}
    (ends : work world = .error (.fault fault) reached) (stage : fault.cause.stage = .hook) :
    noting work world = .ok (some fault)
      { reached with journal := reached.journal ++ [.noted (.postFailed fault.message)] } := by
  simp only [noting, ends, stage, if_true]
  rfl

theorem finish_endingWith (named : reference ≠ "") (imports : registry.Imports reference)
    (keeps : registry.Keeps reference) (data : Data) (descriptor : Descriptor) (world : World) :
    ∃ fault? events, finish registry data (descriptor.endingWith reference) world =
        .ok fault? { world with journal := world.journal ++ events } ∧
      (fault? = none ↔ registry.Answers reference
        [.data data, .descriptor (descriptor.endingWith reference)] world.disk) ∧
      ∀ fault ∈ fault?, fault.cause.stage = .hook := by
  have given : named? (descriptor.endingWith reference).postHook? = some reference := by
    simp [named?, Descriptor.endingWith, named]
  unfold finish
  rw [given]
  obtain ⟨events, ⟨answers, answer, called⟩ | ⟨unanswered, fault, stage, called⟩⟩ :=
    invoke_ends imports keeps .post
      [.data data, .descriptor (descriptor.endingWith reference)] world
  · refine ⟨none, events, noting_of_ok (Action.bind_ok called _), ?_, nofun⟩
    exact ⟨fun _ => answers, fun _ => rfl⟩
  · refine ⟨some fault, events ++ [.noted (.postFailed fault.message)], ?_, ?_, ?_⟩
    · refine (noting_of_fault (Action.bind_error called) stage).trans ?_
      rw [List.append_assoc]
    · exact ⟨nofun, fun answers => absurd answers unanswered⟩
    · rintro _ ⟨⟩
      exact stage

end

theorem apply_of_plain {registry : Registry} {template : String} {data : Data}
    {descriptor : Descriptor} (plain : descriptor.IsPlain) :
    apply registry template data descriptor = (do
      let data ← extendData registry descriptor (context template data)
      return (finalData descriptor data, descriptor)) := by
  simp only [apply, replaceDescriptor, plain.noTemplateHook, pure_bind]

end Hook

namespace Project

open Archetype.Template (Descriptor)

def Result.endedBy (result : Result) (reference : String) (fault? : Option Fault) : Result :=
  { result with descriptor := result.descriptor.endingWith reference, postFault? := fault? }

/-- How a generation ends, and how it ends with a last hook: a failure stays what it is, and a
result differs in what the hook comes to only. -/
inductive EndsAlike (registry : Hook.Registry) (reference : String) :
    EStateM.Result Failure World Result → EStateM.Result Failure World Result → Prop
  | failed (failure : Failure) (reached : World) :
      EndsAlike registry reference (.error failure reached) (.error failure reached)
  | created (result : Result) (reached : World) (fault? : Option Fault) (events : List Event)
      (answers : fault? = none ↔ registry.Answers reference
        [.data result.data, .descriptor (result.descriptor.endingWith reference)] reached.disk)
      (stage : ∀ fault ∈ fault?, fault.cause.stage = .hook) :
      EndsAlike registry reference (.ok result reached)
        (.ok (result.endedBy reference fault?)
          { reached with journal := reached.journal ++ events })

namespace Generator

variable {generator : Generator} {reference : String}

def ReadsPlain (generator : Generator) (options : Data) (world : World) : Prop :=
  ∀ loaded reached, generator.read options world = .ok loaded reached → loaded.IsPlain

instance (generator : Generator) (options : Data) (world : World) :
    Decidable (generator.ReadsPlain options world) :=
  match reads : generator.read options world with
  | .ok loaded reached =>
    decidable_of_iff loaded.IsPlain
      ⟨fun plain _ _ same => by rw [reads] at same; cases same; exact plain,
        fun plain => plain loaded reached reads⟩
  | .error failure reached => .isTrue fun _ _ same => by rw [reads] at same; cases same

theorem draftFrom_endingWith {loaded : Descriptor} (plain : loaded.IsPlain)
    (found : Prepared × Template.Location) :
    generator.draftFrom found (loaded.endingWith reference) = (do
      let draft ← generator.draftFrom found loaded
      return { draft with descriptor := loaded.endingWith reference }) := by
  have ending : (loaded.endingWith reference).templateHook? = loaded.templateHook? := rfl
  unfold draftFrom Hook.apply Hook.replaceDescriptor
  simp only [ending, plain.noTemplateHook, bind_assoc, pure_bind]
  rfl

theorem draftFrom_descriptor {loaded : Descriptor} (plain : loaded.IsPlain)
    {found : Prepared × Template.Location} {draft : Draft} {world reached : World}
    (drafts : generator.draftFrom found loaded world = .ok draft reached) :
    draft.descriptor = loaded := by
  unfold draftFrom at drafts
  simp only [Hook.apply_of_plain plain, bind_assoc, pure_bind] at drafts
  obtain ⟨data, extended, -, drafts⟩ := Action.bind_eq_ok_iff.1 drafts
  cases drafts
  rfl

theorem realize_endingWith (named : reference ≠ "")
    (imports : generator.registry.Imports reference)
    (keeps : generator.registry.Keeps reference) {draft : Draft}
    (plain : draft.descriptor.IsPlain) (world : World) :
    EndsAlike generator.registry reference (generator.realize draft world)
      (generator.realize
        { draft with descriptor := draft.descriptor.endingWith reference } world) := by
  unfold realize
  have same : generator.build { draft with descriptor := draft.descriptor.endingWith reference } =
      generator.build draft := rfl
  rw [same]
  cases builds : generator.build draft world with
  | error failure reached =>
      rw [Action.bind_error builds, Action.bind_error builds]
      exact .failed failure reached
  | ok built reached =>
      obtain ⟨fault?, events, finishes, answers, stage⟩ :=
        Hook.finish_endingWith named imports keeps draft.data draft.descriptor reached
      have idle : Hook.finish generator.registry draft.data draft.descriptor reached =
          .ok none reached := by
        simp only [Hook.finish, plain.noPostHook]
        rfl
      rw [Action.bind_ok builds, Action.bind_ok builds]
      simp only
      rw [Action.bind_ok idle, Action.bind_ok finishes]
      exact .created _ reached fault? events answers stage

theorem generateWith_endingWith (named : reference ≠ "")
    (imports : generator.registry.Imports reference)
    (keeps : generator.registry.Keeps reference) {options : Data} {world : World}
    (plain : generator.ReadsPlain options world) :
    EndsAlike generator.registry reference (generator.generate options world)
      (generator.generateWith (Descriptor.endingWith reference) options world) := by
  rw [← generateWith_id]
  unfold generateWith
  cases finds : generator.find options world with
  | error failure reached =>
      rw [Action.bind_error finds, Action.bind_error finds]
      exact .failed failure reached
  | ok found located =>
      rw [Action.bind_ok finds, Action.bind_ok finds]
      cases loads : Descriptor.load found.2.descriptor located with
      | error failure reached =>
          rw [Action.bind_error loads, Action.bind_error loads]
          exact .failed failure reached
      | ok loaded read =>
          have bare := plain loaded read ((Action.bind_ok finds _).trans loads)
          rw [Action.bind_ok loads, Action.bind_ok loads, draftFrom_endingWith bare, id]
          cases drafts : generator.draftFrom found loaded read with
          | error failure reached =>
              rw [bind_assoc, Action.bind_error drafts, Action.bind_error drafts]
              exact .failed failure reached
          | ok draft reached =>
              have same := draftFrom_descriptor bare drafts
              subst same
              rw [bind_assoc, Action.bind_ok drafts, Action.bind_ok drafts, pure_bind]
              exact realize_endingWith named imports keeps bare reached

end Generator

end Project

namespace Command.Setup

open Archetype.Project (Generator)
open Archetype.Template (Descriptor)

def ReadsPlain (setup : Setup) (arguments : List String) (world : World) : Prop :=
  ∀ request generator options, Request.parse arguments = .ok request →
    setup.order request (Path.fromRoot world.disk.current) = .ok (generator, options) →
      generator.ReadsPlain options world

instance (setup : Setup) (arguments : List String) (world : World) :
    Decidable (setup.ReadsPlain arguments world) :=
  match parses : Request.parse arguments with
  | .error stop => .isTrue fun _ _ _ same _ => by rw [parses] at same; cases same
  | .ok request =>
    match orders : setup.order request (Path.fromRoot world.disk.current) with
    | .error failure => .isTrue fun _ _ _ same ordered => by
      rw [parses] at same; cases same; rw [orders] at ordered; cases ordered
    | .ok (generator, options) =>
      decidable_of_iff (generator.ReadsPlain options world)
        ⟨fun plain _ _ _ same ordered => by
          rw [parses] at same; cases same; rw [orders] at ordered; cases ordered; exact plain,
          fun plain => plain request generator options parses orders⟩

variable {setup : Setup} {reference : String}

theorem createWith_endingWith (named : reference ≠ "")
    (imports : setup.registry.Imports reference) (keeps : setup.registry.Keeps reference)
    {arguments : List String} {world : World} (plain : setup.ReadsPlain arguments world)
    {request : Request} (parses : Request.parse arguments = .ok request) :
    Project.EndsAlike setup.registry reference (setup.create request world)
      (setup.createWith (Descriptor.endingWith reference) request world) := by
  rw [create_eq, createWith_eq, createWith_eq]
  cases orders : setup.order request (Path.fromRoot world.disk.current) with
  | error failure => exact .failed failure world
  | ok ordered =>
      obtain ⟨generator, options⟩ := ordered
      obtain ⟨-, -, -, same, -⟩ := order_eq_ok orders
      simp only
      rw [← same] at imports keeps ⊢
      rw [Generator.generateWith_id]
      exact Generator.generateWith_endingWith named imports keeps
        (plain request generator options parses orders)

theorem runWith_endingWith (named : reference ≠ "")
    (imports : setup.registry.Imports reference) (keeps : setup.registry.Keeps reference)
    {arguments : List String} {world : World} (plain : setup.ReadsPlain arguments world) :
    (setup.runWith (Descriptor.endingWith reference) arguments world).1.status =
        (setup.run arguments world).1.status ∧
      (setup.runWith (Descriptor.endingWith reference) arguments world).2.2.disk =
        (setup.run arguments world).2.2.disk := by
  unfold run runWith
  cases parses : Request.parse arguments with
  | error stop => cases stop <;> exact ⟨rfl, rfl⟩
  | ok request =>
      have alike := createWith_endingWith named imports keeps plain parses
      simp only
      generalize setup.create request world = without at alike ⊢
      generalize setup.createWith (Descriptor.endingWith reference) request world = ended
        at alike ⊢
      cases alike with
      | failed failure reached => exact ⟨rfl, rfl⟩
      | created result reached fault? events answers stage => exact ⟨rfl, rfl⟩

end Command.Setup

namespace Project

open Archetype.Template (Descriptor)

/-- A last hook that is added to a template without such hooks changes nothing but what it comes to
itself: the descriptor file reads as before; a generation ends in the same failure, or in the same
result, with the hook's fault beside it; and the command ends with the same status. -/
theorem last_hook_never_counts {reference : String} (named : reference ≠ "") :
    (∀ path value added, Descriptor.Ends reference value added →
      Descriptor.ofFileValue path added =
        (Descriptor.ofFileValue path value).map (Descriptor.endingWith reference)) ∧
    (∀ (generator : Generator) options world, generator.registry.Imports reference →
      generator.registry.Keeps reference → generator.ReadsPlain options world →
        EndsAlike generator.registry reference (generator.generate options world)
          (generator.generateWith (Descriptor.endingWith reference) options world)) ∧
    ∀ (setup : Command.Setup) arguments world, setup.registry.Imports reference →
      setup.registry.Keeps reference → setup.ReadsPlain arguments world →
        (setup.runWith (Descriptor.endingWith reference) arguments world).1.status =
            (setup.run arguments world).1.status ∧
          (setup.runWith (Descriptor.endingWith reference) arguments world).2.2.disk =
            (setup.run arguments world).2.2.disk :=
  ⟨fun path _ _ ends => Descriptor.ofFileValue_ends ends path,
    fun _ _ _ imports keeps plain => Generator.generateWith_endingWith named imports keeps plain,
    fun _ _ _ imports keeps plain => Command.Setup.runWith_endingWith named imports keeps plain⟩

def stopping : Hook.Function :=
  ⟨"stop", fun _ disk => (.error (.other "stopped" []), disk)⟩

def stoppingSetup : Command.Setup where
  environment := ⟨∅, ⟨some "/home", fun _ => none⟩, some "jane", ⟨2024, 3, 9⟩⟩
  resolver _ := ⟨fun _ => return none, fun _ _ => return none, fun _ _ _ => return .ofText "/"⟩
  registered := Table.ofList [("stop", .function stopping)]
  resources := [.ofText "/t"]

def stoppingArguments : List String :=
  ["create", "acme/base", "acme/tool", "--target-dir", "/out"]

def templateWorld : World where
  disk := .holding
    [(["t"], .directory), (["t", "acme"], .directory), (["t", "acme", "base"], .directory),
      (["t", "acme", "base", "template.yaml"], .file "level: low".toUTF8 false),
      (["t", "acme", "base", "root"], .directory),
      (["t", "acme", "base", "root", "one.txt"], .file "\x7b\x7bmain\x7d\x7d".toUTF8 false)]
    [] []

theorem last_hook_stops_after_copying :
    "stop" ≠ "" ∧
      (stoppingSetup.runWith (Descriptor.endingWith "stop") stoppingArguments templateWorld).1.status =
        0 ∧
      (stoppingSetup.runWith (Descriptor.endingWith "stop") stoppingArguments
        templateWorld).2.2.disk.node? ["out", "one.txt"] = some (.file "tool".toUTF8 false) := by
  have imports : stoppingSetup.registry.Imports "stop" := fun seeks =>
    absurd seeks.unregistered (by decide +kernel)
  have keeps : stoppingSetup.registry.Keeps "stop" := by
    intro function resolves arguments disk
    have resolved : stoppingSetup.registry.resolve "stop" = .ok (.function stopping) := rfl
    rw [resolved] at resolves
    cases resolves
    rfl
  have plain : stoppingSetup.ReadsPlain stoppingArguments templateWorld := by decide +kernel
  obtain ⟨status, disk⟩ := (last_hook_never_counts (show "stop" ≠ "" by decide)).2.2
    stoppingSetup stoppingArguments templateWorld imports keeps plain
  have ran : (stoppingSetup.run stoppingArguments templateWorld).1.status = 0 ∧
      (stoppingSetup.run stoppingArguments templateWorld).2.2.disk.node? ["out", "one.txt"] =
        some (.file "tool".toUTF8 false) := by
    decide +kernel
  rw [status, disk]
  exact ⟨by decide, ran⟩

end Project

end Archetype
