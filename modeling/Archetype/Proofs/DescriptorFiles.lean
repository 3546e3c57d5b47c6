import Archetype.Proofs.CleanNames
import Archetype.Proofs.BundledTemplate

namespace Archetype

namespace Disk

variable {disk : Disk} {path : Path}

theorem read_eq_ok_iff {content : ByteArray} {executable : Bool} :
    disk.read (.path path) = .ok (content, executable) ↔
      disk.find? path = some (.file content executable) := by
  simp only [read, locateName, find?, bind, Except.bind]
  cases disk.locate true path with
  | error refused => simp only [reduceCtorEq]
  | ok place =>
      dsimp only
      rcases disk.node? place with _ | ⟨⟨held, flag⟩ | _ | target⟩
      · simp only [reduceCtorEq]
      · simp only [pure, Except.pure, Except.ok.injEq, Prod.mk.injEq, Option.some.injEq,
          Node.file.injEq]
      · simp only [reduceCtorEq, Option.some.injEq]
      · simp only [reduceCtorEq, Option.some.injEq]

theorem read_of_unclean (unclean : ¬ path.Clean) :
    disk.read (.path path) = .error .nullCharacter := by
  have null : hasNull path.segments = true := (Bool.not_eq_false _).mp unclean
  simp only [read, locateName, locate, locateFrom, null, if_true, bind, Except.bind]

end Disk

def Value.holdsItems : Value → Bool
  | .text _ | .bytes _ | .list _ | .tuple _ | .set _ | .map _ => true
  | _ => false

namespace Shape

variable {α β : Type}

def itemless? : Shaped α → Option String
  | .error (.noItems kind) => some kind
  | _ => none

@[simp] theorem itemless?_ok (value : α) : itemless? (.ok value) = none := rfl

@[simp] theorem itemless?_flaw (found : Flaw) : itemless? (flaw found : Shaped α) = none := rfl

@[simp] theorem itemless?_at (step : Step) (part : Shaped α) :
    itemless? (at_ step part) = itemless? part := by
  match part with
  | .ok _ | .error (.violations _) | .error (.noItems _) => rfl

@[simp] theorem itemless?_map (next : α → β) (part : Shaped α) :
    itemless? (part.map next) = itemless? part := by
  match part with
  | .ok _ | .error (.violations _) | .error (.noItems _) => rfl

theorem itemless?_bind {next : α → Shaped β} (ends : ∀ value, itemless? (next value) = none)
    (part : Shaped α) : itemless? (part >>= next) = itemless? part := by
  match part with
  | .ok value => exact ends value
  | .error (.violations _) | .error (.noItems _) => rfl

@[simp] theorem itemless?_both (first : Shaped α) (second : Shaped β) :
    itemless? (both first second) = (itemless? first).or (itemless? second) := by
  match first, second with
  | .ok _, .ok _ | .ok _, .error (.violations _) | .ok _, .error (.noItems _)
  | .error (.violations _), .ok _ | .error (.violations _), .error (.violations _)
  | .error (.violations _), .error (.noItems _)
  | .error (.noItems _), .ok _ | .error (.noItems _), .error (.violations _)
  | .error (.noItems _), .error (.noItems _) => rfl

@[simp] theorem itemless?_all (parts : List (Shaped α)) :
    itemless? (all parts) = parts.findSome? itemless? := by
  induction parts with
  | nil => rfl
  | cons part parts ih =>
      rw [all, itemless?_map, itemless?_both, ih, List.findSome?_cons]
      cases itemless? part <;> rfl

theorem itemless?_items (read : Value → Shaped α) (values : List Value) :
    itemless? (items read values) = values.findSome? (itemless? ∘ read) := by
  have each : itemless? ∘ (fun entry : Value × Nat => at_ (.number entry.2) (read entry.1)) =
      (itemless? ∘ read) ∘ Prod.fst :=
    funext fun entry => itemless?_at _ _
  rw [items, itemless?_all, List.findSome?_map, each, ← List.findSome?_map,
    List.zipIdx_map_fst]

theorem itemless?_list (read : Value → Shaped α) (value : Value) :
    itemless? (list read value) =
      (sequence? value).bind fun values => values.findSome? (itemless? ∘ read) := by
  unfold list
  cases sequence? value with
  | none => rfl
  | some values => exact itemless?_items read values

theorem itemless?_field (name : String) (default : Shaped α) (read : Value → Shaped α)
    (entries : List (Value × Value)) : itemless? (field name default read entries) =
      (find? name entries).elim (itemless? default) (itemless? ∘ read) := by
  unfold field
  cases find? name entries with
  | none => rfl
  | some value => exact itemless?_at _ _

theorem itemless?_field_of_none {name : String} {default : Shaped α} {read : Value → Shaped α}
    (absent : itemless? default = none) (given : ∀ value, itemless? (read value) = none)
    (entries : List (Value × Value)) : itemless? (field name default read entries) = none := by
  rw [itemless?_field]
  cases find? name entries with
  | none => exact absent
  | some value => exact given value

@[simp] theorem itemless?_text (value : Value) : itemless? (text value) = none := by
  unfold text
  split
  · rfl
  · split <;> rfl
  · rfl

@[simp] theorem itemless?_text? (value : Value) : itemless? (text? value) = none := by
  unfold text?
  split
  · rfl
  · exact (itemless?_map _ _).trans (itemless?_text value)

@[simp] theorem itemless?_pair (value : Value) : itemless? (pair value) = none := by
  unfold pair
  cases sequence? value with
  | none => rfl
  | some values =>
      simp only [itemless?_map, itemless?_both, itemless?_at]
      split <;> split <;> split <;> simp

@[simp] theorem itemless?_pair? (value : Value) : itemless? (pair? value) = none := by
  unfold pair?
  split
  · rfl
  · exact (itemless?_map _ _).trans (itemless?_pair value)

@[simp] theorem itemless?_textMap (value : Value) : itemless? (textMap value) = none := by
  unfold textMap
  split
  · rw [itemless?_map, itemless?_all, List.findSome?_eq_none_iff]
    intro part member
    obtain ⟨entry, -, rfl⟩ := List.mem_map.1 member
    simp only [itemless?_at, itemless?_both, itemless?_text, Option.or_none]
  · rfl

@[simp] theorem itemless?_names (accept : String → Bool) (entries : List (Value × Value)) :
    itemless? (names accept entries) = none := by
  rw [names, itemless?_map, itemless?_all, List.findSome?_eq_none_iff]
  intro part member
  obtain ⟨entry, -, rfl⟩ := List.mem_map.1 member
  split
  · split <;> rfl
  · exact itemless?_at _ _

end Shape

namespace Template

open Archetype.Shape (itemless?)

namespace Entry

def itemlessFlags? : Value → Option String
  | .map entries => (Shape.find? "opts" entries).bind fun flags =>
    if flags = .null ∨ flags.holdsItems then none else some flags.fullKind
  | _ => none

theorem itemless?_flags (value : Value) : itemless? (flags value) =
    if value = .null ∨ value.holdsItems then none else some value.fullKind := by
  unfold flags
  rw [Shape.itemless?_bind fun items => by dsimp only; split <;> rfl]
  cases value <;> rfl

theorem itemless?_ofMap (entries : List (Value × Value)) :
    itemless? (ofMap entries) = itemlessFlags? (.map entries) := by
  have source : itemless? (Shape.field "src" (Shape.at_ (.name "src") (Shape.flaw .missing))
      Shape.text entries) = none :=
    Shape.itemless?_field_of_none (by simp) Shape.itemless?_text entries
  have target : itemless? (Shape.field "target" (.ok none) Shape.text? entries) = none :=
    Shape.itemless?_field_of_none rfl Shape.itemless?_text? entries
  have files : itemless? (Shape.field "files" (.ok ∅) Shape.textMap entries) = none :=
    Shape.itemless?_field_of_none rfl Shape.itemless?_textMap entries
  have delimiters : itemless? (Shape.field "delims" (.ok none) Shape.pair? entries) = none :=
    Shape.itemless?_field_of_none rfl Shape.itemless?_pair? entries
  simp only [ofMap, Shape.itemless?_map, Shape.itemless?_both, source, target, files, delimiters,
    Shape.itemless?_names, Option.none_or, Option.or_none]
  rw [Shape.itemless?_field, itemlessFlags?]
  cases Shape.find? "opts" entries with
  | none => rfl
  | some value => exact itemless?_flags value

theorem list_of_positional {items : List Value} {entries : List (Value × Value)}
    (places : positional items = some entries) {entry : Value × Value} (member : entry ∈ entries)
    (named : entry.1 = .text "opts") : ∃ flags, entry.2 = .list flags := by
  cases items with
  | nil => cases places
  | cons source rest =>
      simp only [positional, Option.some.injEq] at places
      subst places
      simp only [List.mem_append, List.mem_cons] at member
      rcases member with (((rfl | target) | files) | delimiters) | flags
      · simp at named
      · obtain ⟨value, -, rfl⟩ := List.mem_map.1 target
        simp at named
      · split at files <;> simp_all
      · split at delimiters <;> simp_all
      · rw [List.mem_ite_nil_left, List.mem_singleton] at flags
        exact ⟨_, congrArg Prod.snd flags.2⟩

theorem itemless?_ofSequence (items : List Value) : itemless? (ofSequence items) = none := by
  unfold ofSequence
  cases places : positional items with
  | none => rfl
  | some entries =>
      rw [itemless?_ofMap, itemlessFlags?]
      cases found : Shape.find? "opts" entries with
      | none => rfl
      | some value =>
          obtain ⟨entry, hit, rfl⟩ := Option.map_eq_some_iff.1 found
          have named := List.find?_some hit
          obtain ⟨flags, given⟩ := list_of_positional places (List.mem_of_find?_eq_some hit)
            (of_decide_eq_true named)
          rw [given]
          rfl

theorem itemless?_ofValue (value : Value) : itemless? (ofValue value) = itemlessFlags? value := by
  unfold ofValue
  split
  · exact itemless?_ofSequence _
  · exact itemless?_ofSequence _
  · exact itemless?_ofMap _
  · rename_i others
    cases value with
    | map entries => exact absurd rfl (others entries)
    | _ => rfl

end Entry

namespace Descriptor

def itemlessFlags? (entries : List (Value × Value)) : Option String :=
  ((Shape.find? "transform" entries).bind Shape.sequence?).bind fun values =>
    values.findSome? Entry.itemlessFlags?

theorem itemless?_hook (name : String) (entries : List (Value × Value)) :
    itemless? (hook name entries) = none := by
  unfold hook
  cases hookName? name entries with
  | none => rfl
  | some spelling => exact Shape.itemless?_field_of_none rfl Shape.itemless?_text? entries

theorem itemless?_ofMap (entries : List (Value × Value)) :
    itemless? (ofMap entries) = itemlessFlags? entries := by
  have description : itemless? (Shape.field "description" (.ok none) Shape.text? entries) = none :=
    Shape.itemless?_field_of_none rfl Shape.itemless?_text? entries
  have root : itemless? (Shape.field "root" (.ok none) (fun value => (Shape.text value).map some)
      entries) = none :=
    Shape.itemless?_field_of_none rfl (by simp) entries
  simp only [ofMap, Shape.itemless?_map, Shape.itemless?_both, description, root, itemless?_hook,
    Shape.itemless?_names, Option.none_or, Option.or_none]
  rw [Shape.itemless?_field, itemlessFlags?]
  cases Shape.find? "transform" entries with
  | none => rfl
  | some value =>
      have each : itemless? ∘ Entry.ofValue = Entry.itemlessFlags? :=
        funext Entry.itemless?_ofValue
      rw [Option.elim_some, Function.comp_apply, Shape.itemless?_list, each, Option.bind_some]

inductive Reported {α : Type} (path : Path) : Except Failure α → Prop
  | ok (value : α) : Reported path (.ok value)
  | fault {cause : Cause} (stage : cause.stage = .descriptor) :
      Reported path (.error (.of cause (some path.toText)))

variable {path : Path}

theorem ofFileValue_of_itemless {entries : List (Value × Value)} {kind : String}
    (itemless : itemlessFlags? entries = some kind) :
    ofFileValue path (.map entries) = .error (.noItems kind) := by
  rw [← itemless?_ofMap] at itemless
  simp only [ofFileValue]
  match fails : ofMap entries with
  | .ok _ | .error (.violations _) => rw [fails] at itemless; cases itemless
  | .error (.noItems _) =>
      rw [fails] at itemless
      cases itemless
      rfl

theorem reported_ofFileValue {value : Value}
    (counted : ∀ entries, value = .map entries → itemlessFlags? entries = none) :
    Reported path (ofFileValue path value) := by
  unfold ofFileValue
  split
  · exact .ok _
  · rename_i entries
    have counted := counted entries rfl
    rw [← itemless?_ofMap] at counted
    match fails : ofMap entries with
    | .ok _ => exact .ok _
    | .error (.violations _) => exact .fault rfl
    | .error (.noItems _) => rw [fails] at counted; cases counted
  · exact .fault rfl

def HoldsText (disk : Disk) (path : Path) (text : String) : Prop :=
  ∃ content executable, disk.find? path = some (.file content executable) ∧
    String.fromUTF8? content = some text

/-- The failures of the loading of a descriptor that are not reported with its path. -/
inductive Strays (disk : Disk) (path : Path) : Failure → Prop
  | nullCharacter (unclean : ¬ path.Clean) : Strays disk path .nullCharacter
  | notText {content : ByteArray} {executable : Bool}
      (file : disk.find? path = some (.file content executable))
      (other : String.fromUTF8? content = none) : Strays disk path .notText
  | reading {text : String} {error : ReadingError} (holds : HoldsText disk path text)
      (reads : Yaml.read text = .error (.reading error)) : Strays disk path (.reading error)
  | noItems {text : String} {entries : List (Value × Value)} {kind : String}
      (holds : HoldsText disk path text) (reads : Yaml.read text = .ok (.map entries))
      (itemless : itemlessFlags? entries = some kind) : Strays disk path (.noItems kind)

def ofContent (path : Path) (content : ByteArray) : Except Failure Descriptor := do
  ofFileValue path (← readDescriptorFile path content)

theorem ofContent_of_ok {content : ByteArray} {text : String}
    (decodes : String.fromUTF8? content = some text) {value : Value}
    (reads : Yaml.read text = .ok value) : ofContent path content = ofFileValue path value := by
  simp only [ofContent, readDescriptorFile, decodes, reads, bind, Except.bind]

theorem ofContent_of_error {content : ByteArray} {text : String}
    (decodes : String.fromUTF8? content = some text) {error : Yaml.Error}
    (reads : Yaml.read text = .error error) :
    ofContent path content = .error (match error with
      | .malformed => .of (.malformed path.toText) (some path.toText)
      | .reading error => .reading error) := by
  cases error <;> simp only [ofContent, readDescriptorFile, decodes, reads, bind, Except.bind]

theorem load_eq (path : Path) (world : World) :
    load path world = match world.disk.read (.path path) with
      | .ok (content, _) => Action.ofExcept (ofContent path content) world
      | .error .nullCharacter => .error .nullCharacter world
      | .error (.code code) => .error (.of (.unreadable path.toText (.refused code path.toText))
          (some path.toText)) world := by
  have reads : Action.readFile (.path path) world =
      Action.granted path.toText (world.disk.read (.path path)) world := rfl
  unfold load
  simp only [bind, EStateM.bind, Action.explaining, reads]
  cases world.disk.read (.path path) with
  | ok held => rfl
  | error refused => cases refused <;> rfl

theorem load_of_file {world : World} {content : ByteArray} {executable : Bool}
    (file : world.disk.find? path = some (.file content executable)) :
    load path world = Action.ofExcept (ofContent path content) world := by
  rw [load_eq, Disk.read_eq_ok_iff.2 file]

theorem Strays.load_eq {world : World} {failure : Failure}
    (strays : Strays world.disk path failure) : load path world = .error failure world := by
  cases strays with
  | nullCharacter unclean => rw [Descriptor.load_eq, Disk.read_of_unclean unclean]
  | notText file other =>
      rw [load_of_file file]
      simp only [ofContent, readDescriptorFile, other, bind, Except.bind]
      rfl
  | reading holds reads =>
      obtain ⟨content, executable, file, decodes⟩ := holds
      rw [load_of_file file, ofContent_of_error decodes reads]
      rfl
  | noItems holds reads itemless =>
      obtain ⟨content, executable, file, decodes⟩ := holds
      rw [load_of_file file, ofContent_of_ok decodes reads, ofFileValue_of_itemless itemless]
      rfl

theorem reported_ofContent {disk : Disk} {content : ByteArray} {executable : Bool}
    (file : disk.find? path = some (.file content executable))
    (kept : ∀ failure, ¬ Strays disk path failure) : Reported path (ofContent path content) := by
  cases decodes : String.fromUTF8? content with
  | none => exact absurd (.notText file decodes) (kept _)
  | some text =>
      have holds : HoldsText disk path text := ⟨content, executable, file, decodes⟩
      cases reads : Yaml.read text with
      | error error =>
          rw [ofContent_of_error decodes reads]
          cases error with
          | malformed => exact .fault rfl
          | reading error => exact absurd (.reading holds reads) (kept _)
      | ok value =>
          rw [ofContent_of_ok decodes reads]
          refine reported_ofFileValue fun entries same => ?_
          rw [same] at reads
          cases itemless : itemlessFlags? entries with
          | none => rfl
          | some kind => exact absurd (.noItems holds reads itemless) (kept _)

theorem HoldsText.eq {disk : Disk} {text other : String} (holds : HoldsText disk path text)
    (holds_other : HoldsText disk path other) : text = other := by
  obtain ⟨content, executable, file, decodes⟩ := holds
  obtain ⟨_, _, same, decodes_other⟩ := holds_other
  cases file.symm.trans same
  exact Option.some.inj (decodes.symm.trans decodes_other)

theorem not_strays_of_read {disk : Disk} {text : String} {value : Value}
    (holds : HoldsText disk path text) (reads : Yaml.read text = .ok value)
    (counted : ∀ entries, value = .map entries → itemlessFlags? entries = none)
    (failure : Failure) : ¬ Strays disk path failure := by
  rintro (unclean | ⟨file, other⟩ | ⟨holds_other, refused⟩ | ⟨holds_other, reads_other, itemless⟩)
  · obtain ⟨_, _, file, -⟩ := holds
    exact unclean (Disk.clean_of_find? file)
  · obtain ⟨_, _, same, decodes⟩ := holds
    cases file.symm.trans same
    cases other.symm.trans decodes
  · rw [← holds.eq holds_other, reads] at refused
    cases refused
  · rw [← holds.eq holds_other, reads] at reads_other
    rw [counted _ (Except.ok.inj reads_other)] at itemless
    cases itemless

def filePath : Path := .fromRoot [descriptorFile]

def fileWorld (content : ByteArray) : World where
  disk := Disk.put ⟨∅, [], []⟩ [descriptorFile] (.file content false)

theorem find?_fileWorld (content : ByteArray) :
    (fileWorld content).disk.find? filePath = some (.file content false) := by
  rfl

theorem holdsText_fileWorld (text : String) :
    HoldsText (fileWorld text.toUTF8).disk filePath text :=
  ⟨text.toUTF8, false, find?_fileWorld _, Bundled.fromUTF8?_toUTF8 text⟩

def fileText : String := "transform: [[src, lib]]"

def fileValue : Value :=
  .map [(.text "transform", .list [.list [.text "src", .text "lib"]])]

theorem read_fileText : Yaml.read fileText = .ok fileValue := by
  apply Yaml.read_of_denotes
  decide +kernel

/-- How the loading of a descriptor ends, with the disk and the journal as they were. It ends in a
stray failure whenever there is one. Otherwise it gives a descriptor, or a fault of descriptor files
is reported with the path. -/
theorem load_ends (path : Path) (world : World) :
    (∀ failure, Strays world.disk path failure → load path world = .error failure world) ∧
      ((∀ failure, ¬ Strays world.disk path failure) →
        (∃ descriptor, load path world = .ok descriptor world) ∨
          ∃ cause : Cause, cause.stage = .descriptor ∧
            load path world = .error (.of cause (some path.toText)) world) := by
  refine ⟨fun failure => Strays.load_eq, fun kept => ?_⟩
  have clean : path.Clean := by
    by_contra unclean
    exact kept _ (.nullCharacter unclean)
  cases reads : world.disk.read (.path path) with
  | error refused =>
      rw [load_eq, reads]
      have coded : Disk.Coded (world.disk.read (.path path)) := world.disk.coded_read clean
      rw [reads] at coded
      cases coded
      exact Or.inr ⟨_, rfl, rfl⟩
  | ok found =>
      have file := Disk.read_eq_ok_iff.1 reads
      rw [load_of_file file]
      have reported := reported_ofContent file kept
      generalize ofContent path found.1 = result at reported
      cases reported with
      | ok descriptor => exact Or.inl ⟨descriptor, rfl⟩
      | fault stage => exact Or.inr ⟨_, stage, rfl⟩

theorem load_ends_single :
    load filePath (fileWorld ⟨#[0xff]⟩) = .error .notText (fileWorld ⟨#[0xff]⟩) ∧
      ((∃ descriptor,
          load filePath (fileWorld fileText.toUTF8) = .ok descriptor (fileWorld fileText.toUTF8)) ∨
        ∃ cause : Cause, cause.stage = .descriptor ∧
          load filePath (fileWorld fileText.toUTF8) =
            .error (.of cause (some filePath.toText)) (fileWorld fileText.toUTF8)) := by
  refine ⟨(load_ends _ _).1 _ (.notText (find?_fileWorld _) (by decide)), (load_ends _ _).2 ?_⟩
  refine not_strays_of_read (holdsText_fileWorld fileText) read_fileText fun entries same => ?_
  cases same
  rfl

/-- Bytes that are no text, flags without items and a month that does not exist end the loading in
failures that are none of its faults. -/
theorem load_strays :
    (load filePath).EndsIn (fileWorld ⟨#[0xff]⟩) (fun failure _ => failure = .notText) ∧
    (load filePath).EndsIn (fileWorld "transform: [{src: a, opts: 5}]".toUTF8)
      (fun failure _ => failure = .noItems "int") ∧
    (load filePath).EndsIn (fileWorld "key: 2024-13-01".toUTF8)
      (fun failure _ => failure = .reading (.calendar .month)) :=
  ⟨by decide +kernel, by decide +kernel, by decide +kernel⟩

end Descriptor

end Template

end Archetype
