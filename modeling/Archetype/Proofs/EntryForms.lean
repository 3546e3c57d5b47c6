import Archetype.Proofs.Tables
import Archetype.Template.Entry
import Mathlib.Data.List.Nodup

namespace Archetype

namespace Shape

variable {α β : Type}

theorem all_map_ok {values : List α} {read : α → Shaped β} {result : α → β}
    (reads : ∀ value ∈ values, read value = .ok (result value)) :
    all (values.map read) = .ok (values.map result) := by
  induction values with
  | nil => rfl
  | cons value values ih =>
      obtain ⟨here, later⟩ := List.forall_mem_cons.1 reads
      rw [List.map_cons, all, here, ih later]
      rfl

/-! ## Fields by name -/

section Fields

variable {entries other : List (Value × Value)} {name : String}

theorem find?_eq_some_iff (distinct : (entries.map (·.1)).Nodup) {value : Value} :
    find? name entries = some value ↔ (.text name, value) ∈ entries := by
  induction entries with
  | nil => simp [find?]
  | cons entry rest ih =>
      obtain ⟨key, held⟩ := entry
      obtain ⟨apart, rest_distinct⟩ := List.nodup_cons.1 distinct
      by_cases here : key = .text name
      · subst here
        have later : (.text name, value) ∉ rest := fun member =>
          apart (List.mem_map.2 ⟨_, member, rfl⟩)
        simp [find?, later, eq_comm]
      · have passed : find? name ((key, held) :: rest) = find? name rest := by
          simp [find?, here]
        rw [passed, ih rest_distinct]
        simp [Ne.symm here]

theorem find?_perm (perm : entries.Perm other) (distinct : (other.map (·.1)).Nodup) :
    find? name entries = find? name other := by
  have entries_distinct : (entries.map (·.1)).Nodup := (perm.map Prod.fst).nodup_iff.2 distinct
  refine Option.ext fun value => ?_
  rw [find?_eq_some_iff entries_distinct, find?_eq_some_iff distinct, perm.mem_iff]

theorem names_ok {accept : String → Bool}
    (accepted : ∀ entry ∈ entries, ∃ name, entry.1 = .text name ∧ accept name = true) :
    names accept entries = .ok () := by
  refine congrArg (Except.map fun _ => ())
    (@all_map_ok _ _ entries _ (fun _ => ()) fun entry member => ?_)
  obtain ⟨name, named, accepts⟩ := accepted entry member
  simp only [named, accepts, if_true]

end Fields

def fieldsOf (parts : List (String × Option Value)) : List (Value × Value) :=
  parts.filterMap fun part => part.2.map fun value => (.text part.1, value)

theorem fieldsOf_append (parts others : List (String × Option Value)) :
    fieldsOf (parts ++ others) = fieldsOf parts ++ fieldsOf others :=
  List.filterMap_append

theorem mem_fieldsOf {parts : List (String × Option Value)} {entry : Value × Value} :
    entry ∈ fieldsOf parts ↔ ∃ name value, (name, some value) ∈ parts ∧
      entry = (.text name, value) := by
  rw [fieldsOf, List.mem_filterMap]
  constructor
  · rintro ⟨⟨name, value?⟩, member, same⟩
    obtain ⟨value, rfl, rfl⟩ := Option.map_eq_some_iff.1 same
    exact ⟨name, value, member, rfl⟩
  · rintro ⟨name, value, member, rfl⟩
    exact ⟨_, member, rfl⟩

theorem distinct_fieldsOf {parts : List (String × Option Value)}
    (distinct : (parts.map (·.1)).Nodup) : ((fieldsOf parts).map (·.1)).Nodup := by
  have names : ((fieldsOf parts).map (·.1)).Sublist ((parts.map (·.1)).map Value.text) := by
    clear distinct
    induction parts with
    | nil => exact List.Sublist.refl _
    | cons part parts ih =>
        obtain ⟨name, value?⟩ := part
        cases value? with
        | none => exact ih.cons _
        | some value => exact ih.cons_cons _
  exact names.nodup (distinct.map fun _ _ => Value.text.inj)

theorem find?_fieldsOf {parts : List (String × Option Value)} (distinct : (parts.map (·.1)).Nodup)
    {name : String} {value? : Option Value} (member : (name, value?) ∈ parts) :
    find? name (fieldsOf parts) = value? := by
  refine Option.ext fun value => ?_
  rw [find?_eq_some_iff (distinct_fieldsOf distinct), mem_fieldsOf]
  constructor
  · rintro ⟨other, held, inside, same⟩
    cases same
    exact congrArg Prod.snd (List.inj_on_of_nodup_map distinct member inside rfl)
  · rintro rfl
    exact ⟨_, _, member, rfl⟩

theorem field_of_perm {parts : List (String × Option Value)} {entries : List (Value × Value)}
    (perm : entries.Perm (fieldsOf parts)) (distinct : (parts.map (·.1)).Nodup) {name : String}
    {value? : Option Value} (member : (name, value?) ∈ parts) {default : Shaped α}
    {read : Value → Shaped α} {result : α} (reads : value?.elim default read = .ok result) :
    field name default read entries = .ok result := by
  rw [field, find?_perm perm (distinct_fieldsOf distinct), find?_fieldsOf distinct member]
  cases value? with
  | none => exact reads
  | some value => exact congrArg (at_ _) reads

end Shape

/-! ## Values that are read -/

def Value.ofTable (table : Table String String) : Value :=
  .map (table.entries.map fun entry => (.text entry.1, .text entry.2))

theorem Shape.textMap_ofTable (table : Table String String) :
    textMap (.ofTable table) = .ok table := by
  have reads : ∀ entry ∈ table.entries.map (fun entry => (Value.text entry.1, Value.text entry.2)),
      at_ (stepTo entry.1) (both (at_ (.name "[key]") (text entry.1)) (text entry.2)) =
        .ok (entry.1.toText, entry.2.toText) := by
    simp only [List.forall_mem_map]
    exact fun _ _ => rfl
  have kept : Table.ofList table.entries = table :=
    Table.ext (Table.entries_ofList_of_distinct _ table.distinct)
  rw [Value.ofTable, textMap, all_map_ok reads, List.map_map]
  exact congrArg Except.ok ((congrArg Table.ofList (List.map_id _)).trans kept)

namespace Template.Entry

inductive Flag
  | raw
  | only
deriving DecidableEq, Repr

def Flag.name : Flag → String
  | raw => "raw"
  | only => "only"

structure WrittenFlag where
  colons : Nat
  flag : Flag

def WrittenFlag.toText (written : WrittenFlag) : String :=
  String.ofList (List.replicate written.colons ':') ++ written.flag.name

/-- What a transform entry says. -/
structure Wording where
  source : String
  target? : Option String
  files : Table String String
  delimiters? : Option (String × String)
  flags : List WrittenFlag

def Wording.entry (wording : Wording) : Entry where
  source := wording.source
  target? := wording.target?
  files := wording.files
  delimiters? := wording.delimiters?
  raw := .raw ∈ wording.flags.map WrittenFlag.flag
  only := .only ∈ wording.flags.map WrittenFlag.flag

theorem bareFlag_toText (written : WrittenFlag) : bareFlag written.toText = written.flag.name := by
  obtain ⟨colons, flag⟩ := written
  have characters : (WrittenFlag.toText ⟨colons, flag⟩).toList =
      List.replicate colons ':' ++ flag.name.toList := by
    simp [WrittenFlag.toText]
  have name : Text.trimStart (· = ':') flag.name.toList = flag.name.toList := by
    cases flag <;> decide
  have dropped : Text.trimStart (· = ':') (List.replicate colons ':' ++ flag.name.toList) =
      flag.name.toList := by
    rw [Text.trimStart, List.dropWhile_append_of_pos (by simp)]
    exact name
  rw [bareFlag, characters, dropped, String.ofList_toList]

/-! ## Ways to write a field -/

inductive WritesTarget : Option String → Option Value → Prop
  | text (target : String) : WritesTarget (some target) (some (.text target))
  | null : WritesTarget none (some .null)
  | omitted : WritesTarget none none

inductive WritesFiles : Table String String → Option Value → Prop
  | map (files : Table String String) : WritesFiles files (some (.ofTable files))
  | omitted : WritesFiles ∅ none

inductive WritesDelimiters : Option (String × String) → Option Value → Prop
  | list (opening closing : String) :
      WritesDelimiters (some (opening, closing)) (some (.list [.text opening, .text closing]))
  | tuple (opening closing : String) :
      WritesDelimiters (some (opening, closing)) (some (.tuple [.text opening, .text closing]))
  | null : WritesDelimiters none (some .null)
  | omitted : WritesDelimiters none none

inductive WritesFlags : List WrittenFlag → Option Value → Prop
  | list (flags : List WrittenFlag) : WritesFlags flags (some (.list (flags.map (.text ·.toText))))
  | tuple (flags : List WrittenFlag) : WritesFlags flags (some (.tuple (flags.map (.text ·.toText))))
  | null : WritesFlags [] (some .null)
  | omitted : WritesFlags [] none

inductive PlacesFiles : Table String String → Option Value → Prop
  | field {files : Table String String} {value? : Option Value} (writes : WritesFiles files value?) :
      PlacesFiles files value?
  | null : PlacesFiles ∅ (some .null)

inductive PlacesDelimiters : Option (String × String) → Option Value → Prop
  | field {delimiters? : Option (String × String)} {value? : Option Value}
      (writes : WritesDelimiters delimiters? value?) : PlacesDelimiters delimiters? value?
  | emptyList : PlacesDelimiters none (some (.list []))
  | emptyTuple : PlacesDelimiters none (some (.tuple []))

namespace Wording

inductive Named (wording : Wording) (entries : List (Value × Value)) : Prop
  | intro {target? files? delimiters? flags? : Option Value}
      (target : WritesTarget wording.target? target?)
      (files : WritesFiles wording.files files?)
      (delimiters : WritesDelimiters wording.delimiters? delimiters?)
      (flags : WritesFlags wording.flags flags?)
      (perm : entries.Perm (Shape.fieldsOf [("src", some (.text wording.source)),
        ("target", target?), ("files", files?), ("delims", delimiters?), ("opts", flags?)]))

/-- The lists that a wording is written as. A target that is not there has to hold its place, unless
nothing follows it. -/
inductive Positional (wording : Wording) : List Value → Prop
  | source (target : wording.target? = none) (files : wording.files = ∅)
      (delimiters : wording.delimiters? = none) (flags : wording.flags = []) :
      Positional wording [.text wording.source]
  | places {value : Value} {files? delimiters? : Option Value}
      (target : WritesTarget wording.target? (some value))
      (files : PlacesFiles wording.files files?)
      (delimiters : PlacesDelimiters wording.delimiters? delimiters?) :
      Positional wording (.text wording.source :: value :: (files?.toList ++
        (delimiters?.toList ++ wording.flags.map (.text ·.toText))))

end Wording

/-! ## Maps -/

theorem Flag.name_injective : Function.Injective Flag.name := by
  intro first second same
  cases first <;> cases second <;> first | rfl | exact absurd same (by decide)

theorem flags_of_texts (flags : List WrittenFlag) {value : Value}
    (items : flagItems value = .ok (flags.map (.text ·.toText))) :
    Entry.flags value = .ok (decide (.raw ∈ flags.map WrittenFlag.flag),
      decide (.only ∈ flags.map WrittenFlag.flag)) := by
  have names : (flags.map fun flag => Value.text flag.toText).map (fun item => bareFlag item.toText) =
      (flags.map WrittenFlag.flag).map Flag.name := by
    simp [Value.toText, bareFlag_toText]
  have known : ((flags.map WrittenFlag.flag).map Flag.name).all ["raw", "only"].contains = true := by
    rw [List.all_map, List.all_eq_true]
    exact fun flag _ => by cases flag <;> rfl
  have told (flag : Flag) : ((flags.map WrittenFlag.flag).map Flag.name).contains flag.name =
      decide (flag ∈ flags.map WrittenFlag.flag) := by
    rw [Bool.eq_iff_iff, List.contains_iff_mem, decide_eq_true_iff,
      List.mem_map_of_injective Flag.name_injective]
  rw [Entry.flags, items]
  simp only [bind, Except.bind, names, known, if_true]
  exact congrArg Except.ok (congrArg₂ Prod.mk (told .raw) (told .only))

section Reads

variable {wording : Wording} {value? : Option Value}

theorem WritesTarget.reads (writes : WritesTarget wording.target? value?) :
    value?.elim (.ok none) Shape.text? = .ok wording.target? := by
  generalize wording.target? = target? at writes
  cases writes <;> rfl

theorem WritesFiles.reads (writes : WritesFiles wording.files value?) :
    value?.elim (.ok ∅) Shape.textMap = .ok wording.files := by
  generalize wording.files = files at writes
  cases writes with
  | map => exact Shape.textMap_ofTable files
  | omitted => rfl

theorem WritesDelimiters.reads (writes : WritesDelimiters wording.delimiters? value?) :
    value?.elim (.ok none) Shape.pair? = .ok wording.delimiters? := by
  generalize wording.delimiters? = delimiters? at writes
  cases writes <;> rfl

theorem WritesFlags.reads (writes : WritesFlags wording.flags value?) :
    value?.elim (.ok (false, false)) flags =
      .ok (decide (.raw ∈ wording.flags.map WrittenFlag.flag),
        decide (.only ∈ wording.flags.map WrittenFlag.flag)) := by
  generalize wording.flags = flags at writes
  cases writes with
  | list => exact flags_of_texts flags rfl
  | tuple => exact flags_of_texts flags rfl
  | null => rfl
  | omitted => rfl

end Reads

theorem ofMap_named {wording : Wording} {entries : List (Value × Value)}
    (named : wording.Named entries) : ofMap entries = .ok wording.entry := by
  obtain ⟨target, files, delimiters, flags, perm⟩ := named
  have distinct : fields.Nodup := by decide
  have source : Shape.field "src" (Shape.at_ (.name "src") (Shape.flaw .missing)) Shape.text entries =
      .ok wording.source :=
    Shape.field_of_perm perm distinct List.mem_cons_self rfl
  have target : Shape.field "target" (.ok none) Shape.text? entries = .ok wording.target? :=
    Shape.field_of_perm perm distinct (by simp) target.reads
  have files : Shape.field "files" (.ok ∅) Shape.textMap entries = .ok wording.files :=
    Shape.field_of_perm perm distinct (by simp) files.reads
  have delimiters : Shape.field "delims" (.ok none) Shape.pair? entries =
      .ok wording.delimiters? :=
    Shape.field_of_perm perm distinct (by simp) delimiters.reads
  have flags : Shape.field "opts" (.ok (false, false)) Entry.flags entries =
      .ok (wording.entry.raw, wording.entry.only) :=
    Shape.field_of_perm perm distinct (by simp) flags.reads
  have names : Shape.names fields.contains entries = .ok () := by
    refine Shape.names_ok fun entry member => ?_
    obtain ⟨name, value, listed, rfl⟩ := Shape.mem_fieldsOf.1 (perm.mem_iff.1 member)
    exact ⟨name, rfl, List.contains_iff_mem.2 (List.mem_map_of_mem (f := Prod.fst) listed)⟩
  rw [ofMap, source, target, files, delimiters, flags, names]
  rfl

/-! ## Lists -/

def takeFiles : List Value → List (Value × Value) × List Value
  | .null :: rest => ([(.text "files", .map [])], rest)
  | .map entries :: rest => ([(.text "files", .map entries)], rest)
  | rest => ([], rest)

def takeDelimiters : List Value → List (Value × Value) × List Value
  | .null :: rest => ([], rest)
  | .list items :: rest => (if items.isEmpty then [] else [(.text "delims", .list items)], rest)
  | .tuple items :: rest => (if items.isEmpty then [] else [(.text "delims", .tuple items)], rest)
  | rest => ([], rest)

theorem positional_eq (source target : Value) (rest : List Value) :
    positional (source :: target :: rest) =
      let (files, rest) := takeFiles rest
      let (delimiters, rest) := takeDelimiters rest
      some ((.text "src", source) :: [(.text "target", target)] ++ files ++ delimiters ++
        if rest.isEmpty then [] else [(.text "opts", .list rest)]) :=
  rfl

section Places

variable (flags : List WrittenFlag)

theorem PlacesDelimiters.takes {delimiters? : Option (String × String)} {value? : Option Value}
    (places : PlacesDelimiters delimiters? value?) :
    ∃ field?, WritesDelimiters delimiters? field? ∧
      takeDelimiters (value?.toList ++ flags.map (.text ·.toText)) =
        (Shape.fieldsOf [("delims", field?)], flags.map (.text ·.toText)) := by
  cases places with
  | emptyList => exact ⟨none, .omitted, rfl⟩
  | emptyTuple => exact ⟨none, .omitted, rfl⟩
  | field writes =>
      cases writes with
      | list opening closing => exact ⟨_, .list opening closing, rfl⟩
      | tuple opening closing => exact ⟨_, .tuple opening closing, rfl⟩
      | null => exact ⟨none, .omitted, rfl⟩
      | omitted => exact ⟨none, .omitted, by cases flags <;> rfl⟩

theorem PlacesFiles.takes {files : Table String String} {delimiters? : Option (String × String)}
    {files? value? : Option Value} (places : PlacesFiles files files?)
    (others : PlacesDelimiters delimiters? value?) :
    ∃ field? rest?, WritesFiles files field? ∧ PlacesDelimiters delimiters? rest? ∧
      takeFiles (files?.toList ++ (value?.toList ++ flags.map (.text ·.toText))) =
        (Shape.fieldsOf [("files", field?)], rest?.toList ++ flags.map (.text ·.toText)) := by
  cases places with
  | null => exact ⟨_, value?, .map ∅, others, rfl⟩
  | field writes =>
      cases writes with
      | map => exact ⟨_, value?, .map files, others, rfl⟩
      | omitted =>
          cases others with
          | emptyList => exact ⟨none, _, .omitted, .emptyList, rfl⟩
          | emptyTuple => exact ⟨none, _, .omitted, .emptyTuple, rfl⟩
          | field writes =>
              cases writes with
              | list opening closing => exact ⟨none, _, .omitted, .field (.list opening closing), rfl⟩
              | tuple opening closing =>
                  exact ⟨none, _, .omitted, .field (.tuple opening closing), rfl⟩
              | null => exact ⟨_, none, .map ∅, .field .omitted, rfl⟩
              | omitted => exact ⟨none, none, .omitted, .field .omitted, by cases flags <;> rfl⟩

end Places

theorem writesFlags_field (flags : List WrittenFlag) :
    ∃ field?, WritesFlags flags field? ∧ Shape.fieldsOf [("opts", field?)] =
      if (flags.map (Value.text ·.toText)).isEmpty then []
      else [(.text "opts", .list (flags.map (.text ·.toText)))] := by
  cases flags with
  | nil => exact ⟨none, .omitted, rfl⟩
  | cons flag flags => exact ⟨_, .list (flag :: flags), rfl⟩

theorem positional_named {wording : Wording} {items : List Value}
    (worded : wording.Positional items) :
    ∃ entries, positional items = some entries ∧ wording.Named entries := by
  obtain ⟨source, target?, files, delimiters?, flags⟩ := wording
  cases worded with
  | source target files delimiters flags =>
      cases target
      cases files
      cases delimiters
      cases flags
      exact ⟨_, rfl, .intro .omitted .omitted .omitted .omitted (List.Perm.refl _)⟩
  | @places target _ _ writes_target files delimiters =>
      obtain ⟨files?, _, writes_files, delimiters, takes_files⟩ := files.takes flags delimiters
      obtain ⟨delimiters?, writes_delimiters, takes_delimiters⟩ := delimiters.takes flags
      obtain ⟨flags?, writes_flags, flags_field⟩ := writesFlags_field flags
      refine ⟨Shape.fieldsOf ([("src", some (.text source)), ("target", some target)] ++
        [("files", files?)] ++ [("delims", delimiters?)] ++ [("opts", flags?)]), ?_,
        .intro writes_target writes_files writes_delimiters writes_flags (List.Perm.refl _)⟩
      rw [positional_eq, takes_files]
      dsimp only
      rw [takes_delimiters]
      dsimp only
      rw [← flags_field, Shape.fieldsOf_append, Shape.fieldsOf_append, Shape.fieldsOf_append]
      rfl

/-- All forms of a wording are read as the entry that it means: lists by position, whichever of the
places that say nothing are held or left out, and maps of its fields. -/
theorem ofValue_worded (wording : Wording) :
    (∀ items, wording.Positional items →
      ofValue (.list items) = .ok wording.entry ∧ ofValue (.tuple items) = .ok wording.entry) ∧
    ∀ entries, wording.Named entries → ofValue (.map entries) = .ok wording.entry := by
  refine ⟨fun items worded => ?_, fun entries named => ofMap_named named⟩
  obtain ⟨entries, stands, named⟩ := positional_named worded
  have read : ofSequence items = .ok wording.entry := by
    rw [ofSequence, stands]
    exact ofMap_named named
  exact ⟨read, read⟩

theorem ofValue_worded_delimiters :
    let delimiters : Value := .list [.text "<<", .text ">>"]
    let entry : Entry := { source := "src", delimiters? := some ("<<", ">>"), raw := true }
    ofValue (.list [.text "src", .null, delimiters, .text "::raw", .text "raw"]) = .ok entry ∧
      ofValue (.map [(.text "opts", .list [.text "::raw", .text "raw"]), (.text "delims", delimiters),
        (.text "src", .text "src")]) = .ok entry := by
  intro delimiters entry
  let wording : Wording := ⟨"src", none, ∅, some ("<<", ">>"), [⟨2, .raw⟩, ⟨0, .raw⟩]⟩
  have texts : wording.flags.map (Value.text ·.toText) = [.text "::raw", .text "raw"] := by decide
  have files : PlacesFiles wording.files none := .field .omitted
  have written : PlacesDelimiters wording.delimiters? (some delimiters) := .field (.list "<<" ">>")
  have placed := Wording.Positional.places .null files written
  have named : wording.Named [(.text "opts", .list (wording.flags.map (.text ·.toText))),
      (.text "delims", delimiters), (.text "src", .text "src")] :=
    .intro .omitted .omitted (.list "<<" ">>") (.list _) (List.reverse_perm _).symm
  rw [texts] at placed named
  exact ⟨((ofValue_worded wording).1 _ placed).1, (ofValue_worded wording).2 _ named⟩

end Template.Entry

end Archetype
