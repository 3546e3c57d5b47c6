import Archetype.Project.Generation
import Archetype.Proofs.Completions
import Archetype.Proofs.Tables

namespace Archetype

/-! ## Texts as keys -/

theorem Value.key_eq_text_iff {value : Value} {characters : String} :
    value.key = .text characters ↔ value = .text characters := by
  cases value with
  | double number =>
      simp only [Value.key, reduceCtorEq, iff_false]
      cases number.toInt? <;> exact nofun
  | _ => simp [Value.key]

theorem Key.beq_text_iff {key : Key} {characters : String} :
    (key == Key.text characters) = true ↔ key.spelled = .text characters := by
  rw [Key.beq_iff]
  exact Value.key_eq_text_iff

theorem Key.text_beq_iff {key : Key} {characters : String} :
    (Key.text characters == key) = true ↔ key.spelled = .text characters := by
  rw [BEq.comm]
  exact Key.beq_text_iff

theorem Key.asText?_congr {left right : Key} (same : (left == right) = true) :
    left.spelled.asText? = right.spelled.asText? := by
  have alike := Key.beq_iff.1 same
  cases text : right.spelled with
  | text characters =>
      rw [text] at alike
      rw [Value.key_eq_text_iff.1 alike]
  | _ =>
      cases other : left.spelled with
      | text characters =>
          rw [other] at alike
          rw [Value.key_eq_text_iff.1 alike.symm] at text
          cases text
      | _ => rfl

theorem Data.get?_set (data : Data) (name : String) (value : Value) (key : Key) :
    (data.set name value).get? key =
      if key.spelled = .text name then some value else data.get? key := by
  rw [Data.set, Table.get?_insert]
  simp only [Key.text_beq_iff]

/-! ## The replacement of a placeholder -/

/-- No other entry has the placeholder of this key: none is spelled like it, and it is not the
variant of a text for namespaces or files. -/
structure Data.Unshared (data : Data) (key : Key) : Prop where
  spelling : ∀ other ∈ data.keys, other.toText = key.toText → (other == key) = true
  variant : ∀ entry ∈ data.entries, entry.2.asText?.isSome = true →
    Name.isQualified entry.1.toText = false →
      key.toText ≠ entry.1.toText ++ "/ns" ∧ key.toText ≠ entry.1.toText ++ "/file"

instance (data : Data) (key : Key) : Decidable (data.Unshared key) :=
  decidable_of_iff
    ((∀ other ∈ data.keys, other.toText = key.toText → (other == key) = true) ∧
      ∀ entry ∈ data.entries, entry.2.asText?.isSome = true →
        Name.isQualified entry.1.toText = false →
          key.toText ≠ entry.1.toText ++ "/ns" ∧ key.toText ≠ entry.1.toText ++ "/file")
    ⟨fun ⟨spelling, variant⟩ => ⟨spelling, variant⟩, fun ⟨spelling, variant⟩ =>
      ⟨spelling, variant⟩⟩

theorem Placeholder.spell_injective : Function.Injective Placeholder.spell := by
  intro left right same
  simpa [Placeholder.spell, ← String.toList_inj] using same

theorem Placeholder.mem_ofEntry_iff {key : Key} {value : Value} {placeholder text : String} :
    (placeholder, text) ∈ Placeholder.ofEntry key value ↔
      placeholder = Placeholder.spell key.toText ∧ text = Placeholder.valueText value ∨
        ∃ characters, value = .text characters ∧ Name.isQualified key.toText = false ∧
          (placeholder = Placeholder.spell (key.toText ++ "/ns") ∧
              text = Name.namespaceForm characters ∨
            placeholder = Placeholder.spell (key.toText ++ "/file") ∧
              text = Name.fileForm characters) := by
  cases value with
  | text characters =>
      cases qualified : Name.isQualified key.toText <;> simp [Placeholder.ofEntry, qualified]
  | _ => simp [Placeholder.ofEntry]

theorem Replacements.get?_ofData {data : Data} {key : Key} {value : Value}
    (member : (key, value) ∈ data.entries) (unshared : data.Unshared key) :
    (Replacements.ofData data).get? (Placeholder.spell key.toText) =
      some (Placeholder.valueText value) := by
  refine Table.get?_ofList_of_forall ?_ ?_
  · exact List.mem_flatMap.2
      ⟨(key, value), member, Placeholder.mem_ofEntry_iff.2 (Or.inl ⟨rfl, rfl⟩)⟩
  · rintro ⟨placeholder, text⟩ produced same
    obtain rfl : placeholder = Placeholder.spell key.toText := by simpa using same
    obtain ⟨⟨other, held⟩, inside, from_other⟩ := List.mem_flatMap.1 produced
    rcases Placeholder.mem_ofEntry_iff.1 from_other with
      ⟨spelled, rfl⟩ | ⟨characters, rfl, unqualified, ⟨spelled, -⟩ | ⟨spelled, -⟩⟩
    · have alike := unshared.spelling other (List.mem_map_of_mem inside)
        (Placeholder.spell_injective spelled).symm
      -- a key holds one value, however it is spelled
      have here := Table.get?_of_mem member
      have there := Table.get?_of_mem inside
      rw [Table.get?_congr alike, here] at there
      cases there
      rfl
    · exact absurd (Placeholder.spell_injective spelled)
        (unshared.variant _ inside rfl unqualified).1
    · exact absurd (Placeholder.spell_injective spelled)
        (unshared.variant _ inside rfl unqualified).2

theorem Data.unshared_of_texts {data : Data} {key : Key}
    (texts : ∀ other ∈ data.keys, ∃ characters, other.spelled = .text characters)
    (member : key ∈ data.keys)
    (variant : ∀ entry ∈ data.entries, entry.2.asText?.isSome = true →
      Name.isQualified entry.1.toText = false →
        key.toText ≠ entry.1.toText ++ "/ns" ∧ key.toText ≠ entry.1.toText ++ "/file") :
    data.Unshared key := by
  refine ⟨fun other inside same => ?_, variant⟩
  obtain ⟨characters, spelled⟩ := texts other inside
  obtain ⟨name, key_spelled⟩ := texts key member
  rw [Key.toText, Key.toText, spelled, key_spelled] at same
  rw [Key.beq_iff, spelled, key_spelled]
  exact congrArg Value.key (congrArg Value.text same)

end Archetype

namespace Archetype.Hook

open Archetype.Template (Descriptor)

/-! ## What hooks answer -/

variable {registry : Registry} {descriptor : Descriptor} {data : Data} {world reached : World}

inductive Adds (registry : Registry) (descriptor : Descriptor) (data : Data) (world : World) :
    Data → World → Prop
  | unnamed (unnamed : named? descriptor.dataHook? = none) :
      Adds registry descriptor data world ∅ world
  | nothing {reference : String} {reached : World}
      (named : named? descriptor.dataHook? = some reference)
      (answers : registry.invoke .data reference [.data data] world =
        .ok (.value .null) reached) :
      Adds registry descriptor data world ∅ reached
  | map {reference : String} {entries : List (Value × Value)} {reached : World}
      (named : named? descriptor.dataHook? = some reference)
      (answers : registry.invoke .data reference [.data data] world =
        .ok (.value (.map entries)) reached) :
      Adds registry descriptor data world (Data.ofEntries entries) reached

inductive Replaces (registry : Registry) (descriptor : Descriptor) (data : Data) (world : World) :
    Descriptor → World → Prop
  | unnamed (unnamed : named? descriptor.templateHook? = none) :
      Replaces registry descriptor data world descriptor world
  | descriptor {reference : String} {replacement : Descriptor} {reached : World}
      (named : named? descriptor.templateHook? = some reference)
      (answers : registry.invoke .template reference [.descriptor descriptor, .data data] world =
        .ok (.descriptor replacement) reached) :
      Replaces registry descriptor data world replacement reached
  | map {reference : String} {entries : List (Value × Value)} {replacement : Descriptor}
      {reached : World} (named : named? descriptor.templateHook? = some reference)
      (answers : registry.invoke .template reference [.descriptor descriptor, .data data] world =
        .ok (.value (.map entries)) reached)
      (shaped : Descriptor.ofMap entries = .ok replacement) :
      Replaces registry descriptor data world replacement reached

theorem adds_of_extendData {extended : Data}
    (ends : extendData registry descriptor data world = .ok extended reached) :
    ∃ added, Adds registry descriptor data world added reached ∧ extended = data.union added := by
  cases named : named? descriptor.dataHook? with
  | none =>
      simp only [extendData, named] at ends
      cases ends
      exact ⟨∅, .unnamed named, rfl⟩
  | some reference =>
      simp only [extendData, named] at ends
      obtain ⟨answer, between, answers, continues⟩ := Action.bind_eq_ok_iff.1 ends
      split at continues
      · cases continues
        exact ⟨∅, .nothing named answers, rfl⟩
      · cases continues
        exact ⟨_, .map named answers, rfl⟩
      · cases continues
      · cases continues

theorem ofReplacement_eq_ok_iff {reference : String} {entries : List (Value × Value)}
    {replacement : Descriptor} :
    ofReplacement reference entries = .ok replacement ↔
      Descriptor.ofMap entries = .ok replacement := by
  rw [ofReplacement]
  cases Descriptor.ofMap entries with
  | ok shaped => simp
  | error problem => cases problem <;> exact ⟨nofun, nofun⟩

theorem replaces_of_replaceDescriptor {replacement : Descriptor}
    (ends : replaceDescriptor registry descriptor data world = .ok replacement reached) :
    Replaces registry descriptor data world replacement reached := by
  cases named : named? descriptor.templateHook? with
  | none =>
      simp only [replaceDescriptor, named] at ends
      cases ends
      exact .unnamed named
  | some reference =>
      simp only [replaceDescriptor, named] at ends
      obtain ⟨answer, between, answers, continues⟩ := Action.bind_eq_ok_iff.1 ends
      split at continues
      · cases continues
        exact .descriptor named answers
      · obtain ⟨shaped, rfl⟩ := Action.ofExcept_eq_ok_iff.1 continues
        exact .map named answers (ofReplacement_eq_ok_iff.1 shaped)
      · cases continues

def descriptorValue? (descriptor : Descriptor) (key : Key) : Option Value :=
  match descriptor.description? with
  | some description =>
    if key.spelled = .text "description" then some (.text description)
    else descriptor.extras.get? key
  | none => descriptor.extras.get? key

theorem get?_defaults (descriptor : Descriptor) (key : Key) :
    descriptor.defaults.get? key = descriptorValue? descriptor key := by
  unfold Descriptor.defaults descriptorValue?
  cases descriptor.description? with
  | none => rfl
  | some description => exact Data.get?_set _ _ _ _

theorem get?_finalData (descriptor : Descriptor) (data : Data) (key : Key) :
    (finalData descriptor data).get? key =
      ((data.get? key).or (descriptorValue? descriptor key)).or
        (if key.spelled = .text "description" then some (.text (standInDescription data))
          else none) := by
  rw [finalData, Table.get?_union, Table.get?_union, get?_defaults, Data.get?_set, Option.or_assoc]
  rfl

end Archetype.Hook

namespace Archetype.Project

open Archetype.Hook

/-! ## The sources of final data -/

variable {settings : Settings} {environment : Environment} {resolver : Git.Resolver}
  {options : Data} {registry : Registry} {directory : String} {loaded final : Template.Descriptor}
  {prepared : Prepared} {data : Data} {before ready located reached : World}

def Prepared.checkoutRoots (prepared : Prepared) : List Path :=
  match prepared.checkout? with
  | some checkout => checkout.roots prepared.template.directory?
  | none => []

def Prepared.derivedData (prepared : Prepared) (settings : Settings) (environment : Environment)
    (options : Data) (token : String) : Data :=
  prepared.identity.toData.union (derived settings environment token
    (targetOf options prepared.identity) prepared.template.template prepared.checkoutRoots.head?)

structure Names (settings : Settings) (options : Data) (prepared : Prepared) (token : String) :
    Prop where
  named : (option? options "name").map Value.toText = some token
  identity : Identity.resolve settings.groupPrefix Git.address? token = .ok prepared.identity
  template : ∃ wanted, (option? options "template").map Value.toText = some wanted ∧
    Template.TemplateName.parse settings.space wanted = .ok prepared.template

theorem names_of_prepare
    (prepares : prepare settings environment resolver options before = .ok prepared ready) :
    ∃ token, Names settings options prepared token ∧
      prepared.data = (prepared.derivedData settings environment options token).union
        (passedOn options) := by
  cases has_template : option? options "template" with
  | none =>
      simp only [prepare, has_template] at prepares
      cases prepares
  | some template =>
      cases has_name : option? options "name" with
      | none =>
          simp only [prepare, has_template, has_name] at prepares
          cases prepares
      | some name =>
          simp only [prepare, has_template, has_name] at prepares
          obtain ⟨identity, _, resolves, parses⟩ := Action.bind_eq_ok_iff.1 prepares
          obtain ⟨resolved, rfl⟩ := Action.ofFault_eq_ok_iff.1 resolves
          obtain ⟨wanted, _, parse_ends, checks_out⟩ := Action.bind_eq_ok_iff.1 parses
          obtain ⟨parsed, rfl⟩ := Action.ofFault_eq_ok_iff.1 parse_ends
          obtain ⟨checkout?, _, -, returns⟩ := Action.bind_eq_ok_iff.1 checks_out
          cases returns
          have named : (option? options "name").map Value.toText = some name.toText := by
            rw [has_name, Option.map_some]
          have asked : (option? options "template").map Value.toText = some template.toText := by
            rw [has_template, Option.map_some]
          refine ⟨name.toText, ⟨named, resolved, template.toText, asked, parsed⟩, ?_⟩
          cases checkout? <;> rfl

def IsConsumed (key : Key) : Prop :=
  ∃ name ∈ consumed, key.spelled = .text name

instance (key : Key) : Decidable (IsConsumed key) :=
  inferInstanceAs (Decidable (∃ name ∈ consumed, key.spelled = .text name))

theorem get?_passedOn (options : Data) (key : Key) :
    (passedOn options).get? key = if IsConsumed key then none else options.get? key := by
  have keep_iff : (!(key.spelled.asText?.any consumed.contains)) = true ↔ ¬IsConsumed key := by
    unfold IsConsumed
    cases key.spelled <;> simp [Value.asText?]
  rw [passedOn, Table.get?_filter]
  · by_cases used : IsConsumed key
    · rw [if_neg (mt keep_iff.1 (not_not.2 used)), if_pos used]
    · rw [if_pos (keep_iff.2 used), if_neg used]
  · intro other same
    rw [Key.asText?_congr same]

structure Sources where
  added : Data
  directory : String
  options : Data
  derived : Data
  descriptor : Template.Descriptor
  standIn : String

def Sources.values (sources : Sources) (key : Key) : List (Option Value) :=
  [sources.added.get? key,
    if key.spelled = .text "template-dir" then some (.text sources.directory) else none,
    if IsConsumed key then none else sources.options.get? key,
    sources.derived.get? key,
    descriptorValue? sources.descriptor key,
    if key.spelled = .text "description" then some (.text sources.standIn) else none]

def Sources.value? (sources : Sources) (key : Key) : Option Value :=
  (sources.values key).findSome? id

theorem Sources.value?_isSome_iff (sources : Sources) (key : Key) :
    (sources.value? key).isSome = true ↔ ∃ value, some value ∈ sources.values key := by
  rw [value?, List.findSome?_isSome_iff]
  constructor
  · rintro ⟨said, member, some_value⟩
    obtain ⟨value, rfl⟩ := Option.isSome_iff_exists.1 some_value
    exact ⟨value, member⟩
  · rintro ⟨value, member⟩
    exact ⟨some value, member, rfl⟩

theorem get?_finalData_sources (sources : Sources)
    (added_over : data = (context sources.directory
      (sources.derived.union (passedOn sources.options))).union sources.added)
    (standIn : sources.standIn = standInDescription data) (key : Key) :
    (finalData sources.descriptor data).get? key = sources.value? key := by
  rw [get?_finalData, added_over, Table.get?_union, context, Data.get?_set, Table.get?_union,
    get?_passedOn, ← context, ← added_over, ← standIn]
  simp only [Sources.value?, Sources.values, List.findSome?_cons, List.findSome?_nil, id]
  cases sources.added.get? key with
  | some value => rfl
  | none =>
      by_cases here : key.spelled = .text "template-dir"
      · simp only [if_pos here]
        rfl
      · simp only [if_neg here, Option.none_or]
        cases (if IsConsumed key then none else sources.options.get? key) with
        | some value => rfl
        | none =>
            cases sources.derived.get? key with
            | some value => rfl
            | none =>
                cases descriptorValue? sources.descriptor key with
                | some value => rfl
                | none => split <;> rfl

def Prepared.sources (prepared : Prepared) (settings : Settings) (environment : Environment)
    (options : Data) (token directory : String) (added : Data) (final : Template.Descriptor) :
    Sources where
  added
  directory
  options
  derived := prepared.derivedData settings environment options token
  descriptor := final
  standIn := standInDescription ((context directory prepared.data).union added)

theorem finalData_of_sources
    (prepares : prepare settings environment resolver options before = .ok prepared ready)
    (applies : Hook.apply registry directory prepared.data loaded located =
      .ok (data, final) reached) :
    ∃ token added called, Names settings options prepared token ∧
      Adds registry loaded (context directory prepared.data) located added called ∧
      Replaces registry loaded ((context directory prepared.data).union added) called
        final reached ∧
      (∀ key, data.get? key =
        (prepared.sources settings environment options token directory added final).value? key) ∧
      (∀ key ∈ data.keys, ∃ value, some value ∈
        (prepared.sources settings environment options token directory added final).values key) ∧
      ∀ key value, (key, value) ∈ data.entries → data.Unshared key →
        data.get? key = some value ∧
          (Replacements.ofData data).get? (Placeholder.spell key.toText) =
            some (Placeholder.valueText value) := by
  obtain ⟨token, names, prepared_data⟩ := names_of_prepare prepares
  obtain ⟨extended, called, extended_ends, applies⟩ := Action.bind_eq_ok_iff.1 applies
  obtain ⟨added, adds, rfl⟩ := adds_of_extendData extended_ends
  obtain ⟨replacement, last, replaces, applies⟩ := Action.bind_eq_ok_iff.1 applies
  cases applies
  have first_counts : ∀ key,
      (finalData final ((context directory prepared.data).union added)).get? key =
        (prepared.sources settings environment options token directory added final).value? key := by
    intro key
    refine get?_finalData_sources
      (prepared.sources settings environment options token directory added final) ?_ rfl key
    rw [prepared_data]
    rfl
  refine ⟨token, added, called, names, adds, replaces_of_replaceDescriptor replaces, first_counts,
    ?_, ?_⟩
  · intro key member
    obtain ⟨⟨_, value⟩, inside, rfl⟩ := List.mem_map.1 member
    rw [← Sources.value?_isSome_iff, ← first_counts, Table.get?_of_mem inside]
    rfl
  · intro key value member unshared
    exact ⟨Table.get?_of_mem member, Replacements.get?_ofData member unshared⟩

/-! ## A template with two hooks -/

def sampleData (entries : List (String × String)) : Data :=
  Data.ofEntries (entries.map fun entry => (.text entry.1, .text entry.2))

def samplePrepare (options : List (String × String)) : Action Prepared :=
  prepare ⟨[], .ofText "/cache", "lib", "net.", "0.1.0"⟩
    ⟨∅, ⟨none, fun _ => none⟩, some "jane", ⟨2024, 3, 9⟩⟩
    ⟨fun _ => return none, fun _ _ => return none, fun _ _ _ => return .ofText "/"⟩
    (sampleData ([("template", "acme/base"), ("name", "acme/tool")] ++ options))

def sampleApply (added : List (Value × Value)) (data : Data) :
    Action (Data × Template.Descriptor) :=
  Hook.apply
    { hooks := Table.ofList [
        ("extend", .function ⟨"extend", fun _ disk => (.ok (.value (.map added)), disk)⟩),
        ("swap", .function ⟨"swap", fun _ disk => (.ok (.descriptor
          { description? := some "Swapped", extras := sampleData [("level", "low")] }), disk)⟩)] }
    "/t" data { dataHook? := some "extend", templateHook? := some "swap" }

def emptyWorld : World := ⟨⟨∅, [], []⟩, []⟩

theorem exists_of_yields (options : List (String × String)) (added : List (Value × Value))
    (wanted : Data → Prop)
    (yields : (samplePrepare options >>= fun prepared => sampleApply added prepared.data).Yields
      emptyWorld fun result => wanted result.1) :
    ∃ prepared ready data final reached, samplePrepare options emptyWorld = .ok prepared ready ∧
      sampleApply added prepared.data ready = .ok (data, final) reached ∧ wanted data := by
  obtain ⟨⟨data, final⟩, reached, ends, holds⟩ := yields
  obtain ⟨prepared, ready, prepares, applies⟩ := Action.bind_eq_ok_iff.1 ends
  exact ⟨prepared, ready, data, final, reached, prepares, applies, holds⟩

theorem finalData_of_sources_sample :
    ∃ prepared ready data final reached,
      samplePrepare [("version", "9")] emptyWorld = .ok prepared ready ∧
      sampleApply [(.text "user", .text "x")] prepared.data ready = .ok (data, final) reached ∧
      data.find? "user" = some (.text "x") ∧ data.find? "template-dir" = some (.text "/t") ∧
      data.find? "developer" = some (.text "Jane") ∧
      data.find? "description" = some (.text "Swapped") ∧
      data.find? "level" = some (.text "low") ∧ data.find? "version" = some (.text "9") ∧
      (Replacements.ofData data).get? (Placeholder.spell "version") = some "9" := by
  obtain ⟨prepared, ready, data, final, reached, prepares, applies, values, unshared,
      ⟨⟨spelled⟩, value⟩, member, rfl, rfl⟩ :=
    exists_of_yields [("version", "9")] [(.text "user", .text "x")]
      (fun data => [("user", "x"), ("template-dir", "/t"), ("developer", "Jane"),
          ("description", "Swapped"), ("level", "low"), ("version", "9")].Forall
            (fun entry => data.find? entry.1 = some (.text entry.2)) ∧
        data.Unshared (.text "version") ∧
        ∃ entry ∈ data.entries, entry.1.spelled = .text "version" ∧ entry.2 = .text "9")
      (by decide +kernel)
  obtain ⟨user, place, developer, description, level, version⟩ := values
  obtain ⟨token, added, called, names, adds, replaces, first_counts, inside, placeholders⟩ :=
    finalData_of_sources prepares applies
  exact ⟨prepared, ready, data, final, reached, prepares, applies, user, place, developer,
    description, level, version, (placeholders _ _ member unshared).2⟩

/-- A hook names an entry by the number `1`, and an option is named by the text `1`: the placeholder
of the option gets the text of the hook. -/
theorem placeholder_shared_with_number :
    ∃ prepared ready data final reached,
      samplePrepare [("1", "b")] emptyWorld = .ok prepared ready ∧
      sampleApply [(.int 1, .text "a")] prepared.data ready = .ok (data, final) reached ∧
      data.find? "1" = some (.text "b") ∧
      (∀ entry ∈ data.entries, entry.2.asText?.isSome = true →
        Name.isQualified entry.1.toText = false →
          "1" ≠ entry.1.toText ++ "/ns" ∧ "1" ≠ entry.1.toText ++ "/file") ∧
      (Replacements.ofData data).get? (Placeholder.spell "1") = some "a" :=
  exists_of_yields [("1", "b")] [(.int 1, .text "a")] _ (by decide +kernel)

end Archetype.Project
