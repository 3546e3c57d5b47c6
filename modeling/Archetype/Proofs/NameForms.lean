import Archetype.Proofs.Disk.Places
import Archetype.Template.Locate
import Archetype.Text.Replace

namespace Archetype

namespace Text

theorem replaceAll_singleton (old new : Char) (characters : List Char) :
    replaceAll [old] [new] characters =
      characters.map fun character => if character = old then new else character := by
  change replaceFrom [old] [new] 0 characters = _
  induction characters with
  | nil => rfl
  | cons character rest ih =>
      by_cases here : character = old
      · simp [replaceFrom, here, ih]
      · simp [replaceFrom, here, Ne.symm here, ih]

end Text

namespace Name

variable {name other : String}

theorem namespaceForm_eq_replace (name : String) :
    namespaceForm name = Text.replace (Text.replace name "/" ".") "_" "-" := by
  have letters : namespaceChar = (fun character => if character = '_' then '-' else character) ∘
      fun character => if character = '/' then '.' else character := by
    funext character
    by_cases slash : character = '/' <;> simp [namespaceChar, slash]
  simp [namespaceForm, Text.replace, Text.replaceAll_singleton, letters]

theorem fileForm_eq_replace (name : String) :
    fileForm name = Text.replace (Text.replace name "." "/") "-" "_" := by
  have letters : fileChar = (fun character => if character = '-' then '_' else character) ∘
      fun character => if character = '.' then '/' else character := by
    funext character
    by_cases dot : character = '.' <;> simp [fileChar, dot]
  simp [fileForm, Text.replace, Text.replaceAll_singleton, letters]

theorem namespaceForm_namespaceForm (name : String) :
    namespaceForm (namespaceForm name) = namespaceForm name :=
  calc namespaceForm (namespaceForm name)
    _ = namespaceForm (fileForm (namespaceForm name)) := (namespaceForm_fileForm _).symm
    _ = namespaceForm (fileForm name) := congrArg namespaceForm (fileForm_namespaceForm name)
    _ = namespaceForm name := namespaceForm_fileForm name

theorem fileForm_fileForm (name : String) : fileForm (fileForm name) = fileForm name :=
  calc fileForm (fileForm name)
    _ = fileForm (namespaceForm (fileForm name)) := (fileForm_namespaceForm _).symm
    _ = fileForm (namespaceForm name) := congrArg fileForm (namespaceForm_fileForm name)
    _ = fileForm name := fileForm_namespaceForm name

theorem namespaceForm_eq_iff :
    namespaceForm name = namespaceForm other ↔ fileForm name = fileForm other := by
  constructor
  · intro same
    rw [← fileForm_namespaceForm name, same, fileForm_namespaceForm]
  · intro same
    rw [← namespaceForm_fileForm name, same, namespaceForm_fileForm]

theorem exists_namespaceForm_eq_iff :
    (∃ origin, namespaceForm origin = name) ↔ namespaceForm name = name := by
  refine ⟨?_, fun fixed => ⟨name, fixed⟩⟩
  rintro ⟨origin, rfl⟩
  exact namespaceForm_namespaceForm origin

theorem exists_fileForm_eq_iff : (∃ origin, fileForm origin = name) ↔ fileForm name = name := by
  refine ⟨?_, fun fixed => ⟨name, fixed⟩⟩
  rintro ⟨origin, rfl⟩
  exact fileForm_fileForm origin

theorem ofList_map_eq_self_iff {letter : Char → Char} :
    String.ofList (name.toList.map letter) = name ↔
      ∀ character ∈ name.toList, letter character = character := by
  rw [← String.toList_inj, String.toList_ofList]
  nth_rewrite 2 [← List.map_id name.toList]
  exact List.map_inj_left

theorem namespaceChar_eq_self_iff {character : Char} :
    namespaceChar character = character ↔ character ≠ '/' ∧ character ≠ '_' := by
  unfold namespaceChar
  split
  · subst character; decide
  · split
    · subst character; decide
    · simp [*]

theorem fileChar_eq_self_iff {character : Char} :
    fileChar character = character ↔ character ≠ '.' ∧ character ≠ '-' := by
  unfold fileChar
  split
  · subst character; decide
  · split
    · subst character; decide
    · simp [*]

theorem namespaceForm_eq_self_iff :
    namespaceForm name = name ↔ '/' ∉ name.toList ∧ '_' ∉ name.toList := by
  simp only [namespaceForm, ofList_map_eq_self_iff, namespaceChar_eq_self_iff, forall_and, ne_eq,
    List.forall_mem_ne']

theorem fileForm_eq_self_iff :
    fileForm name = name ↔ '.' ∉ name.toList ∧ '-' ∉ name.toList := by
  simp only [fileForm, ofList_map_eq_self_iff, fileChar_eq_self_iff, forall_and, ne_eq,
    List.forall_mem_ne']

theorem descriptorOf_eq_iff :
    Template.descriptorOf name = Template.descriptorOf other ↔
      namespaceForm name = namespaceForm other := by
  rw [namespaceForm_eq_iff, Template.descriptorOf, Template.descriptorOf]
  simp [← String.toList_inj]

theorem find?_eq_of_namespaceForm_eq (same : namespaceForm name = namespaceForm other)
    (disk : Disk) (roots : List Path) :
    Template.find? disk roots name = Template.find? disk roots other := by
  rw [Template.find?, Template.find?, descriptorOf_eq_iff.2 same]

/-- The forms are made by replacements, two each. A form does not see which form a name had before;
so each is its own form, both tell the same names apart, and each undoes the other on the names in its
own range, those without the characters that it replaces, and on no others. Names of one namespace
form are one template wherever it is looked for. -/
theorem forms_invert_exactly_on_ranges (name other : String) :
    (namespaceForm name = Text.replace (Text.replace name "/" ".") "_" "-" ∧
      fileForm name = Text.replace (Text.replace name "." "/") "-" "_") ∧
    (fileForm (namespaceForm name) = fileForm name ∧
      namespaceForm (fileForm name) = namespaceForm name) ∧
    (fileForm (namespaceForm name) = name ↔ '.' ∉ name.toList ∧ '-' ∉ name.toList) ∧
    (namespaceForm (fileForm name) = name ↔ '/' ∉ name.toList ∧ '_' ∉ name.toList) ∧
    (fileForm (namespaceForm name) = name ↔ ∃ origin, fileForm origin = name) ∧
    (namespaceForm (fileForm name) = name ↔ ∃ origin, namespaceForm origin = name) ∧
    namespaceForm (namespaceForm name) = namespaceForm name ∧
    fileForm (fileForm name) = fileForm name ∧
    (namespaceForm name = namespaceForm other ↔ fileForm name = fileForm other) ∧
    (namespaceForm name = namespaceForm other → ∀ (disk : Disk) (roots : List Path),
      Template.find? disk roots name = Template.find? disk roots other) := by
  have absorbs := fileForm_namespaceForm name
  have absorbs_other := namespaceForm_fileForm name
  refine ⟨⟨namespaceForm_eq_replace name, fileForm_eq_replace name⟩, ⟨absorbs, absorbs_other⟩,
    ?_, ?_, ?_, ?_, namespaceForm_namespaceForm name, fileForm_fileForm name,
    namespaceForm_eq_iff, find?_eq_of_namespaceForm_eq⟩
  · rw [absorbs, fileForm_eq_self_iff]
  · rw [absorbs_other, namespaceForm_eq_self_iff]
  · rw [absorbs, exists_fileForm_eq_iff]
  · rw [absorbs_other, exists_namespaceForm_eq_iff]

theorem forms_invert_found_template :
    let disk : Disk := .holding
      [(["a"], .directory), (["b"], .directory), (["b", "acme"], .directory),
        (["b", "acme", "cool_lib"], .directory),
        (["b", "acme", "cool_lib", "template.yaml"], .file "".toUTF8 false)] [] []
    let roots := [Path.ofText "/a", Path.ofText "/b"]
    namespaceForm "acme/cool_lib" = namespaceForm "acme.cool-lib" ∧
    Template.find? disk roots "acme.cool-lib" =
      some ⟨.ofText "/b/acme/cool_lib", .ofText "/b/acme/cool_lib/template.yaml"⟩ ∧
    Template.find? disk roots "acme/cool_lib" = Template.find? disk roots "acme.cool-lib" := by
  intro disk roots
  have same : namespaceForm "acme/cool_lib" = namespaceForm "acme.cool-lib" := by decide
  have found : Template.find? disk roots "acme.cool-lib" =
      some ⟨.ofText "/b/acme/cool_lib", .ofText "/b/acme/cool_lib/template.yaml"⟩ := by
    decide +kernel
  obtain ⟨-, -, -, -, -, -, -, -, -, search⟩ :=
    forms_invert_exactly_on_ranges "acme/cool_lib" "acme.cool-lib"
  exact ⟨same, found, search same disk roots⟩

end Name

end Archetype
