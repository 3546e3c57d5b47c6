import Archetype.Text.Split

namespace Archetype.Name

def namespaceChar (character : Char) : Char :=
  if character = '/' then '.' else if character = '_' then '-' else character

def fileChar (character : Char) : Char :=
  if character = '.' then '/' else if character = '-' then '_' else character

def namespaceForm (name : String) : String :=
  String.ofList (name.toList.map namespaceChar)

def fileForm (name : String) : String :=
  String.ofList (name.toList.map fileChar)

theorem fileChar_namespaceChar (character : Char) :
    fileChar (namespaceChar character) = fileChar character := by
  unfold namespaceChar
  split
  · subst character; decide
  · split
    · subst character; decide
    · rfl

theorem namespaceChar_fileChar (character : Char) :
    namespaceChar (fileChar character) = namespaceChar character := by
  unfold fileChar
  split
  · subst character; decide
  · split
    · subst character; decide
    · rfl

theorem fileForm_namespaceForm (name : String) : fileForm (namespaceForm name) = fileForm name := by
  simp [fileForm, namespaceForm, Function.comp_def, fileChar_namespaceChar]

theorem namespaceForm_fileForm (name : String) :
    namespaceForm (fileForm name) = namespaceForm name := by
  simp [fileForm, namespaceForm, Function.comp_def, namespaceChar_fileChar]

def isQualified (name : String) : Bool :=
  match Text.cutFirst '/' name.toList with
  | (qualifier, some rest) => !qualifier.isEmpty && !rest.isEmpty
  | (_, none) => false

def splitQualified (name : String) : String × String :=
  match Text.cutFirst '/' name.toList with
  | (qualifier, some rest) => (String.ofList qualifier, String.ofList rest)
  | (_, none) => (name, name)

theorem splitQualified_append {qualifier : String} (free : '/' ∉ qualifier.toList) (rest : String) :
    splitQualified (qualifier ++ "/" ++ rest) = (qualifier, rest) := by
  have characters : (qualifier ++ "/" ++ rest).toList = qualifier.toList ++ '/' :: rest.toList := by
    simp
  rw [splitQualified, characters, Text.cutFirst_append free]
  simp

theorem exists_qualifier {name : String} (slash : '/' ∈ name.toList) :
    ∃ qualifier rest, name = qualifier ++ "/" ++ rest ∧ '/' ∉ qualifier.toList := by
  obtain ⟨before, after, characters, free⟩ := List.eq_append_cons_of_mem slash
  refine ⟨String.ofList before, String.ofList after, ?_, by simpa using free⟩
  rw [← String.toList_inj, characters]
  simp

end Archetype.Name
