import Archetype.Name.Form
import Archetype.Text.Replace
import Archetype.Value.Data

namespace Archetype

abbrev Replacements := Table String String

namespace Placeholder

def opening : String := "\x7b\x7b"

def closing : String := "\x7d\x7d"

def spell (name : String) : String :=
  opening ++ name ++ closing

/-- The text that a value puts into a file: nothing for no value, lower case for truth values. -/
def valueText : Value → String
  | .null => ""
  | .bool truth => if truth then "true" else "false"
  | value => value.toText

def ofEntry (key : Key) (value : Value) : List (String × String) :=
  let name := key.toText
  (spell name, valueText value) ::
    match value with
    | .text characters =>
      if Name.isQualified name then []
      else [(spell (name ++ "/ns"), Name.namespaceForm characters),
        (spell (name ++ "/file"), Name.fileForm characters)]
    | _ => []

def reopen (opened text : String) : String :=
  match text.toList with
  | '\x7b' :: '\x7b' :: rest => String.ofList (opened.toList ++ rest)
  | _ => text

/-- A text with `closed` in place of a closing delimiter at its end; a line feed may follow the
delimiter. -/
def reclose (closed text : String) : String :=
  match text.toList.reverse with
  | '\x7d' :: '\x7d' :: rest => String.ofList (rest.reverse ++ closed.toList)
  | '\n' :: '\x7d' :: '\x7d' :: rest => String.ofList (rest.reverse ++ closed.toList ++ ['\n'])
  | _ => text

theorem reopen_append (opened rest : String) : reopen opened (opening ++ rest) = opened ++ rest := by
  have characters : (opening ++ rest).toList = '\x7b' :: '\x7b' :: rest.toList := by simp [opening]
  simp [reopen, characters]

theorem reopen_of_not_prefix {text : String} (other : ¬ opening.toList <+: text.toList)
    (opened : String) : reopen opened text = text := by
  unfold reopen
  split
  · rename_i rest characters
    exact absurd ⟨rest, characters.symm⟩ other
  · rfl

theorem reclose_append (closed rest : String) : reclose closed (rest ++ closing) = rest ++ closed := by
  have characters : (rest ++ closing).toList.reverse = '\x7d' :: '\x7d' :: rest.toList.reverse := by
    simp [closing]
  rw [reclose, characters]
  simp

theorem reclose_append_newline (closed rest : String) :
    reclose closed (rest ++ closing ++ "\n") = rest ++ closed ++ "\n" := by
  have characters : (rest ++ closing ++ "\n").toList.reverse =
      '\n' :: '\x7d' :: '\x7d' :: rest.toList.reverse := by
    simp [closing]
  rw [reclose, characters]
  simp [← String.toList_inj]

theorem reclose_of_not_suffix {text : String} (other : ¬ closing.toList <:+ text.toList)
    (no_line : ¬ (closing ++ "\n").toList <:+ text.toList) (closed : String) :
    reclose closed text = text := by
  unfold reclose
  split
  · rename_i rest characters
    refine absurd ⟨rest.reverse, ?_⟩ other
    rw [List.reverse_eq_iff.1 characters]
    simp [closing]
  · rename_i rest characters
    refine absurd ⟨rest.reverse, ?_⟩ no_line
    rw [List.reverse_eq_iff.1 characters]
    simp [closing]
  · rfl

end Placeholder

namespace Replacements

/-- The replacements that data gives: of a placeholder produced twice the last text counts. -/
def ofData (data : Data) : Replacements :=
  Table.ofList (data.entries.flatMap fun entry => Placeholder.ofEntry entry.1 entry.2)

def withDelimiters (replacements : Replacements) (opened closed : String) : Replacements :=
  Table.ofList (replacements.entries.map fun entry =>
    (Placeholder.reclose closed (Placeholder.reopen opened entry.1), entry.2))

def apply (replacements : Replacements) (text : String) : String :=
  replacements.entries.foldl (fun text entry => Text.replace text entry.1 entry.2) text

end Replacements

end Archetype
