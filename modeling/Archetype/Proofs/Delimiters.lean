import Archetype.Proofs.Rendering
import Mathlib.Data.List.Basic

namespace Archetype

namespace Placeholder

theorem reopen_opening (text : String) : reopen opening text = text := by
  by_cases starts : opening.toList <+: text.toList
  · obtain ⟨rest, characters⟩ := starts
    obtain rfl : opening ++ String.ofList rest = text := by
      rw [← String.toList_inj, ← characters, String.toList_append, String.toList_ofList]
    exact reopen_append _ _
  · exact reopen_of_not_prefix starts _

theorem reclose_closing (text : String) : reclose closing text = text := by
  by_cases ends : closing.toList <:+ text.toList
  · obtain ⟨rest, characters⟩ := ends
    obtain rfl : String.ofList rest ++ closing = text := by
      rw [← String.toList_inj, ← characters, String.toList_append, String.toList_ofList]
    exact reclose_append _ _
  -- a delimiter before a line feed at the end is exchanged too, for itself
  · by_cases line : (closing ++ "\n").toList <:+ text.toList
    · obtain ⟨rest, characters⟩ := line
      obtain rfl : String.ofList rest ++ closing ++ "\n" = text := by
        rw [← String.toList_inj, ← characters, String.append_assoc, String.toList_append,
          String.toList_ofList]
      exact reclose_append_newline _ _
    · exact reclose_of_not_suffix ends line _

theorem entriesOf_injective (opened closed : String) :
    Function.Injective (entriesOf opened closed) := by
  refine List.map_injective_iff.2 fun entry other same => ?_
  obtain ⟨token, value⟩ := Prod.mk.inj same
  exact Prod.ext (between_injective token) value

end Placeholder

namespace Replacements

open Archetype.Placeholder

variable {opened closed : String}

theorem withDelimiters_default (replacements : Replacements) :
    replacements.withDelimiters opening closing = replacements := by
  have kept : replacements.entries.map
      (fun entry => (reclose closing (reopen opening entry.1), entry.2)) = replacements.entries := by
    simp only [reopen_opening, reclose_closing]
    exact List.map_id _
  rw [withDelimiters, kept]
  exact Table.ext (Table.entries_ofList_of_distinct _ replacements.distinct)

theorem get?_withDelimiters (data : Data) (name : String) :
    ((ofData data).withDelimiters opened closed).get? (between opened closed name) =
      (ofData data).get? (spell name) := by
  obtain ⟨named, entries_eq⟩ := exists_entriesOf_ofData data
  ext value
  rw [get?_between_iff (entries_withDelimiters entries_eq opened closed), get?_spell_iff entries_eq]

theorem withDelimiters_eq_iff {data other : Data} :
    (ofData data).withDelimiters opened closed = (ofData other).withDelimiters opened closed ↔
      ofData data = ofData other := by
  refine ⟨fun same => ?_, fun same => by rw [same]⟩
  obtain ⟨named, entries_eq⟩ := exists_entriesOf_ofData data
  obtain ⟨others, other_entries_eq⟩ := exists_entriesOf_ofData other
  have adjusted := congrArg Table.entries same
  rw [entries_withDelimiters entries_eq, entries_withDelimiters other_entries_eq] at adjusted
  rw [Table.ext_iff, entries_eq, other_entries_eq, entriesOf_injective opened closed adjusted]

/-- Between other delimiters the placeholders of data keep their names, their values and their order,
whatever the names and the delimiters are: entry by entry the table is the one of the data, each
placeholder is replaced by what its name was replaced by, and tables that differ stay different. The
default delimiters keep every table, also one whose keys are not placeholders. -/
theorem withDelimiters_rekeys (data : Data) (opened closed : String) :
    (∃ named : List (String × String),
      (ofData data).entries = named.map (fun entry => (spell entry.1, entry.2)) ∧
      ((ofData data).withDelimiters opened closed).entries =
        named.map (fun entry => (opened ++ entry.1 ++ closed, entry.2))) ∧
    (∀ name, ((ofData data).withDelimiters opened closed).get? (opened ++ name ++ closed) =
      (ofData data).get? (spell name)) ∧
    (∀ other : Data, (ofData data).withDelimiters opened closed =
      (ofData other).withDelimiters opened closed ↔ ofData data = ofData other) ∧
    ∀ replacements : Replacements, replacements.withDelimiters opening closing = replacements := by
  obtain ⟨named, entries_eq⟩ := exists_entriesOf_ofData data
  exact ⟨⟨named, entries_eq, entries_withDelimiters entries_eq opened closed⟩,
    get?_withDelimiters data, fun _ => withDelimiters_eq_iff, withDelimiters_default⟩

/-- An empty name and a name of a brace, between delimiters that are braces themselves. -/
example :
    ((ofData (Data.ofEntries [(.text "", .null), (.text "\x7d", .bool true)])).withDelimiters
      "\x7d\x7d" "\x7b").entries = [("\x7d\x7d\x7b", ""), ("\x7d\x7d\x7d\x7b", "true")] := by
  decide +kernel

end Replacements

end Archetype
