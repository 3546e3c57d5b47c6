import Archetype.Proofs.Precedence

namespace Archetype

namespace Placeholder

def IsVariant (name : String) (entry : Key × Value) : Prop :=
  entry.2.asText?.isSome = true ∧ Name.isQualified entry.1.toText = false ∧
    (name = entry.1.toText ++ "/ns" ∨ name = entry.1.toText ++ "/file")

instance (name : String) (entry : Key × Value) : Decidable (IsVariant name entry) :=
  inferInstanceAs (Decidable (_ ∧ _ ∧ _))

/-- The text that an entry gives the placeholder of a name, if it produces that. -/
def produced? (name : String) (entry : Key × Value) : Option String :=
  if name = entry.1.toText then some (valueText entry.2)
  else if Name.isQualified entry.1.toText then none
  else if name = entry.1.toText ++ "/ns" then entry.2.asText?.map Name.namespaceForm
  else if name = entry.1.toText ++ "/file" then entry.2.asText?.map Name.fileForm
  else none

def producedNames (entry : Key × Value) : List String :=
  [entry.1.toText, entry.1.toText ++ "/ns", entry.1.toText ++ "/file"].filter fun name =>
    (produced? name entry).isSome

theorem ns_ne_file (name other : String) : name ++ "/ns" ≠ other ++ "/file" := by
  intro same
  have last := congrArg (fun text => text.toList.getLast?) same
  simp at last

theorem variant_injective {name first second : String}
    (variant : name = first ++ "/ns" ∨ name = first ++ "/file")
    (other : name = second ++ "/ns" ∨ name = second ++ "/file") : first = second := by
  rcases variant with rfl | rfl <;> rcases other with same | same
  · simpa [← String.toList_inj] using same
  · exact absurd same (ns_ne_file _ _)
  · exact absurd same.symm (ns_ne_file _ _)
  · simpa [← String.toList_inj] using same

theorem IsVariant.ne {name : String} {entry : Key × Value} (variant : IsVariant name entry) :
    entry.1.toText ≠ name := by
  rcases variant.2.2 with rfl | rfl <;> simp [← String.toList_inj]

theorem isSome_produced?_iff {name : String} {entry : Key × Value} :
    (produced? name entry).isSome = true ↔ entry.1.toText = name ∨ IsVariant name entry := by
  unfold produced? IsVariant
  split
  · rename_i plain
    simp [plain]
  · rename_i other
    have apart : ¬ entry.1.toText = name := fun same => other same.symm
    split
    · rename_i qualified
      simp [apart, qualified]
    · rename_i unqualified
      rw [Bool.not_eq_true] at unqualified
      split
      · rename_i spaced
        have variant : name = entry.1.toText ++ "/ns" ∨ name = entry.1.toText ++ "/file" :=
          Or.inl spaced
        simp only [Option.isSome_map, apart, unqualified, variant, false_or, and_true]
      · rename_i not_spaced
        split
        · rename_i filed
          have variant : name = entry.1.toText ++ "/ns" ∨ name = entry.1.toText ++ "/file" :=
            Or.inr filed
          simp only [Option.isSome_map, apart, unqualified, variant, false_or, and_true]
        · rename_i not_filed
          simp [apart, not_spaced, not_filed]

theorem ofEntry_eq (entry : Key × Value) : ofEntry entry.1 entry.2 =
    (producedNames entry).map fun name => (spell name, ((produced? name entry).getD "")) := by
  obtain ⟨key, value⟩ := entry
  cases value with
  | text characters =>
      cases qualified : Name.isQualified key.toText <;>
        simp [ofEntry, producedNames, produced?, qualified, (ns_ne_file _ _).symm, Value.asText?]
  | _ => simp [ofEntry, producedNames, produced?, Value.asText?]

theorem mem_producedNames_iff {name : String} {entry : Key × Value} :
    name ∈ producedNames entry ↔ (produced? name entry).isSome = true := by
  refine ⟨fun member => (List.mem_filter.1 member).2, fun produced => List.mem_filter.2 ⟨?_, produced⟩⟩
  rcases isSome_produced?_iff.1 produced with rfl | ⟨-, -, rfl | rfl⟩ <;> simp

theorem nodup_producedNames (entry : Key × Value) : (producedNames entry).Nodup := by
  have spaced : entry.1.toText ≠ entry.1.toText ++ "/ns" := by simp [← String.toList_inj]
  have filed : entry.1.toText ≠ entry.1.toText ++ "/file" := by simp [← String.toList_inj]
  have distinct : [entry.1.toText, entry.1.toText ++ "/ns", entry.1.toText ++ "/file"].Nodup := by
    simp [spaced, filed]
  exact distinct.filter _

theorem filterMap_ofEntry (name : String) (entry : Key × Value) :
    (ofEntry entry.1 entry.2).filterMap
        (fun pair => if pair.1 == spell name then some pair.2 else none) =
      (produced? name entry).toList := by
  have among {names : List String} (distinct : names.Nodup) : (names.filterMap fun other =>
      if other = name then some ((produced? other entry).getD "") else none) =
        if name ∈ names then [(produced? name entry).getD ""] else [] := by
    induction names with
    | nil => rfl
    | cons other rest ih =>
        obtain ⟨absent, rest_distinct⟩ := List.nodup_cons.1 distinct
        by_cases here : other = name
        · subst here
          simp [ih rest_distinct, absent]
        · have elsewhere : ¬ name = other := fun same => here same.symm
          simp [ih rest_distinct, here, elsewhere]
  rw [ofEntry_eq, List.filterMap_map]
  simp only [Function.comp_def, beq_iff_eq, spell_injective.eq_iff]
  rw [among (nodup_producedNames entry)]
  simp only [mem_producedNames_iff]
  cases produced? name entry <;> simp

end Placeholder

namespace Data

open Archetype.Placeholder

def producers (data : Data) (name : String) : List String :=
  data.entries.filterMap (produced? name)

def productions (data : Data) : List String :=
  data.entries.flatMap producedNames

def Textual (data : Data) : Prop :=
  ∀ key ∈ data.keys, ∃ characters, key = .text characters

theorem Textual.names_apart {data : Data} (textual : data.Textual) :
    data.entries.Pairwise fun first second => first.1.toText ≠ second.1.toText := by
  refine data.distinct.imp_of_mem fun {first second} inside other_inside differ same => ?_
  obtain ⟨characters, spelled⟩ := textual _ (List.mem_map_of_mem inside)
  obtain ⟨others, other_spelled⟩ := textual _ (List.mem_map_of_mem other_inside)
  rw [spelled, other_spelled] at same differ
  obtain rfl : characters = others := same
  simp at differ

theorem countP_le_one {α : Type} {p : α → Bool} {entries : List α}
    (apart : entries.Pairwise fun first second => ¬ (p first = true ∧ p second = true)) :
    entries.countP p ≤ 1 := by
  induction entries with
  | nil => simp
  | cons entry rest ih =>
      obtain ⟨others, rest_apart⟩ := List.pairwise_cons.1 apart
      by_cases holds : p entry = true
      · have none : rest.countP p = 0 := List.countP_eq_zero.2 fun other inside also =>
          others other inside ⟨holds, also⟩
        simp [holds, none]
      · simpa [List.countP_cons, holds] using ih rest_apart

theorem length_producers (data : Data) (name : String) :
    (data.producers name).length =
      data.entries.countP (fun entry => entry.1.toText = name) +
        data.entries.countP (fun entry => IsVariant name entry) := by
  rw [producers, List.length_filterMap_eq_countP]
  induction data.entries with
  | nil => rfl
  | cons entry rest ih =>
      rw [List.countP_cons, List.countP_cons, List.countP_cons, ih]
      by_cases plain : entry.1.toText = name
      · have apart : ¬ IsVariant name entry := fun variant => variant.ne plain
        simp [isSome_produced?_iff, plain, apart]
        omega
      · by_cases variant : IsVariant name entry <;>
          simp [isSome_produced?_iff, plain, variant]
        omega

section Textual

variable {data : Data} (textual : data.Textual) (name : String)

include textual

theorem Textual.countP_named_le :
    data.entries.countP (fun entry => entry.1.toText = name) ≤ 1 :=
  countP_le_one (textual.names_apart.imp fun apart both => apart (by
    simp only [decide_eq_true_eq] at both
    rw [both.1, both.2]))

theorem Textual.countP_variant_le :
    data.entries.countP (fun entry => IsVariant name entry) ≤ 1 :=
  countP_le_one (textual.names_apart.imp fun apart both => apart (by
    simp only [decide_eq_true_eq] at both
    exact variant_injective both.1.2.2 both.2.2.2))

end Textual

end Data

namespace Replacements

open Archetype.Placeholder

theorem get?_ofData_eq (data : Data) (name : String) :
    (ofData data).get? (spell name) = (data.producers name).getLast? := by
  rw [ofData, Table.get?_ofList, Data.producers, List.filterMap_flatMap]
  congr 1
  induction data.entries with
  | nil => rfl
  | cons entry rest ih =>
      rw [List.flatMap_cons, ih, filterMap_ofEntry, List.filterMap_cons]
      cases produced? name entry <;> rfl

theorem keys_ofData (data : Data) :
    (ofData data).keys = (data.productions.map spell).eraseDups := by
  rw [ofData, Table.keys_ofList, List.map_flatMap, Data.productions, List.map_flatMap]
  congr 2
  funext entry
  rw [ofEntry_eq, List.map_map]
  rfl

/-- Of the entries that produce a placeholder the last one counts, and the placeholders are in the
order in which they are first produced. Where all names are texts, a placeholder is produced at most
twice: for the name of an entry, and for a variant of another one; only then the order of the entries
matters. -/
theorem ofData_last_producer (data : Data) :
    (∀ name, (ofData data).get? (spell name) = (data.producers name).getLast?) ∧
    (ofData data).keys = (data.productions.map spell).eraseDups ∧
    (data.Textual →
      (∀ name, (data.producers name).length ≤ 2) ∧
      ∀ (other : Data) (name : String), other.entries.Perm data.entries →
        (ofData other).get? (spell name) ≠ (ofData data).get? (spell name) →
          (∃ entry ∈ data.entries, entry.1 = .text name) ∧
            ∃ entry ∈ data.entries, IsVariant name entry) := by
  refine ⟨get?_ofData_eq data, keys_ofData data, fun textual => ⟨fun name => ?_, ?_⟩⟩
  · have named := textual.countP_named_le name
    have variant := textual.countP_variant_le name
    rw [Data.length_producers]
    omega
  · intro other name permuted differ
    have producers_perm : (other.producers name).Perm (data.producers name) :=
      permuted.filterMap _
    -- with at most one producer the order of the entries could not count
    have twice : 2 ≤ (data.producers name).length := by
      by_contra few
      refine differ ?_
      rw [get?_ofData_eq, get?_ofData_eq]
      match producers_eq : data.producers name with
      | [] =>
          rw [producers_eq] at producers_perm
          rw [producers_perm.eq_nil]
      | [value] =>
          rw [producers_eq] at producers_perm
          rw [List.perm_singleton.1 producers_perm]
      | _ :: _ :: _ =>
          rw [producers_eq] at few
          simp at few
    -- so one of the two produces it by its name, and the other one as a variant
    have named := textual.countP_named_le name
    have variant := textual.countP_variant_le name
    rw [Data.length_producers] at twice
    obtain ⟨entry, inside, same⟩ := List.countP_pos_iff.1 (show 0 < data.entries.countP
      (fun entry => entry.1.toText = name) by omega)
    obtain ⟨source, listed, varies⟩ := List.countP_pos_iff.1 (show 0 < data.entries.countP
      (fun entry => IsVariant name entry) by omega)
    refine ⟨⟨entry, inside, ?_⟩, source, listed, by simpa using varies⟩
    obtain ⟨characters, spelled⟩ := textual _ (List.mem_map_of_mem inside)
    obtain rfl : entry.1.toText = name := by simpa using same
    rw [spelled]
    rfl

theorem ofData_last_producer_shared :
    let data := Data.ofEntries [(.text "a", .text "x_y"), (.text "a/ns", .text "z")]
    let other := Data.ofEntries [(.text "a/ns", .text "z"), (.text "a", .text "x_y")]
    (ofData data).get? (spell "a/ns") = some "z" ∧
    (ofData other).get? (spell "a/ns") = some "x-y" ∧
    (data.producers "a/ns").length ≤ 2 ∧
    (∃ entry ∈ data.entries, entry.1 = .text "a/ns") ∧
      ∃ entry ∈ data.entries, IsVariant "a/ns" entry := by
  intro data other
  have textual : data.Textual := by
    intro key member
    rcases List.mem_pair.1 (show key ∈ [Key.text "a", .text "a/ns"] from member) with rfl | rfl
    · exact ⟨_, rfl⟩
    · exact ⟨_, rfl⟩
  have last : (ofData data).get? (spell "a/ns") = some "z" := by decide +kernel
  have other_last : (ofData other).get? (spell "a/ns") = some "x-y" := by decide +kernel
  have permuted : other.entries.Perm data.entries := List.Perm.swap _ _ _
  obtain ⟨-, -, clash⟩ := ofData_last_producer data
  obtain ⟨few, orders⟩ := clash textual
  exact ⟨last, other_last, few _, orders other _ permuted (by rw [last, other_last]; decide)⟩

end Replacements

end Archetype
