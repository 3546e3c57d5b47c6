import Archetype.Table
import Mathlib.Data.List.Induction

namespace Archetype.Table

variable {κ α : Type} [BEq κ]

theorem put_of_absent {key : κ} (value : α) {entries : List (κ × α)}
    (absent : ∀ entry ∈ entries, (entry.1 == key) = false) :
    put key value entries = entries ++ [(key, value)] := by
  induction entries with
  | nil => rfl
  | cons entry rest ih =>
      have here := absent entry List.mem_cons_self
      have later := ih fun other member => absent other (List.mem_cons_of_mem _ member)
      simp only [put, here, Bool.false_eq_true, ↓reduceIte, later, List.cons_append]

theorem entries_insertAll_of_distinct (table : Table κ α) (entries : List (κ × α))
    (distinct : (table.entries ++ entries).Pairwise fun first second =>
      (first.1 == second.1) = false) :
    (table.insertAll entries).entries = table.entries ++ entries := by
  induction entries generalizing table with
  | nil => simp [insertAll]
  | cons entry rest ih =>
      have inserted : (table.insert entry.1 entry.2).entries = table.entries ++ [entry] :=
        put_of_absent entry.2 fun other member =>
          (List.pairwise_append.1 distinct).2.2 other member entry List.mem_cons_self
      have regrouped : (table.insert entry.1 entry.2).entries ++ rest =
          table.entries ++ entry :: rest := by
        rw [inserted, List.append_assoc, List.singleton_append]
      have step := ih (table.insert entry.1 entry.2) (by rw [regrouped]; exact distinct)
      rw [regrouped] at step
      exact step

theorem entries_ofList_of_distinct (entries : List (κ × α))
    (distinct : entries.Pairwise fun first second => (first.1 == second.1) = false) :
    (ofList entries).entries = entries :=
  entries_insertAll_of_distinct ∅ entries distinct

theorem mem_keys_insertAll {table : Table κ α} {entries : List (κ × α)} {key : κ}
    (member : key ∈ (table.insertAll entries).keys) :
    key ∈ table.keys ∨ key ∈ entries.map (·.1) := by
  induction entries generalizing table with
  | nil => exact Or.inl member
  | cons entry rest ih =>
      have split : key ∈ (table.insert entry.1 entry.2).keys ∨ key ∈ rest.map (·.1) := ih member
      rcases split with old | later
      · rw [keys_insert] at old
        split at old
        · exact Or.inl old
        · rcases List.mem_append.1 old with old | new
          · exact Or.inl old
          · exact Or.inr (List.mem_cons.2 (Or.inl (List.mem_singleton.1 new)))
      · exact Or.inr (List.mem_cons_of_mem _ later)

theorem mem_keys_ofList {entries : List (κ × α)} {key : κ}
    (member : key ∈ (ofList entries).keys) : key ∈ entries.map (·.1) :=
  (mem_keys_insertAll member).resolve_left List.not_mem_nil

theorem get?_eq_some_iff [LawfulBEq κ] {table : Table κ α} {key : κ} {value : α} :
    table.get? key = some value ↔ (key, value) ∈ table.entries := by
  obtain ⟨entries, distinct⟩ := table
  simp only [get?]
  induction entries with
  | nil => simp
  | cons entry rest ih =>
      obtain ⟨apart, rest_distinct⟩ := List.pairwise_cons.1 distinct
      by_cases here : entry.1 = key
      · subst here
        have absent : (entry.1, value) ∉ rest := fun member => by
          have := apart _ member
          simp at this
        simp only [List.find?_cons, beq_self_eq_true, Option.map_some, Option.some.injEq,
          List.mem_cons, absent, or_false]
        exact ⟨fun same => same ▸ rfl, fun same => (congrArg Prod.snd same).symm⟩
      · have passed : (entry.1 == key) = false := by simpa using here
        have other : (key, value) ≠ entry := fun same => here (congrArg Prod.fst same).symm
        simp only [List.find?_cons, passed, List.mem_cons, other, false_or]
        exact ih rest_distinct

theorem find?_reverse_of_distinct [EquivBEq κ] {entries : List (κ × α)} (key : κ)
    (distinct : entries.Pairwise fun first second => (first.1 == second.1) = false) :
    entries.reverse.find? (·.1 == key) = entries.find? (·.1 == key) := by
  induction entries with
  | nil => rfl
  | cons entry rest ih =>
      obtain ⟨apart, rest_distinct⟩ := List.pairwise_cons.1 distinct
      rw [List.reverse_cons, List.find?_append, ih rest_distinct]
      cases here : entry.1 == key with
      | false => simp [here]
      | true =>
          have absent : rest.find? (·.1 == key) = none := List.find?_eq_none.2 fun other member same =>
            absurd (BEq.trans here (BEq.symm same)) (by simp [apart other member])
          simp [here, absent]

theorem get?_insertAll [EquivBEq κ] (table : Table κ α) (entries : List (κ × α)) (key : κ) :
    (table.insertAll entries).get? key =
      ((entries.reverse.find? (·.1 == key)).map (·.2)).or (table.get? key) := by
  induction entries generalizing table with
  | nil => rfl
  | cons entry rest ih =>
      have step : (table.insertAll (entry :: rest)).get? key =
          ((rest.reverse.find? (·.1 == key)).map (·.2)).or
            ((table.insert entry.1 entry.2).get? key) := ih _
      rw [step, get?_insert, List.reverse_cons, List.find?_append]
      cases here : entry.1 == key <;> cases rest.reverse.find? (·.1 == key) <;> simp [here]

theorem get?_union [EquivBEq κ] (table upper : Table κ α) (key : κ) :
    (table.union upper).get? key = (upper.get? key).or (table.get? key) := by
  rw [union, get?_insertAll, find?_reverse_of_distinct key upper.distinct]
  rfl

theorem get?_filter (keep : κ → Bool) (table : Table κ α) (key : κ)
    (respects : ∀ other, (other == key) = true → keep other = keep key) :
    (table.filter keep).get? key = if keep key then table.get? key else none := by
  obtain ⟨entries, distinct⟩ := table
  simp only [get?, filter]
  clear distinct
  induction entries with
  | nil => simp
  | cons entry rest ih =>
      rw [List.filter_cons, List.find?_cons]
      cases here : entry.1 == key with
      | false =>
          cases keep entry.1 with
          | false => exact ih
          | true => rwa [if_pos rfl, List.find?_cons, here]
      | true =>
          rw [respects entry.1 here]
          cases kept : keep key with
          | false => rwa [kept] at ih
          | true => rw [if_pos rfl, List.find?_cons, here, if_pos rfl]

theorem get?_congr [EquivBEq κ] {table : Table κ α} {left right : κ}
    (same : (left == right) = true) : table.get? left = table.get? right := by
  have alike : (fun entry : κ × α => entry.1 == left) = fun entry => entry.1 == right :=
    funext fun entry => BEq.congr_right same
  rw [get?, get?, alike]

theorem get?_of_mem [EquivBEq κ] {table : Table κ α} {key : κ} {value : α}
    (member : (key, value) ∈ table.entries) : table.get? key = some value := by
  obtain ⟨entries, distinct⟩ := table
  obtain ⟨before, after, rfl⟩ := List.append_of_mem member
  have earlier := (List.pairwise_append.1 distinct).2.2
  have passed : before.find? (·.1 == key) = none := List.find?_eq_none.2 fun other member same =>
    absurd same (by simp [earlier other member _ List.mem_cons_self])
  simp [get?, List.find?_append, passed]

theorem ext_get? [EquivBEq κ] {left right : Table κ α} (keys : left.keys = right.keys)
    (values : ∀ key, left.get? key = right.get? key) : left = right := by
  refine Table.ext (List.ext_getElem ?_ fun place inside other_inside => ?_)
  · simpa [Table.keys] using congrArg List.length keys
  · have key : left.entries[place].1 = right.entries[place].1 := by
      have same := congrArg (·[place]?) keys
      simpa [Table.keys, inside, other_inside] using same
    have held : left.get? left.entries[place].1 = some left.entries[place].2 :=
      get?_of_mem (List.getElem_mem inside)
    have other_held : right.get? right.entries[place].1 = some right.entries[place].2 :=
      get?_of_mem (List.getElem_mem other_inside)
    rw [values, key, other_held] at held
    exact Prod.ext key (Option.some.inj held).symm

theorem get?_ofList_of_forall [EquivBEq κ] {entries : List (κ × α)} {key : κ} {value : α}
    (member : (key, value) ∈ entries)
    (only : ∀ entry ∈ entries, (entry.1 == key) = true → entry.2 = value) :
    (ofList entries).get? key = some value := by
  rw [ofList, get?_insertAll]
  cases last : entries.reverse.find? (·.1 == key) with
  | none =>
      have absent := List.find?_eq_none.1 last (key, value) (List.mem_reverse.2 member)
      simp at absent
  | some entry =>
      have inside := List.mem_reverse.1 (List.mem_of_find?_eq_some last)
      have found : (entry.1 == key) = true :=
        List.find?_some (p := fun entry : κ × α => entry.1 == key) last
      simp [only entry inside found]

theorem get?_ofList [EquivBEq κ] (entries : List (κ × α)) (key : κ) :
    (ofList entries).get? key =
      (entries.filterMap fun entry => if entry.1 == key then some entry.2 else none).getLast? := by
  rw [ofList, get?_insertAll, get?_empty, Option.or_none, List.getLast?_filterMap]
  induction entries.reverse with
  | nil => rfl
  | cons entry rest ih =>
      rw [List.find?_cons, List.findSome?_cons, ← ih]
      cases entry.1 == key <;> rfl

theorem keys_insertAll_concat (table : Table κ α) (entries : List (κ × α)) (entry : κ × α) :
    (table.insertAll (entries ++ [entry])).keys =
      if (table.insertAll entries).contains entry.1 then (table.insertAll entries).keys
      else (table.insertAll entries).keys ++ [entry.1] := by
  rw [← keys_insert, insertAll, List.foldl_append]
  rfl

theorem keys_ofList [LawfulBEq κ] (entries : List (κ × α)) :
    (ofList entries).keys = (entries.map (·.1)).eraseDups := by
  induction entries using List.reverseRecOn with
  | nil => rfl
  | append_singleton entries entry ih =>
      have listed : (ofList entries).contains entry.1 = true ↔ entry.1 ∈ entries.map (·.1) := by
        rw [← List.mem_eraseDups, ← ih]
        simp [contains, keys]
      rw [ofList, keys_insertAll_concat, ← ofList, ih, List.map_append, List.map_singleton,
        List.eraseDups_append]
      by_cases member : entry.1 ∈ entries.map (·.1)
      · rw [if_pos (listed.2 member)]
        simp [List.removeAll, member]
      · rw [if_neg (mt listed.1 member)]
        simp [List.removeAll, member, List.eraseDups_cons]

end Archetype.Table
