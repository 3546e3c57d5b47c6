import Archetype.Command.Pairs
import Archetype.Proofs.Tables
import Mathlib.Data.List.TakeWhile

namespace Archetype.Command

namespace Pair

def front (pair : String) : List Char :=
  pair.toList.takeWhile (· ≠ '=')

def key (pair : String) : String :=
  Text.strip (String.ofList (front pair))

def value (pair : String) : String :=
  String.ofList ((pair.toList.dropWhile (· ≠ '=')).drop 1)

def WellFormed (pair : String) : Prop :=
  '=' ∈ pair.toList ∧ ∃ character ∈ front pair, Text.isBlank character = false

instance : DecidablePred WellFormed := fun pair =>
  have := List.decidableBEx (fun character => Text.isBlank character = false) (front pair)
  inferInstanceAs (Decidable (_ ∧ ∃ character ∈ front pair, Text.isBlank character = false))

inductive Refused (pair : String) : Failure → Prop
  | noSign (absent : '=' ∉ pair.toList) : Refused pair (.pairWithoutSign pair)
  | noKey (signed : '=' ∈ pair.toList)
      (blank : ∀ character ∈ front pair, Text.isBlank character = true) :
      Refused pair .pairWithoutKey

def IsKey (key : String) : Prop :=
  Text.strip key = key ∧ key ≠ "" ∧ '=' ∉ key.toList

instance : DecidablePred IsKey := fun key =>
  inferInstanceAs (Decidable (Text.strip key = key ∧ key ≠ "" ∧ '=' ∉ key.toList))

def write (entry : String × String) : String :=
  entry.1 ++ "=" ++ entry.2

section One

variable {pair : String} {failure : Failure}

theorem wellFormed_or_refused (pair : String) : WellFormed pair ∨ ∃ failure, Refused pair failure := by
  by_cases signed : '=' ∈ pair.toList
  · by_cases keyed : ∃ character ∈ front pair, Text.isBlank character = false
    · exact Or.inl ⟨signed, keyed⟩
    · refine Or.inr ⟨_, .noKey signed fun character member => ?_⟩
      exact Bool.of_not_eq_false fun visible => keyed ⟨character, member, visible⟩
  · exact Or.inr ⟨_, .noSign signed⟩

theorem cutFirst_of_signed (signed : '=' ∈ pair.toList) :
    Text.cutFirst '=' pair.toList =
      (front pair, some ((pair.toList.dropWhile (· ≠ '=')).drop 1)) :=
  Text.cutFirst_of_mem signed

theorem parsePair_of_wellFormed (well : WellFormed pair) :
    parsePair pair = .ok (key pair, value pair) := by
  obtain ⟨signed, character, member, visible⟩ := well
  have kept := Text.mem_trim_of_kept visible member
  have more : (Text.trim Text.isBlank (front pair)).isEmpty = false :=
    List.isEmpty_eq_false_iff.2 (List.ne_nil_of_mem kept)
  rw [parsePair, cutFirst_of_signed signed]
  simp only [more, Bool.false_eq_true, ↓reduceIte, key, value, Text.strip, String.toList_ofList]

theorem parsePair_of_refused (refused : Refused pair failure) : parsePair pair = .error failure := by
  cases refused with
  | noSign absent => rw [parsePair, Text.cutFirst_of_not_mem absent]
  | noKey signed blank =>
      rw [parsePair, cutFirst_of_signed signed]
      simp only [Text.trim_eq_nil_iff.2 blank, List.isEmpty_nil, ↓reduceIte]

theorem isKey_key (well : WellFormed pair) : IsKey (key pair) := by
  obtain ⟨-, character, member, visible⟩ := well
  refine ⟨Text.strip_strip _, ?_, ?_⟩
  · have kept := Text.mem_trim_of_kept visible member
    intro empty
    rw [key, Text.strip, String.toList_ofList, ← String.toList_inj, String.toList_ofList] at empty
    rw [empty] at kept
    cases kept
  · intro sign
    have inside := Text.strip_subset _ sign
    rw [String.toList_ofList] at inside
    simpa using List.mem_takeWhile_imp inside

end One

section Write

variable {entry : String × String}

theorem parts_write (unsigned : '=' ∉ entry.1.toList) :
    front (write entry) = entry.1.toList ∧ value (write entry) = entry.2 := by
  have characters : (write entry).toList = entry.1.toList ++ '=' :: entry.2.toList := by
    simp [write]
  have signed : '=' ∈ (write entry).toList := by simp [characters]
  have cut : Text.cutFirst '=' (write entry).toList = (entry.1.toList, some entry.2.toList) := by
    rw [characters, Text.cutFirst_append unsigned]
  obtain ⟨before, after⟩ := Prod.mk.inj ((cutFirst_of_signed signed).symm.trans cut)
  refine ⟨before, ?_⟩
  rw [value, Option.some.inj after, String.ofList_toList]

theorem key_write (isKey : IsKey entry.1) : key (write entry) = entry.1 := by
  rw [key, (parts_write isKey.2.2).1, String.ofList_toList, isKey.1]

theorem wellFormed_write (isKey : IsKey entry.1) : WellFormed (write entry) := by
  obtain ⟨stripped, more, unsigned⟩ := isKey
  refine ⟨by simp [write], ?_⟩
  rw [(parts_write unsigned).1]
  by_contra none_visible
  refine more ?_
  have blank : ∀ character ∈ entry.1.toList, Text.isBlank character = true := fun character member =>
    Bool.of_not_eq_false fun visible => none_visible ⟨character, member, visible⟩
  rw [← stripped, Text.strip, Text.trim_eq_nil_iff.2 blank]

end Write

end Pair

open Archetype.Command.Pair

variable {pairs : List String} {table : Table String String} {failure : Failure}

def tableOf (pairs : List String) : Table String String :=
  Table.ofList (pairs.map fun pair => (key pair, value pair))

theorem mapM_of_wellFormed (well : ∀ pair ∈ pairs, WellFormed pair) :
    pairs.mapM parsePair = .ok (pairs.map fun pair => (key pair, value pair)) := by
  induction pairs with
  | nil => rfl
  | cons pair pairs ih =>
      obtain ⟨here, later⟩ := List.forall_mem_cons.1 well
      rw [List.mapM_cons, parsePair_of_wellFormed here, ih later]
      rfl

theorem parsePairs_of_wellFormed (well : ∀ pair ∈ pairs, WellFormed pair) :
    parsePairs pairs = .ok (tableOf pairs) := by
  rw [parsePairs, mapM_of_wellFormed well]
  rfl

theorem parsePairs_of_first_refused {before after : List String} {pair : String}
    (well : ∀ other ∈ before, WellFormed other) (refused : Refused pair failure) :
    parsePairs (before ++ pair :: after) = .error failure := by
  rw [parsePairs, List.mapM_append, mapM_of_wellFormed well, List.mapM_cons,
    parsePair_of_refused refused]
  rfl

theorem exists_first_refused (ill : ¬ ∀ pair ∈ pairs, WellFormed pair) :
    ∃ before pair after failure, pairs = before ++ pair :: after ∧
      (∀ other ∈ before, WellFormed other) ∧ Refused pair failure := by
  induction pairs with
  | nil => exact absurd (fun _ => nofun) ill
  | cons pair pairs ih =>
      rcases wellFormed_or_refused pair with here | ⟨failure, refused⟩
      · obtain ⟨before, other, after, failure, rfl, well, refused⟩ :=
          ih fun later => ill (List.forall_mem_cons.2 ⟨here, later⟩)
        exact ⟨pair :: before, other, after, failure, rfl, List.forall_mem_cons.2 ⟨here, well⟩,
          refused⟩
      · exact ⟨[], pair, pairs, failure, rfl, fun _ => nofun, refused⟩

theorem parsePairs_eq_ok_iff :
    parsePairs pairs = .ok table ↔ (∀ pair ∈ pairs, WellFormed pair) ∧ table = tableOf pairs := by
  by_cases well : ∀ pair ∈ pairs, WellFormed pair
  · rw [parsePairs_of_wellFormed well, Except.ok.injEq]
    exact ⟨fun same => ⟨well, same.symm⟩, fun read => read.2.symm⟩
  · obtain ⟨before, pair, after, failure, rfl, earlier, refused⟩ := exists_first_refused well
    rw [parsePairs_of_first_refused earlier refused]
    exact iff_of_false nofun fun read => well read.1

theorem parsePairs_eq_error_iff :
    parsePairs pairs = .error failure ↔ ∃ before pair after, pairs = before ++ pair :: after ∧
      (∀ other ∈ before, WellFormed other) ∧ Refused pair failure := by
  constructor
  · intro ends
    by_cases well : ∀ pair ∈ pairs, WellFormed pair
    · rw [parsePairs_of_wellFormed well] at ends
      cases ends
    · obtain ⟨before, pair, after, found, rfl, earlier, refused⟩ := exists_first_refused well
      rw [parsePairs_of_first_refused earlier refused] at ends
      cases ends
      exact ⟨before, pair, after, rfl, earlier, refused⟩
  · rintro ⟨before, pair, after, rfl, earlier, refused⟩
    exact parsePairs_of_first_refused earlier refused

theorem keys_tableOf (pairs : List String) : (tableOf pairs).keys = (pairs.map key).eraseDups := by
  rw [tableOf, Table.keys_ofList, List.map_map]
  rfl

theorem get?_tableOf (pairs : List String) (name : String) :
    (tableOf pairs).get? name = (pairs.filter (key · = name)).getLast?.map value := by
  have picked : (pairs.map fun pair => (key pair, value pair)).filterMap
      (fun entry => if entry.1 == name then some entry.2 else none) =
        (pairs.filter (key · = name)).map value := by
    rw [List.filterMap_map, ← List.filterMap_eq_map, List.filterMap_filter]
    refine congrArg (pairs.filterMap ·) (funext fun pair => ?_)
    simp
  rw [tableOf, Table.get?_ofList, picked, List.getLast?_map]

theorem eq_tableOf_iff : table = tableOf pairs ↔ table.keys = (pairs.map key).eraseDups ∧
    ∀ name, table.get? name = (pairs.filter (key · = name)).getLast?.map value := by
  constructor
  · rintro rfl
    exact ⟨keys_tableOf pairs, get?_tableOf pairs⟩
  · rintro ⟨keys, values⟩
    exact Table.ext_get? (keys.trans (keys_tableOf pairs).symm) fun name =>
      (values name).trans (get?_tableOf pairs name).symm

theorem isKey_of_mem_keys (well : ∀ pair ∈ pairs, WellFormed pair) {name : String}
    (member : name ∈ (tableOf pairs).keys) : IsKey name := by
  rw [keys_tableOf, List.mem_eraseDups] at member
  obtain ⟨pair, inside, rfl⟩ := List.mem_map.1 member
  exact isKey_key (well pair inside)

theorem tableOf_write (keys : ∀ name ∈ table.keys, IsKey name) :
    tableOf (table.entries.map write) = table := by
  have read : (table.entries.map write).map (fun pair => (key pair, value pair)) = table.entries := by
    rw [List.map_map]
    refine (List.map_congr_left fun entry inside => ?_).trans (List.map_id _)
    have isKey := keys entry.1 (List.mem_map_of_mem inside)
    exact Prod.ext (key_write isKey) (parts_write isKey.2.2).2
  rw [tableOf, read]
  exact Table.ext (Table.entries_ofList_of_distinct _ table.distinct)

theorem parsePairs_write_iff :
    parsePairs (table.entries.map write) = .ok table ↔ ∀ name ∈ table.keys, IsKey name := by
  rw [parsePairs_eq_ok_iff]
  constructor
  · rintro ⟨well, same⟩ name member
    rw [same] at member
    exact isKey_of_mem_keys well member
  · intro keys
    refine ⟨fun pair member => ?_, (tableOf_write keys).symm⟩
    obtain ⟨entry, inside, rfl⟩ := List.mem_map.1 member
    exact wellFormed_write (keys entry.1 (List.mem_map_of_mem inside))

/-- A list of texts is read exactly if all of them are pairs. Its table then has the keys in the order
in which they first come, each with what the last pair of that key has after its first sign. Otherwise
the first text that is no pair is reported, whatever comes after it. Writing a table as pairs and
reading them gives the table back, exactly if its keys can be written as they are. -/
theorem parsePairs_last_value (pairs : List String) :
    ((∃ table, parsePairs pairs = .ok table) ↔ ∀ pair ∈ pairs, WellFormed pair) ∧
    (∀ table, parsePairs pairs = .ok table ↔
      (∀ pair ∈ pairs, WellFormed pair) ∧ table.keys = (pairs.map key).eraseDups ∧
        ∀ name, table.get? name = (pairs.filter (key · = name)).getLast?.map value) ∧
    (∀ failure, parsePairs pairs = .error failure ↔
      ∃ before pair after, pairs = before ++ pair :: after ∧
        (∀ other ∈ before, WellFormed other) ∧ Refused pair failure) ∧
    ∀ table : Table String String,
      parsePairs (table.entries.map write) = .ok table ↔ ∀ name ∈ table.keys, IsKey name := by
  refine ⟨⟨?_, fun well => ⟨_, parsePairs_of_wellFormed well⟩⟩, fun table => ?_,
    fun failure => parsePairs_eq_error_iff, fun table => parsePairs_write_iff⟩
  · rintro ⟨table, reads⟩
    exact (parsePairs_eq_ok_iff.1 reads).1
  · rw [parsePairs_eq_ok_iff, eq_tableOf_iff]

theorem parsePairs_last_value_sample :
    (∃ table, parsePairs ["a=1", " b =x=y ", "a = 2"] = .ok table ∧ table.keys = ["a", "b"] ∧
      table.get? "a" = some " 2" ∧ table.get? "b" = some "x=y ") ∧
    parsePairs ["a=1", " =x", "b"] = .error .pairWithoutKey ∧
    parsePairs ["a==1 ", "b c="] = .ok (Table.ofList [("a", "=1 "), ("b c", "")]) := by
  refine ⟨?_, ?_, ?_⟩
  · obtain ⟨reads, exact_table, -⟩ := parsePairs_last_value ["a=1", " b =x=y ", "a = 2"]
    obtain ⟨table, ends⟩ := reads.2 (by decide +kernel)
    obtain ⟨-, keys, values⟩ := (exact_table table).1 ends
    refine ⟨table, ends, keys.trans (by decide +kernel), (values _).trans ?_, (values _).trans ?_⟩
    · decide +kernel
    · decide +kernel
  · have blank : (Pair.front " =x").all Text.isBlank = true := by decide +kernel
    have refused : Refused " =x" .pairWithoutKey :=
      .noKey (by decide +kernel) (List.all_eq_true.1 blank)
    exact ((parsePairs_last_value _).2.2.1 _).2
      ⟨["a=1"], " =x", ["b"], rfl, by decide +kernel, refused⟩
  · exact ((parsePairs_last_value []).2.2.2 (Table.ofList [("a", "=1 "), ("b c", "")])).2
      (by decide +kernel)

end Archetype.Command
