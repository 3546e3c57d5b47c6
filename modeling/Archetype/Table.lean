namespace Archetype

/-- An ordered table; `==` decides which keys are one and the same. -/
structure Table (κ α : Type) [BEq κ] where
  entries : List (κ × α)
  distinct : entries.Pairwise fun first second => (first.1 == second.1) = false

namespace Table

variable {κ α β : Type} [BEq κ]

@[ext] theorem ext {left right : Table κ α} (h : left.entries = right.entries) : left = right := by
  cases left; cases right; cases h; rfl

def empty : Table κ α where
  entries := []
  distinct := List.Pairwise.nil

instance : EmptyCollection (Table κ α) := ⟨empty⟩
instance : Inhabited (Table κ α) := ⟨empty⟩

def put (key : κ) (value : α) : List (κ × α) → List (κ × α)
  | [] => [(key, value)]
  | entry :: rest =>
    if entry.1 == key then (entry.1, value) :: rest else entry :: put key value rest

theorem map_fst_put (key : κ) (value : α) (entries : List (κ × α)) :
    (put key value entries).map (·.1) =
      if entries.any (·.1 == key) then entries.map (·.1) else entries.map (·.1) ++ [key] := by
  induction entries with
  | nil => simp [put]
  | cons entry rest ih =>
    by_cases h : (entry.1 == key) = true
    · simp [put, h]
    · simp only [Bool.not_eq_true] at h
      simp only [put, h, Bool.false_eq_true, ↓reduceIte, List.map_cons, ih, List.any_cons,
        Bool.false_or, List.cons_append]
      split <;> rfl

theorem distinct_put (key : κ) (value : α) {entries : List (κ × α)}
    (h : entries.Pairwise fun first second => (first.1 == second.1) = false) :
    (put key value entries).Pairwise fun first second => (first.1 == second.1) = false := by
  have onKeys : ∀ list : List (κ × α),
      (list.Pairwise fun first second => (first.1 == second.1) = false) ↔
        (list.map (·.1)).Pairwise fun first second => (first == second) = false := fun list => by
    rw [List.pairwise_map]
  rw [onKeys, map_fst_put]
  rw [onKeys] at h
  split
  · exact h
  · rename_i absent
    rw [List.pairwise_append]
    refine ⟨h, by simp, fun first member second last => ?_⟩
    obtain ⟨entry, inside, rfl⟩ := List.mem_map.1 member
    obtain rfl := List.mem_singleton.1 last
    simp only [List.any_eq_true, not_exists, not_and] at absent
    exact Bool.eq_false_iff.2 (absent entry inside)

def insert (table : Table κ α) (key : κ) (value : α) : Table κ α where
  entries := put key value table.entries
  distinct := distinct_put key value table.distinct

def get? (table : Table κ α) (key : κ) : Option α :=
  (table.entries.find? (·.1 == key)).map (·.2)

def contains (table : Table κ α) (key : κ) : Bool :=
  table.entries.any (·.1 == key)

def keys (table : Table κ α) : List κ :=
  table.entries.map (·.1)

def insertAll (table : Table κ α) (entries : List (κ × α)) : Table κ α :=
  entries.foldl (fun table entry => table.insert entry.1 entry.2) table

/-- The table of a list of entries: of a repeated key the first place and the last value count. -/
def ofList (entries : List (κ × α)) : Table κ α :=
  insertAll ∅ entries

def union (table upper : Table κ α) : Table κ α :=
  table.insertAll upper.entries

def filter (keep : κ → Bool) (table : Table κ α) : Table κ α where
  entries := table.entries.filter fun entry => keep entry.1
  distinct := table.distinct.filter _

def erase (table : Table κ α) (key : κ) : Table κ α :=
  table.filter fun other => !(other == key)

def isEmpty (table : Table κ α) : Bool :=
  table.entries.isEmpty

@[simp] theorem entries_empty : (∅ : Table κ α).entries = [] := rfl

@[simp] theorem get?_empty (key : κ) : (∅ : Table κ α).get? key = none := rfl

theorem find?_put [EquivBEq κ] (key other : κ) (value : α) (entries : List (κ × α)) :
    ((put key value entries).find? (·.1 == other)).map (·.2) =
      if key == other then some value else (entries.find? (·.1 == other)).map (·.2) := by
  induction entries with
  | nil => by_cases h : (key == other) = true <;> simp [put, h]
  | cons entry rest ih =>
    by_cases here : (entry.1 == key) = true
    · have : (entry.1 == other) = (key == other) := BEq.congr_left here
      by_cases h : (key == other) = true <;> simp [put, here, this, h]
    · simp only [Bool.not_eq_true] at here
      simp only [put, here, Bool.false_eq_true, ↓reduceIte]
      by_cases h : (entry.1 == other) = true
      · have apart : (key == other) = false := Bool.eq_false_iff.2 fun same =>
          absurd (BEq.trans h (BEq.symm same)) (by simp [here])
        simp [h, apart]
      · simp only [Bool.not_eq_true] at h
        simp only [List.find?_cons, h]
        exact ih

theorem get?_insert [EquivBEq κ] (table : Table κ α) (key other : κ) (value : α) :
    (table.insert key value).get? other =
      if key == other then some value else table.get? other :=
  find?_put key other value table.entries

theorem keys_insert (table : Table κ α) (key : κ) (value : α) :
    (table.insert key value).keys =
      if table.contains key then table.keys else table.keys ++ [key] :=
  map_fst_put key value table.entries

end Table

end Archetype
