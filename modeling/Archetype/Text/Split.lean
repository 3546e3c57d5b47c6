namespace Archetype.Text

def cutFirst (separator : Char) : List Char → List Char × Option (List Char)
  | [] => ([], none)
  | character :: rest =>
    if character = separator then ([], some rest)
    else
      let (before, after?) := cutFirst separator rest
      (character :: before, after?)

def cutLast (separator : Char) (characters : List Char) : Option (List Char) × List Char :=
  let (after, before?) := cutFirst separator characters.reverse
  (before?.map List.reverse, after.reverse)

def pieces (separator : Char) : List Char → List (List Char)
  | [] => [[]]
  | character :: rest =>
    if character = separator then [] :: pieces separator rest
    else
      match pieces separator rest with
      | [] => [[character]]
      | piece :: others => (character :: piece) :: others

def split (separator : Char) (text : String) : List String :=
  (pieces separator text.toList).map String.ofList

theorem cutFirst_append {separator : Char} {before : List Char} (h : separator ∉ before)
    (after : List Char) :
    cutFirst separator (before ++ separator :: after) = (before, some after) := by
  induction before with
  | nil => simp [cutFirst]
  | cons character rest ih =>
    simp only [List.mem_cons, not_or] at h
    simp [cutFirst, Ne.symm h.1, ih h.2]

theorem cutFirst_of_not_mem {separator : Char} {characters : List Char}
    (h : separator ∉ characters) :
    cutFirst separator characters = (characters, none) := by
  induction characters with
  | nil => rfl
  | cons character rest ih =>
    simp only [List.mem_cons, not_or] at h
    simp [cutFirst, Ne.symm h.1, ih h.2]

theorem cutFirst_of_mem {separator : Char} {characters : List Char} (h : separator ∈ characters) :
    cutFirst separator characters = (characters.takeWhile (· ≠ separator),
      some ((characters.dropWhile (· ≠ separator)).drop 1)) := by
  induction characters with
  | nil => cases h
  | cons character rest ih =>
    by_cases here : character = separator
    · simp [cutFirst, here]
    · have later : separator ∈ rest := (List.mem_cons.1 h).resolve_left (Ne.symm here)
      simp [cutFirst, here, ih later]

theorem cutFirst_eq_some_iff {separator : Char} {characters before after : List Char} :
    cutFirst separator characters = (before, some after) ↔
      separator ∉ before ∧ characters = before ++ separator :: after := by
  constructor
  · intro cut
    by_cases member : separator ∈ characters
    · obtain ⟨front, back, rfl, absent⟩ := List.eq_append_cons_of_mem member
      rw [cutFirst_append absent] at cut
      cases cut
      exact ⟨absent, rfl⟩
    · rw [cutFirst_of_not_mem member] at cut
      cases cut
  · rintro ⟨absent, rfl⟩
    exact cutFirst_append absent after

theorem pieces_ne_nil (separator : Char) (characters : List Char) :
    pieces separator characters ≠ [] := by
  cases characters with
  | nil => simp [pieces]
  | cons character rest =>
    unfold pieces
    split
    · simp
    · split <;> simp

end Archetype.Text
