import Archetype.Copier

namespace Archetype.Text

theorem subset_withinSteps (step : Nat → List Nat) (count : Nat) (places : List Nat) :
    places ⊆ withinSteps step count places := by
  induction count generalizing places with
  | zero => exact List.Subset.refl places
  | succ count ih =>
      intro place member
      exact ih _ (List.mem_eraseDups.2 (List.mem_append_left _ member))

theorem forall_mem_withinSteps {step : Nat → List Nat} (holds : Nat → Prop)
    (preserved : ∀ place, holds place → ∀ next ∈ step place, holds next) (count : Nat)
    {places : List Nat} (start : ∀ place ∈ places, holds place) :
    ∀ place ∈ withinSteps step count places, holds place := by
  induction count generalizing places with
  | zero => exact start
  | succ count ih =>
      refine ih fun place member => ?_
      rcases List.mem_append.1 (List.mem_eraseDups.1 member) with before | after
      · exact start place before
      · obtain ⟨origin, listed, stepped⟩ := List.mem_flatMap.1 after
        exact preserved origin (start origin listed) place stepped

theorem mem_withinSteps_of_step {step : Nat → List Nat} {count place next reached : Nat}
    {places : List Nat} (member : place ∈ places) (stepped : next ∈ step place)
    (within : ∀ others, next ∈ others → reached ∈ withinSteps step count others) :
    reached ∈ withinSteps step (count + 1) places :=
  within _ (List.mem_eraseDups.2 (List.mem_append_right _
    (List.mem_flatMap.2 ⟨place, member, stepped⟩)))

namespace Pattern

variable {text : Array Char} {place reached : Nat}

theorem mem_ends_sequence_iff {first second : Pattern} :
    reached ∈ ends text (.sequence first second) place ↔
      ∃ middle ∈ ends text first place, reached ∈ ends text second middle := by
  rw [ends, List.mem_eraseDups, List.mem_flatMap]

theorem mem_ends_char_iff {character : Char} :
    reached ∈ ends text (char character) place ↔
      text[place]? = some character ∧ reached = place + 1 := by
  rw [char, ends]
  cases held : text[place]? with
  | none => simp
  | some other =>
      have within : (ClassItem.range character character).holds other = decide (other = character) := by
        rw [Bool.eq_iff_iff]
        simp only [ClassItem.holds, Bool.and_eq_true, decide_eq_true_eq]
        exact ⟨fun both => Char.le_antisymm both.2 both.1,
          fun same => same ▸ ⟨Char.le_refl _, Char.le_refl _⟩⟩
      simp only [List.any_cons, List.any_nil, within, Bool.or_false]
      by_cases same : other = character <;> simp [same]

theorem mem_ends_boundary_iff {kind : Boundary} :
    reached ∈ ends text (.boundary kind) place ↔
      kind.holds text place = true ∧ reached = place := by
  rw [ends]
  cases kind.holds text place <;> simp

theorem cons_prefix_drop_iff {characters others : List Char} {first : Char} {place : Nat} :
    first :: others <+: characters.drop place ↔
      characters[place]? = some first ∧ others <+: characters.drop (place + 1) := by
  by_cases within : place < characters.length
  · rw [List.drop_eq_getElem_cons within, List.cons_prefix_cons, List.getElem?_eq_getElem within,
      Option.some_inj, eq_comm]
  · rw [List.drop_eq_nil_of_le (Nat.le_of_not_lt within),
      List.getElem?_eq_none (Nat.le_of_not_lt within)]
    simp

theorem mem_ends_literal_iff {characters : String} :
    reached ∈ ends text (literal characters) place ↔
      characters.toList <+: text.toList.drop place ∧ reached = place + characters.toList.length := by
  rw [literal]
  generalize characters.toList = characters
  induction characters generalizing place reached with
  | nil => simp [ends]
  | cons first others ih =>
      rw [List.foldr_cons, mem_ends_sequence_iff, cons_prefix_drop_iff, List.length_cons]
      constructor
      · rintro ⟨middle, starts, rest⟩
        obtain ⟨here, rfl⟩ := mem_ends_char_iff.1 starts
        obtain ⟨later, rfl⟩ := ih.1 rest
        exact ⟨⟨by rwa [Array.getElem?_toList], later⟩, by omega⟩
      · rintro ⟨⟨here, later⟩, rfl⟩
        rw [Array.getElem?_toList] at here
        exact ⟨place + 1, mem_ends_char_iff.2 ⟨here, rfl⟩, ih.2 ⟨later, by omega⟩⟩

theorem mem_ends_any_iff :
    reached ∈ ends text .any place ↔
      (∃ character, text[place]? = some character ∧ character ≠ '\n') ∧ reached = place + 1 := by
  rw [ends]
  cases text[place]? with
  | none => simp
  | some character => by_cases feed : character = '\n' <;> simp [feed]

theorem mem_ends_anything_iff :
    reached ∈ ends text Copier.anything place ↔ place ≤ reached ∧ ∀ index, place ≤ index →
      index < reached → ∃ character, text[index]? = some character ∧ character ≠ '\n' := by
  rw [Copier.anything, ends]
  simp only [afterSteps]
  constructor
  · refine forall_mem_withinSteps (fun reached => place ≤ reached ∧ ∀ index, place ≤ index →
      index < reached → ∃ character, text[index]? = some character ∧ character ≠ '\n') ?_ _ ?_ reached
    · rintro origin ⟨above, run⟩ next stepped
      obtain ⟨here, rfl⟩ := mem_ends_any_iff.1 stepped
      refine ⟨by omega, fun index low high => ?_⟩
      rcases Nat.lt_succ_iff_lt_or_eq.1 high with before | rfl
      · exact run index low before
      · exact here
    · refine List.forall_mem_singleton.2 ⟨Nat.le_refl _, fun index low high => ?_⟩
      omega
  · rintro ⟨above, run⟩
    -- every character of the run is within the text, so the steps suffice
    have bound : reached - place ≤ text.size + 1 := by
      refine Nat.le_of_not_lt fun exceeds => ?_
      obtain ⟨character, held, -⟩ := run (place + text.size) (by omega) (by omega)
      rw [Array.getElem?_eq_none (Nat.le_add_left _ _)] at held
      cases held
    obtain ⟨steps, rfl⟩ := Nat.exists_eq_add_of_le above
    rw [Nat.add_sub_cancel_left] at bound
    generalize text.size + 1 = count at bound
    have reaches : ∀ places, place ∈ places →
        place + steps ∈ withinSteps (ends text .any) count places := by
      clear above
      induction steps generalizing place count with
      | zero => exact fun places member => subset_withinSteps _ _ _ member
      | succ steps ih =>
          intro places member
          obtain ⟨count, rfl⟩ := Nat.exists_eq_add_of_lt (Nat.lt_of_lt_of_le (Nat.succ_pos _) bound)
          rw [Nat.zero_add]
          refine mem_withinSteps_of_step member
            (mem_ends_any_iff.2 ⟨run place (Nat.le_refl _) (by omega), rfl⟩) fun others inside => ?_
          have later := ih (fun index low high => run index (by omega) (by omega)) count (by omega)
            others inside
          rwa [Nat.add_assoc, Nat.add_comm 1] at later
    exact reaches [place] (List.mem_singleton_self _)

theorem occursIn_iff {pattern : Pattern} {characters : String} :
    pattern.occursIn characters = true ↔ ∃ place ≤ characters.toList.length, ∃ reached,
      reached ∈ ends characters.toList.toArray pattern place := by
  simp only [occursIn, List.any_eq_true, List.mem_range, Bool.not_eq_true',
    List.isEmpty_eq_false_iff_exists_mem, List.size_toArray, Nat.lt_succ_iff]

end Pattern

end Archetype.Text

namespace Archetype.Copier

open Archetype.Text Archetype.Text.Pattern

inductive IsLitter (name : String) : Prop
  | backup (last : name.toList.getLast? = some '~')
  | edited (more : 2 ≤ name.toList.length) (first : name.toList.head? = some '#')
      (last : name.toList.getLast? = some '#')
  | locked (starts : ['.', '#'] <+: name.toList)
  | desktop (same : name = ".DS_Store")

theorem holds_finish_iff {characters : List Char} (oneLine : '\n' ∉ characters) {place : Nat} :
    Boundary.finish.holds characters.toArray place = true ↔ place = characters.length := by
  simp only [Boundary.holds, List.size_toArray, Bool.or_eq_true, decide_eq_true_eq,
    Bool.and_eq_true, List.getElem?_toArray]
  refine ⟨fun either => either.resolve_right fun feed => ?_, Or.inl⟩
  exact oneLine (List.mem_of_getElem? feed.2)

theorem run_of_oneLine {characters : List Char} (oneLine : '\n' ∉ characters) {place reached : Nat}
    (ordered : place ≤ reached) (within : reached ≤ characters.length) :
    reached ∈ ends characters.toArray anything place := by
  refine mem_ends_anything_iff.2 ⟨ordered, fun index low high => ?_⟩
  have bound : index < characters.length := by omega
  refine ⟨characters[index], by simp [bound], fun feed => oneLine ?_⟩
  rw [← feed]
  exact List.getElem_mem bound

section OneLine

variable {name : String} (oneLine : '\n' ∉ name.toList)

include oneLine

theorem occursIn_backup_iff : (Pattern.sequence anything (.sequence (.char '~')
    (.boundary .finish))).occursIn name = true ↔ name.toList.getLast? = some '~' := by
  rw [occursIn_iff, List.getLast?_eq_getElem?]
  simp only [mem_ends_sequence_iff, mem_ends_char_iff, mem_ends_boundary_iff,
    List.getElem?_toArray]
  constructor
  · rintro ⟨place, -, reached, middle, -, -, ⟨here, rfl⟩, finishes, -⟩
    rw [← (holds_finish_iff oneLine).1 finishes]
    exact here
  · intro last
    have within := List.getElem?_eq_some_iff.1 last |>.1
    have whole : name.toList.length - 1 + 1 = name.toList.length := by omega
    refine ⟨0, Nat.zero_le _, _, _, run_of_oneLine oneLine (Nat.zero_le _) (Nat.le_of_lt within), _,
      ⟨last, rfl⟩, ?_, rfl⟩
    rw [whole]
    exact (holds_finish_iff oneLine).2 rfl

theorem occursIn_edited_iff : (Pattern.sequence (.boundary .start) (.sequence (.char '#')
    (.sequence anything (.sequence (.char '#') (.boundary .finish))))).occursIn name = true ↔
      2 ≤ name.toList.length ∧ name.toList.head? = some '#' ∧ name.toList.getLast? = some '#' := by
  rw [occursIn_iff, List.getLast?_eq_getElem?, List.head?_eq_getElem?]
  simp only [mem_ends_sequence_iff, mem_ends_char_iff, mem_ends_boundary_iff,
    List.getElem?_toArray]
  constructor
  · rintro ⟨_, -, _, place, ⟨starts, rfl⟩, _, ⟨first, rfl⟩, middle, run, _, ⟨here, rfl⟩,
      finishes, -⟩
    obtain rfl : place = 0 := by simpa [Boundary.holds] using starts
    have above := (mem_ends_anything_iff.1 run).1
    have whole := (holds_finish_iff oneLine).1 finishes
    refine ⟨by omega, first, ?_⟩
    rw [← whole]
    exact here
  · rintro ⟨more, first, last⟩
    have whole : name.toList.length - 1 + 1 = name.toList.length := by omega
    refine ⟨0, Nat.zero_le _, _, 0, ⟨by simp [Boundary.holds], rfl⟩, 1, ⟨first, rfl⟩, _,
      run_of_oneLine oneLine (by omega) (Nat.sub_le _ 1), _, ⟨last, rfl⟩, ?_, rfl⟩
    rw [whole]
    exact (holds_finish_iff oneLine).2 rfl

theorem occursIn_locked_iff : (Pattern.sequence (.boundary .start) (.sequence (.literal ".#")
    anything)).occursIn name = true ↔ ['.', '#'] <+: name.toList := by
  rw [occursIn_iff]
  simp only [mem_ends_sequence_iff, mem_ends_boundary_iff, mem_ends_literal_iff]
  constructor
  · rintro ⟨_, -, _, place, ⟨starts, rfl⟩, _, ⟨marked, -⟩, -⟩
    obtain rfl : place = 0 := by simpa [Boundary.holds] using starts
    exact marked
  · intro marked
    exact ⟨0, Nat.zero_le _, _, 0, ⟨by simp [Boundary.holds], rfl⟩, _, ⟨marked, rfl⟩,
      run_of_oneLine oneLine (Nat.le_refl _) marked.length_le⟩

theorem occursIn_desktop_iff : (Pattern.sequence (.boundary .start) (.sequence
    (.literal ".DS_Store") (.boundary .finish))).occursIn name = true ↔ name = ".DS_Store" := by
  rw [occursIn_iff]
  simp only [mem_ends_sequence_iff, mem_ends_boundary_iff, mem_ends_literal_iff]
  constructor
  · rintro ⟨_, -, _, place, ⟨starts, rfl⟩, _, ⟨named, rfl⟩, finishes, -⟩
    obtain rfl : place = 0 := by simpa [Boundary.holds] using starts
    have whole := (holds_finish_iff oneLine).1 finishes
    rw [Nat.zero_add] at whole
    exact String.toList_inj.1 (named.eq_of_length whole).symm
  · rintro rfl
    exact ⟨0, Nat.zero_le _, _, 0, ⟨by simp [Boundary.holds], rfl⟩, _,
      ⟨List.prefix_refl _, rfl⟩, by simp [Boundary.holds], rfl⟩

theorem ignoresName_standard_iff : standard.ignoresName name = true ↔ IsLitter name := by
  have patterns : standard.ignoresName name = true ↔
      name.toList.getLast? = some '~' ∨
      (2 ≤ name.toList.length ∧ name.toList.head? = some '#' ∧ name.toList.getLast? = some '#') ∨
      ['.', '#'] <+: name.toList ∨ name = ".DS_Store" := by
    rw [← occursIn_backup_iff oneLine, ← occursIn_edited_iff oneLine, ← occursIn_locked_iff oneLine,
      ← occursIn_desktop_iff oneLine]
    simp only [ignoresName, standard, defaultIgnores, List.any_cons, List.any_nil, Bool.or_false,
      Bool.or_eq_true]
  rw [patterns]
  constructor
  · rintro (last | ⟨more, first, last⟩ | starts | same)
    · exact .backup last
    · exact .edited more first last
    · exact .locked starts
    · exact .desktop same
  · rintro (last | ⟨more, first, last⟩ | starts | same)
    · exact Or.inl last
    · exact Or.inr (Or.inl ⟨more, first, last⟩)
    · exact Or.inr (Or.inr (Or.inl starts))
    · exact Or.inr (Or.inr (Or.inr same))

end OneLine

end Archetype.Copier
