import Archetype.Proofs.Locations

namespace Archetype.Template

def spellAfter (separator : Char) (part? : Option (List Char)) : List Char :=
  part?.elim [] (separator :: ·)

def Cuts (separators : List Char) : List Char → Prop
  | [] => True
  | first :: rest => first ∈ separators ∧ rest ≠ []

def Sooner : Option (List Char) → Option (List Char) → Prop
  | some part, some other => part.length < other.length
  | some _, none => True
  | none, _ => False

theorem cuts_mono {separators more : List Char} (within : separators ⊆ more)
    {characters : List Char} (cuts : Cuts separators characters) : Cuts more characters := by
  cases characters with
  | nil => trivial
  | cons first rest => exact ⟨within cuts.1, cuts.2⟩

theorem cuts_spellAfter {separator : Char} {separators : List Char} (member : separator ∈ separators)
    {part? : Option (List Char)} (more : ∀ part ∈ part?, part ≠ []) {rest : List Char}
    (cuts : Cuts separators rest) : Cuts separators (spellAfter separator part? ++ rest) := by
  cases part? with
  | none => exact cuts
  | some part => exact ⟨member, List.append_ne_nil_of_left_ne_nil (more part rfl) rest⟩

section Part

variable {separators : List Char}

theorem takePart_go_cons (first next : Char) (rest : List Char) :
    takePart.go separators first (next :: rest) =
      if next ∈ separators ∧ rest ≠ [] then ([first], next :: rest)
      else (first :: (takePart.go separators next rest).1, (takePart.go separators next rest).2) := by
  simp only [takePart.go, Bool.and_eq_true, List.contains_iff_mem, Bool.not_eq_true',
    List.isEmpty_eq_false_iff]

theorem takePart_go_cuts (first : Char) (characters : List Char) :
    Cuts separators (takePart.go separators first characters).2 := by
  induction characters generalizing first with
  | nil => trivial
  | cons next rest ih =>
      rw [takePart_go_cons]
      split
      · assumption
      · exact ih next

theorem takePart_go_of_cuts (first : Char) {rest : List Char} (cuts : Cuts separators rest) :
    takePart.go separators first rest = ([first], rest) := by
  cases rest with
  | nil => rfl
  | cons next others => exact (takePart_go_cons _ _ _).trans (if_pos cuts)

theorem takePart_go_shortest (first : Char) (part : List Char) {rest : List Char}
    (cuts : Cuts separators rest) :
    (takePart.go separators first (part ++ rest)).1.length < (first :: part).length ∨
      takePart.go separators first (part ++ rest) = (first :: part, rest) := by
  induction part generalizing first with
  | nil => exact Or.inr (takePart_go_of_cuts first cuts)
  | cons next part ih =>
      rw [List.cons_append, takePart_go_cons]
      split
      · exact Or.inl (by simp)
      · rcases ih next with shorter | same
        · exact Or.inl (Nat.succ_lt_succ shorter)
        · exact Or.inr (by rw [same])

theorem takePart_shortest {part rest : List Char} (more : part ≠ []) (cuts : Cuts separators rest) :
    (takePart separators (part ++ rest)).1.length < part.length ∨
      takePart separators (part ++ rest) = (part, rest) := by
  obtain ⟨first, others, rfl⟩ := List.exists_cons_of_ne_nil more
  exact takePart_go_shortest first others cuts

theorem takePart_go_of_free (first : Char) {part : List Char}
    (free : ∀ character ∈ part, character ∉ separators) {rest : List Char}
    (cuts : Cuts separators rest) :
    takePart.go separators first (part ++ rest) = (first :: part, rest) := by
  induction part generalizing first with
  | nil => exact takePart_go_of_cuts first cuts
  | cons next part ih =>
      obtain ⟨here, later⟩ := List.forall_mem_cons.1 free
      rw [List.cons_append, takePart_go_cons, if_neg fun stops => here stops.1, ih next later]

theorem takePart_of_free {part : List Char} (more : part ≠ [])
    (free : ∀ character ∈ part, character ∉ separators) {rest : List Char}
    (cuts : Cuts separators rest) : takePart separators (part ++ rest) = (part, rest) := by
  obtain ⟨first, others, rfl⟩ := List.exists_cons_of_ne_nil more
  exact takePart_go_of_free first (fun character member =>
    free character (List.mem_cons_of_mem _ member)) cuts

theorem takePart_cuts (characters : List Char) :
    Cuts separators (takePart separators characters).2 := by
  cases characters with
  | nil => trivial
  | cons first rest => exact takePart_go_cuts first rest

theorem takePart_ne_nil {characters : List Char} (more : characters ≠ []) :
    (takePart separators characters).1 ≠ [] := by
  obtain ⟨first, rest, rfl⟩ := List.exists_cons_of_ne_nil more
  cases rest with
  | nil => exact List.cons_ne_nil _ _
  | cons next others =>
      change (takePart.go separators first (next :: others)).1 ≠ []
      rw [takePart_go_cons]
      split <;> exact List.cons_ne_nil _ _

end Part

section After

variable (separator : Char) (separators : List Char)

theorem takeAfter_append (characters : List Char) :
    spellAfter separator (takeAfter separator separators characters).1 ++
      (takeAfter separator separators characters).2 = characters := by
  cases characters with
  | nil => rfl
  | cons first rest =>
      by_cases starts : first = separator
      · simp only [takeAfter, if_pos starts]
        exact congrArg₂ List.cons starts.symm (takePart_append separators rest)
      · simp only [takeAfter, if_neg starts]
        rfl

theorem takeAfter_cuts {characters : List Char} (cuts : Cuts (separator :: separators) characters) :
    (∀ part ∈ (takeAfter separator separators characters).1, part ≠ []) ∧
      Cuts separators (takeAfter separator separators characters).2 := by
  cases characters with
  | nil => exact ⟨by simp [takeAfter], trivial⟩
  | cons first rest =>
      by_cases starts : first = separator
      · simp only [takeAfter, if_pos starts]
        refine ⟨?_, takePart_cuts rest⟩
        rintro part ⟨⟩
        exact takePart_ne_nil cuts.2
      · simp only [takeAfter, if_neg starts]
        exact ⟨by simp, (List.mem_cons.1 cuts.1).resolve_left starts, cuts.2⟩

theorem takeAfter_sooner {part? : Option (List Char)} (more : ∀ part ∈ part?, part ≠ [])
    {rest : List Char} (cuts : Cuts separators rest) :
    Sooner (takeAfter separator separators (spellAfter separator part? ++ rest)).1 part? ∨
      takeAfter separator separators (spellAfter separator part? ++ rest) = (part?, rest) := by
  cases part? with
  | none =>
      cases rest with
      | nil => exact Or.inr rfl
      | cons first others =>
          by_cases starts : first = separator
          · exact Or.inl (by simp [takeAfter, spellAfter, starts, Sooner])
          · exact Or.inr (by simp [takeAfter, spellAfter, starts])
  | some part =>
      simp only [spellAfter, Option.elim_some, List.cons_append, takeAfter, if_pos]
      rcases takePart_shortest (more part rfl) cuts with shorter | same
      · exact Or.inl shorter
      · exact Or.inr (by rw [same])

theorem takeAfter_of_free {part? : Option (List Char)} (more : ∀ part ∈ part?, part ≠ [])
    (free : ∀ part ∈ part?, ∀ character ∈ part, character ∉ separators) {rest : List Char}
    (cuts : Cuts separators rest) (apart : part? = none → rest.head? ≠ some separator) :
    takeAfter separator separators (spellAfter separator part? ++ rest) = (part?, rest) := by
  cases part? with
  | none =>
      cases rest with
      | nil => rfl
      | cons first others =>
          have starts : first ≠ separator := fun same => apart rfl (same ▸ rfl)
          simp [takeAfter, spellAfter, starts]
  | some part =>
      simp only [spellAfter, Option.elim_some, List.cons_append, takeAfter, if_pos,
        takePart_of_free (more part rfl) (free part rfl) cuts]

end After

namespace Parts

def spelled (parts : Parts) : List Char :=
  parts.repository ++ (spellAfter '%' parts.first? ++
    (spellAfter '%' parts.second? ++ (spellAfter '#' parts.reference? ++ [])))

structure Proper (parts : Parts) : Prop where
  repository : parts.repository ≠ []
  first : ∀ part ∈ parts.first?, part ≠ []
  second : ∀ part ∈ parts.second?, part ≠ []
  reference : ∀ part ∈ parts.reference?, part ≠ []

structure Reads (parts : Parts) (characters : List Char) : Prop extends parts.Proper where
  spelled : parts.spelled = characters

/-- No character of the parts can be taken for a separator. The reference may hold any characters,
since nothing comes after it. -/
structure Plain (parts : Parts) : Prop where
  repository : '%' ∉ parts.repository ∧ '#' ∉ parts.repository
  first : ∀ part ∈ parts.first?, '%' ∉ part ∧ '#' ∉ part
  second : ∀ part ∈ parts.second?, '%' ∉ part ∧ '#' ∉ part
  nested : parts.first? = none → parts.second? = none

inductive Before (parts other : Parts) : Prop
  | repository (shorter : parts.repository.length < other.repository.length)
  | first (repository : parts.repository = other.repository)
      (sooner : Sooner parts.first? other.first?)
  | second (repository : parts.repository = other.repository) (first : parts.first? = other.first?)
      (sooner : Sooner parts.second? other.second?)
  | reference (repository : parts.repository = other.repository)
      (first : parts.first? = other.first?) (second : parts.second? = other.second?)
      (sooner : Sooner parts.reference? other.reference?)

theorem reads_ofChars {characters : List Char} (more : characters ≠ []) :
    (ofChars characters).Reads characters := by
  obtain ⟨first, first_cuts⟩ := takeAfter_cuts '%' ['%', '#'] (cuts_mono
    (List.subset_cons_self _ _) (takePart_cuts characters))
  obtain ⟨second, second_cuts⟩ := takeAfter_cuts '%' ['#'] first_cuts
  obtain ⟨reference, last_cuts⟩ := takeAfter_cuts '#' [] second_cuts
  refine ⟨⟨takePart_ne_nil more, first, second, reference⟩, ?_⟩
  have nothing : ∀ {rest : List Char}, Cuts [] rest → rest = [] := fun {rest} cuts => by
    cases rest with
    | nil => rfl
    | cons next others => cases cuts.1
  have whole := takePart_append ['%', '#'] characters
  rw [← takeAfter_append '%' ['%', '#']
    (takePart ['%', '#'] characters).2, ← takeAfter_append '%' ['#']
      (takeAfter '%' ['%', '#'] (takePart ['%', '#'] characters).2).2,
    ← takeAfter_append '#' [] (takeAfter '%' ['#']
      (takeAfter '%' ['%', '#'] (takePart ['%', '#'] characters).2).2).2, nothing last_cuts] at whole
  exact whole

section Reading

variable {parts : Parts}

theorem Proper.cuts (proper : parts.Proper) :
    Cuts ['#'] (spellAfter '#' parts.reference? ++ []) ∧
      Cuts ['%', '#'] (spellAfter '%' parts.second? ++ (spellAfter '#' parts.reference? ++ [])) ∧
      Cuts ['%', '#'] (spellAfter '%' parts.first? ++
        (spellAfter '%' parts.second? ++ (spellAfter '#' parts.reference? ++ []))) := by
  have reference : Cuts ['#'] (spellAfter '#' parts.reference? ++ []) :=
    cuts_spellAfter List.mem_cons_self proper.reference trivial
  have second : Cuts ['%', '#'] (spellAfter '%' parts.second? ++
      (spellAfter '#' parts.reference? ++ [])) :=
    cuts_spellAfter List.mem_cons_self proper.second (cuts_mono (List.subset_cons_self _ _) reference)
  exact ⟨reference, second, cuts_spellAfter List.mem_cons_self proper.first second⟩

theorem before_ofChars {characters : List Char} (reads : parts.Reads characters) :
    ofChars characters = parts ∨ (ofChars characters).Before parts := by
  obtain rfl := reads.spelled
  obtain ⟨reference_cuts, second_cuts, first_cuts⟩ := reads.cuts
  rcases takePart_shortest reads.repository first_cuts with shorter | repository
  · exact Or.inr (.repository shorter)
  rcases takeAfter_sooner '%' ['%', '#'] reads.first second_cuts with sooner | first
  · exact Or.inr (.first (congrArg Prod.fst repository) (by
      simpa only [ofChars, spelled, repository] using sooner))
  rcases takeAfter_sooner '%' ['#'] reads.second reference_cuts with sooner | second
  · exact Or.inr (.second (congrArg Prod.fst repository)
      (by simp only [ofChars, spelled, repository, first])
      (by simpa only [ofChars, spelled, repository, first] using sooner))
  rcases takeAfter_sooner '#' [] reads.reference (show Cuts [] [] from trivial) with sooner | reference
  · exact Or.inr (.reference (congrArg Prod.fst repository)
      (by simp only [ofChars, spelled, repository, first])
      (by simp only [ofChars, spelled, repository, first, second])
      (by simpa only [ofChars, spelled, repository, first, second] using sooner))
  · exact Or.inl (by simp only [ofChars, spelled, repository, first, second, reference])

theorem free_of_plain {part : List Char} (plain : '%' ∉ part ∧ '#' ∉ part) :
    ∀ character ∈ part, character ∉ ['%', '#'] := by
  rintro character member listed
  rcases List.mem_cons.1 listed with rfl | last
  · exact plain.1 member
  · exact plain.2 (List.mem_singleton.1 last ▸ member)

theorem ofChars_spelled (proper : parts.Proper) (plain : parts.Plain) :
    ofChars parts.spelled = parts := by
  obtain ⟨reference_cuts, second_cuts, first_cuts⟩ := proper.cuts
  have number_sign : (spellAfter '#' parts.reference? ++ []).head? ≠ some '%' := by
    cases parts.reference? <;> simp [spellAfter]
  have repository := takePart_of_free proper.repository (free_of_plain plain.repository) first_cuts
  have first := takeAfter_of_free '%' ['%', '#'] proper.first
    (fun part there => free_of_plain (plain.first part there)) second_cuts fun absent => by
      rw [plain.nested absent]
      exact number_sign
  have second := takeAfter_of_free '%' ['#'] proper.second
    (fun part there character member listed => free_of_plain (plain.second part there) character
      member (List.mem_cons_of_mem _ listed)) reference_cuts fun _ => number_sign
  have reference := takeAfter_of_free '#' [] proper.reference
    (fun _ _ _ _ => List.not_mem_nil) (show Cuts [] [] from trivial) fun _ => nofun
  simp only [ofChars, spelled, repository, first, second, reference]

end Reading

end Parts

namespace TemplateName

theorem parse_of_oneLine {space text : String} (more : Text.strip text ≠ "")
    (oneLine : '\n' ∉ (Text.strip text).toList) :
    parse space text = .ok (ofParts space (Parts.ofChars (Text.strip text).toList)) := by
  have kept : ((Text.strip text).toList.isEmpty || (Text.strip text).toList.contains '\n') =
      false := by
    simp [more, oneLine]
  simp only [parse, kept, Bool.false_eq_true, ↓reduceIte]

theorem parse_eq_ok_iff {space text : String} :
    (∃ name, parse space text = .ok name) ↔
      Text.strip text ≠ "" ∧ '\n' ∉ (Text.strip text).toList := by
  refine ⟨fun ⟨name, parses⟩ => ?_, fun ⟨more, oneLine⟩ => ⟨_, parse_of_oneLine more oneLine⟩⟩
  simp only [parse] at parses
  split at parses
  · cases parses
  · rename_i kept
    simpa using kept

theorem qualify_ofList (space : String) (asked : List Char) :
    qualify space (String.ofList asked) =
      if '/' ∈ asked then String.ofList asked else space ++ "/" ++ String.ofList asked := by
  by_cases qualified : '/' ∈ asked <;> simp [qualify, qualified]

theorem ofParts_eq (space : String) (parts : Parts) :
    let asked := (parts.second?.or parts.first?).getD parts.repository
    ofParts space parts = {
      repository := String.ofList parts.repository
      directory? := parts.second?.bind fun _ => parts.first?.map String.ofList
      template := if '/' ∈ asked then String.ofList asked
        else space ++ "/" ++ String.ofList asked
      reference? := parts.reference?.map String.ofList } := by
  obtain ⟨repository, first?, second?, reference?⟩ := parts
  cases second? <;> simp only [ofParts, qualify_ofList] <;> rfl

/-- A text asks for a template unless it is blank or has several lines. Its parts make up the text
without the blanks at its ends, and no other reading is tried before them; parts that no character
of theirs confuses are read back from their text, and the last one before the reference names the
template, under the namespace if it has no qualifier. -/
theorem parse_first_reading (space : String) :
    (∀ text, (∃ name, parse space text = .ok name) ↔
      Text.strip text ≠ "" ∧ '\n' ∉ (Text.strip text).toList) ∧
    (∀ text name, parse space text = .ok name → ∃ parts : Parts,
      name = ofParts space parts ∧ parts.Reads (Text.strip text).toList ∧
        ∀ other : Parts, other.Reads (Text.strip text).toList → parts = other ∨ parts.Before other) ∧
    ∀ parts : Parts, parts.Proper → parts.Plain → '\n' ∉ parts.spelled →
      (∀ character ∈ parts.spelled.head?, Text.isBlank character = false) →
      (∀ character ∈ parts.spelled.getLast?, Text.isBlank character = false) →
      let asked := (parts.second?.or parts.first?).getD parts.repository
      parse space (String.ofList parts.spelled) = .ok {
        repository := String.ofList parts.repository
        directory? := parts.second?.bind fun _ => parts.first?.map String.ofList
        template := if '/' ∈ asked then String.ofList asked
          else space ++ "/" ++ String.ofList asked
        reference? := parts.reference?.map String.ofList } := by
  refine ⟨fun text => parse_eq_ok_iff, fun text name parses => ?_,
    fun parts proper plain oneLine first last => ?_⟩
  · obtain ⟨more, oneLine⟩ := parse_eq_ok_iff.1 ⟨name, parses⟩
    rw [parse_of_oneLine more oneLine] at parses
    obtain rfl := Except.ok.inj parses
    exact ⟨_, rfl, Parts.reads_ofChars (by simpa using more), fun other => Parts.before_ofChars⟩
  · have stripped : Text.strip (String.ofList parts.spelled) = String.ofList parts.spelled := by
      rw [Text.strip, String.toList_ofList, Text.trim_of_ends first last]
    have more : parts.spelled ≠ [] := List.append_ne_nil_of_left_ne_nil proper.repository _
    rw [parse_of_oneLine (by rw [stripped]; simpa using more) (by
      rwa [stripped, String.toList_ofList]), stripped, String.toList_ofList,
      Parts.ofChars_spelled proper plain]
    exact congrArg Except.ok (ofParts_eq space parts)

theorem parse_first_reading_nested :
    let text := "acme/tool%templates%app#v1%2#3"
    TemplateName.parse "stencil.templates" text =
        .ok ⟨"acme/tool", some "templates", "stencil.templates/app", some "v1%2#3"⟩ ∧
      ∃ parts : Parts, parts.Reads (Text.strip text).toList ∧
        ∀ other : Parts, other.Reads (Text.strip text).toList →
          parts = other ∨ parts.Before other := by
  intro text
  let parts : Parts := ⟨"acme/tool".toList, some "templates".toList, some "app".toList,
    some "v1%2#3".toList⟩
  obtain ⟨-, readings, plain⟩ := parse_first_reading "stencil.templates"
  have written : String.ofList parts.spelled = text := by decide
  have starts : parts.spelled.head? = some 'a' := by decide
  have stops : parts.spelled.getLast? = some '3' := by decide
  have parses : TemplateName.parse "stencil.templates" text =
      .ok ⟨"acme/tool", some "templates", "stencil.templates/app", some "v1%2#3"⟩ := by
    rw [← written]
    exact plain parts ⟨by decide, by decide, by decide, by decide⟩
      ⟨by decide, by decide, by decide, by decide⟩ (by decide)
      (by rw [starts]; rintro _ ⟨⟩; decide)
      (by rw [stops]; rintro _ ⟨⟩; decide)
  obtain ⟨found, -, reads⟩ := readings text _ parses
  exact ⟨parses, found, reads⟩

end TemplateName

end Archetype.Template
