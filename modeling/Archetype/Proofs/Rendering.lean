import Archetype.Placeholder
import Archetype.Proofs.Tables

/-!
# Writing replacements into a text, and rendering it at once

`Replacements.apply` rewrites the whole text once per placeholder, so a later placeholder meets what
earlier ones have inserted. Rendering reads the text as a sequence of pieces, each either literal or a
placeholder, and puts a value in the place of every placeholder in a single pass.

The two agree when literal texts, names and values are free of the delimiters' characters. The
invariant is the division into pieces: after each rewriting the text is still made up of pieces, since
a placeholder of the table can only be found where a piece starts (`replaceFrom_placeholder`), and the
value inserted there is one more literal piece (`replace_text`).
-/

namespace Archetype.Text

theorem replaceFrom_skip (old new passed rest : List Char) :
    replaceFrom old new passed.length (passed ++ rest) = replaceFrom old new 0 rest := by
  induction passed with
  | nil => rfl
  | cons character others ih => exact ih

theorem replaceFrom_append_of_not_mem {first : Char} {old : List Char} (new : List Char)
    {before : List Char} (absent : first ∉ before) (rest : List Char) :
    replaceFrom (first :: old) new 0 (before ++ rest) =
      before ++ replaceFrom (first :: old) new 0 rest := by
  induction before with
  | nil => rfl
  | cons character others ih =>
      obtain ⟨apart, absent⟩ := not_or.1 (mt List.mem_cons.2 absent)
      have passed : (first :: old).isPrefixOf (character :: (others ++ rest)) = false := by
        simp [List.isPrefixOf, apart]
      simp [replaceFrom, passed, ih absent]

theorem replaceFrom_append_of_short (opened : List Char) {old : List Char} (new : List Char)
    (starts : opened <+: old) {before : List Char} (short : before.length < opened.length)
    {next : Char} (apart : next ∉ opened) (rest : List Char) :
    replaceFrom old new 0 (before ++ next :: rest) =
      before ++ replaceFrom old new 0 (next :: rest) := by
  induction before with
  | nil => rfl
  | cons character others ih =>
      have passed : old.isPrefixOf (character :: (others ++ next :: rest)) = false := by
        rw [← Bool.not_eq_true, List.isPrefixOf_iff_prefix]
        intro found
        have whole : opened <+: (character :: others) ++ next :: rest := starts.trans found
        have bound : (character :: others).length < opened.length := short
        have reached : opened[(character :: others).length]? = some next := by
          obtain ⟨after, same⟩ := whole
          have kept : (opened ++ after)[(character :: others).length]? =
              opened[(character :: others).length]? := List.getElem?_append_left bound
          rw [← kept, same]
          simp
        exact apart (List.mem_of_getElem? reached)
      have later := ih (Nat.lt_of_succ_lt short)
      simp [replaceFrom, passed, later]

end Archetype.Text

namespace Archetype.Placeholder

open Archetype.Text

def Free (opened closed text : String) : Prop :=
  ∀ character ∈ text.toList, character ∉ opened.toList ∧ character ∉ closed.toList

instance (opened closed text : String) : Decidable (Free opened closed text) :=
  List.decidableBAll
    (fun character => character ∉ opened.toList ∧ character ∉ closed.toList) text.toList

def between (opened closed name : String) : String :=
  opened ++ name ++ closed

inductive Piece
  | literal (text : String)
  | named (name : String)
deriving DecidableEq, Repr

namespace Piece

def shown : Piece → String
  | literal text => text
  | named name => name

def written (opened closed : String) : Piece → String
  | literal text => text
  | named name => between opened closed name

def rendered (opened closed : String) (value? : String → Option String) : Piece → String
  | literal text => text
  | named name => (value? name).getD (between opened closed name)

def resolve (name value : String) : Piece → Piece
  | literal text => literal text
  | named other => if other = name then literal value else named other

end Piece

/-! ## One placeholder -/

section Occurrences

variable {first last : Char} {opened closed : List Char}

theorem name_eq_of_starts (opened : List Char) {name other rest : List Char} (name_free : last ∉ name)
    (other_free : last ∉ other)
    (found : opened ++ (name ++ last :: closed) <+: opened ++ (other ++ last :: rest)) :
    other = name := by
  obtain ⟨after, same⟩ := (List.prefix_append_right_inj opened).1 found
  have cut := congrArg (fun text => (cutFirst last text).1) same
  rw [List.append_assoc, List.cons_append] at cut
  simp only [cutFirst_append name_free, cutFirst_append other_free] at cut
  exact cut.symm

theorem replaceFrom_placeholder (name other new rest : List Char)
    (apart : ∀ character ∈ first :: opened, character ∉ last :: closed) (name_free : last ∉ name)
    (other_free : ∀ character ∈ other, character ∉ first :: opened ∧ character ∉ last :: closed) :
    let token := first :: (opened ++ (name ++ last :: closed))
    replaceFrom token new 0 (first :: (opened ++ (other ++ last :: (closed ++ rest)))) =
      (if other = name then new else first :: (opened ++ (other ++ last :: closed))) ++
        replaceFrom token new 0 rest := by
  intro token
  split
  · rename_i same
    subst same
    have text : first :: (opened ++ (other ++ last :: (closed ++ rest))) = token ++ rest := by
      simp [token]
    have found : token.isPrefixOf (token ++ rest) = true :=
      List.isPrefixOf_iff_prefix.2 (List.prefix_append token rest)
    have passed := replaceFrom_skip token new (opened ++ (other ++ last :: closed)) rest
    rw [text]
    change (if token.isPrefixOf (token ++ rest) then _ else _) = _
    rw [if_pos found]
    exact congrArg (new ++ ·) passed
  · rename_i differ
    have last_free : last ∉ other := fun member => (other_free last member).2 List.mem_cons_self
    have missed : token.isPrefixOf
        (first :: (opened ++ (other ++ last :: (closed ++ rest)))) = false := by
      rw [← Bool.not_eq_true, List.isPrefixOf_iff_prefix]
      intro found
      exact differ (name_eq_of_starts (first :: opened) name_free last_free found)
    -- Neither the name nor the closing delimiter has a character of the opening one.
    have body_free : ∀ character ∈ other ++ last :: closed, character ∉ first :: opened := by
      intro character member
      rcases List.mem_append.1 member with inside | inside
      · exact (other_free character inside).1
      · exact fun within => apart character within inside
    have body : replaceFrom token new 0 (other ++ last :: closed ++ rest) =
        other ++ last :: closed ++ replaceFrom token new 0 rest :=
      replaceFrom_append_of_not_mem new
        (fun member => body_free first member List.mem_cons_self) rest
    obtain ⟨next, others, cons⟩ : ∃ next others, other ++ last :: closed = next :: others :=
      List.exists_cons_of_ne_nil (by simp)
    have opening : replaceFrom token new 0 (opened ++ (other ++ last :: closed ++ rest)) =
        opened ++ replaceFrom token new 0 (other ++ last :: closed ++ rest) := by
      rw [cons]
      exact replaceFrom_append_of_short (first :: opened) new (List.prefix_append _ _)
        (Nat.lt_succ_self _)
        (body_free next (cons ▸ List.mem_cons_self)) (others ++ rest)
    calc replaceFrom token new 0 (first :: (opened ++ (other ++ last :: (closed ++ rest))))
      _ = first :: replaceFrom token new 0 (opened ++ (other ++ last :: (closed ++ rest))) := by
          simp only [replaceFrom, missed, Bool.false_eq_true, ↓reduceIte]
      _ = first :: (opened ++ (other ++ last :: closed ++ replaceFrom token new 0 rest)) := by
          rw [← body, ← opening]
          simp
      _ = _ := by simp

end Occurrences

section Pieces

variable {opened closed : String}

theorem toList_between (name : String) :
    (between opened closed name).toList = opened.toList ++ (name.toList ++ closed.toList) := by
  simp [between]

theorem between_injective {name other : String}
    (same : between opened closed name = between opened closed other) : name = other := by
  have characters := congrArg String.toList same
  rw [toList_between, toList_between, List.append_cancel_left_eq,
    List.append_cancel_right_eq] at characters
  exact String.toList_inj.1 characters

def text (opened closed : String) (pieces : List Piece) : String :=
  String.join (pieces.map (Piece.written opened closed))

def render (opened closed : String) (value? : String → Option String) (pieces : List Piece) :
    String :=
  String.join (pieces.map (Piece.rendered opened closed value?))

theorem toList_text_cons (piece : Piece) (pieces : List Piece) :
    (text opened closed (piece :: pieces)).toList =
      (piece.written opened closed).toList ++ (text opened closed pieces).toList := by
  simp [text, String.join_cons]

theorem replace_text (hasOpened : opened ≠ "") (hasClosed : closed ≠ "")
    (apart : ∀ character ∈ opened.toList, character ∉ closed.toList) {name : String}
    (name_free : Free opened closed name) (value : String) {pieces : List Piece}
    (free : ∀ piece ∈ pieces, Free opened closed piece.shown) :
    replace (text opened closed pieces) (between opened closed name) value =
      text opened closed (pieces.map (Piece.resolve name value)) := by
  obtain ⟨first, starts, opened_eq⟩ := List.exists_cons_of_ne_nil
    (mt String.toList_eq_nil_iff.1 hasOpened)
  obtain ⟨last, ends, closed_eq⟩ := List.exists_cons_of_ne_nil
    (mt String.toList_eq_nil_iff.1 hasClosed)
  have token_eq : (between opened closed name).toList =
      first :: (starts ++ (name.toList ++ last :: ends)) := by
    rw [toList_between, opened_eq, closed_eq, List.cons_append]
  have nonempty : (between opened closed name).toList.isEmpty = false := by rw [token_eq]; rfl
  rw [← String.toList_inj, replace, String.toList_ofList, replaceAll, nonempty]
  simp only [Bool.false_eq_true, ↓reduceIte]
  induction pieces with
  | nil => rfl
  | cons piece pieces ih =>
      have piece_free := free piece List.mem_cons_self
      have later := ih fun other member => free other (List.mem_cons_of_mem _ member)
      rw [toList_text_cons, List.map_cons, toList_text_cons, ← later, token_eq]
      cases piece with
      | literal characters =>
          refine replaceFrom_append_of_not_mem value.toList (fun member => ?_) _
          refine (piece_free first member).1 ?_
          rw [opened_eq]
          exact List.mem_cons_self
      | named other =>
          rw [opened_eq, closed_eq] at apart
          have occurrence := replaceFrom_placeholder name.toList other.toList value.toList
            (text opened closed pieces).toList apart
            (fun member => (name_free last member).2 (closed_eq ▸ List.mem_cons_self))
            (fun character member => by
              have := piece_free character member
              rwa [opened_eq, closed_eq] at this)
          have written_eq : ((Piece.named other).written opened closed).toList ++
              (text opened closed pieces).toList = first :: (starts ++ (other.toList ++
                last :: (ends ++ (text opened closed pieces).toList))) := by
            simp [Piece.written, toList_between, opened_eq, closed_eq]
          rw [written_eq]
          refine occurrence.trans ?_
          by_cases same : other = name
          · simp [Piece.resolve, same, Piece.written]
          · simp [Piece.resolve, same, String.toList_inj, Piece.written, toList_between, opened_eq,
              closed_eq]

/-! ## All placeholders of a table -/

def entriesOf (opened closed : String) (named : List (String × String)) : List (String × String) :=
  named.map fun entry => (between opened closed entry.1, entry.2)

theorem exists_entriesOf {entries : List (String × String)}
    (spelled : ∀ entry ∈ entries, ∃ name, entry.1 = between opened closed name) :
    ∃ named, entries = entriesOf opened closed named := by
  induction entries with
  | nil => exact ⟨[], rfl⟩
  | cons entry entries ih =>
      obtain ⟨name, same⟩ := spelled entry List.mem_cons_self
      obtain ⟨named, rest⟩ := ih fun other member => spelled other (List.mem_cons_of_mem _ member)
      exact ⟨(name, entry.2) :: named, by rw [rest, entriesOf, entriesOf, List.map_cons, ← same]⟩

def Piece.resolveAll (named : List (String × String)) (piece : Piece) : Piece :=
  named.foldl (fun piece entry => piece.resolve entry.1 entry.2) piece

theorem resolveAll_literal (named : List (String × String)) (characters : String) :
    (Piece.literal characters).resolveAll named = .literal characters := by
  induction named with
  | nil => rfl
  | cons entry named ih => exact ih

theorem written_resolveAll {value? : String → Option String} {named : List (String × String)}
    (name : String) (valued : ∀ entry ∈ named, value? entry.1 = some entry.2)
    (complete : ∀ value, value? name = some value → (name, value) ∈ named) :
    ((Piece.named name).resolveAll named).written opened closed =
      (Piece.named name).rendered opened closed value? := by
  induction named with
  | nil =>
      have unvalued : value? name = none := by
        cases found : value? name with
        | none => rfl
        | some value => exact absurd (complete value found) List.not_mem_nil
      simp [Piece.resolveAll, Piece.written, Piece.rendered, unvalued]
  | cons entry named ih =>
      by_cases same : name = entry.1
      -- the value is literal from now on, and the rest of the table passes it by
      · have value := valued entry List.mem_cons_self
        rw [← same] at value
        change (((Piece.named name).resolve entry.1 entry.2).resolveAll named).written opened closed = _
        rw [Piece.resolve, if_pos same, resolveAll_literal]
        simp [Piece.written, Piece.rendered, value]
      · have kept : (Piece.named name).resolve entry.1 entry.2 = .named name := by
          rw [Piece.resolve, if_neg same]
        have later := ih (fun other member => valued other (List.mem_cons_of_mem _ member))
          fun value found => (List.mem_cons.1 (complete value found)).resolve_left fun eq =>
            same (congrArg Prod.fst eq)
        change (((Piece.named name).resolve entry.1 entry.2).resolveAll named).written opened closed = _
        rw [kept, later]

theorem foldl_replace_text (hasOpened : opened ≠ "") (hasClosed : closed ≠ "")
    (apart : ∀ character ∈ opened.toList, character ∉ closed.toList)
    {named : List (String × String)} {pieces : List Piece}
    (clean : ∀ entry ∈ named, Free opened closed entry.1 ∧
      (.named entry.1 ∈ pieces → Free opened closed entry.2))
    (free : ∀ piece ∈ pieces, Free opened closed piece.shown) :
    (entriesOf opened closed named).foldl (fun text entry => replace text entry.1 entry.2)
        (text opened closed pieces) =
      text opened closed (pieces.map (Piece.resolveAll named)) := by
  induction named generalizing pieces with
  | nil =>
      have kept : pieces.map (Piece.resolveAll []) = pieces := List.map_id pieces
      rw [kept]
      rfl
  | cons entry named ih =>
      have entry_clean := clean entry List.mem_cons_self
      -- a value that has come in is free of the delimiters too, so the pieces stay pieces
      have resolved_free : ∀ piece ∈ pieces.map (Piece.resolve entry.1 entry.2),
          Free opened closed piece.shown := by
        intro piece member
        obtain ⟨origin, inside, rfl⟩ := List.mem_map.1 member
        have origin_free := free origin inside
        cases origin with
        | literal characters => exact origin_free
        | named other =>
            by_cases same : other = entry.1
            · rw [Piece.resolve, if_pos same]
              exact entry_clean.2 (same ▸ inside)
            · rw [Piece.resolve, if_neg same]
              exact origin_free
      have still_named : ∀ {name},
          Piece.named name ∈ pieces.map (Piece.resolve entry.1 entry.2) → .named name ∈ pieces := by
        intro name member
        obtain ⟨origin, inside, resolved⟩ := List.mem_map.1 member
        cases origin with
        | literal characters => cases resolved
        | named other =>
            by_cases same : other = entry.1
            · rw [Piece.resolve, if_pos same] at resolved
              cases resolved
            · rw [Piece.resolve, if_neg same] at resolved
              cases resolved
              exact inside
      have later := ih (fun other member =>
        (clean other (List.mem_cons_of_mem _ member)).imp_right fun value_free inside =>
          value_free (still_named inside)) resolved_free
      have step := replace_text hasOpened hasClosed apart entry_clean.1 entry.2 free
      rw [List.map_map] at later
      rw [entriesOf, List.map_cons, List.foldl_cons, step]
      exact later

end Pieces

def Unmarked (opened text : String) : Prop :=
  ∀ character ∈ text.toList, character ∉ opened.toList

instance (opened text : String) : Decidable (Unmarked opened text) :=
  List.decidableBAll (fun character => character ∉ opened.toList) text.toList

theorem replace_append_of_unmarked {opened token : String} (hasOpened : opened ≠ "")
    (starts : opened.toList <+: token.toList) {before : String}
    (unmarked : Unmarked opened before) (after value : String) :
    replace (before ++ after) token value = before ++ replace after token value := by
  obtain ⟨first, others, cons⟩ := List.exists_cons_of_ne_nil (mt String.toList_eq_nil_iff.1 hasOpened)
  have absent : first ∉ before.toList := fun member => unmarked first member (by simp [cons])
  obtain ⟨rest, spelled⟩ := starts
  rw [cons, List.cons_append] at spelled
  rw [← String.toList_inj]
  simp only [replace, replaceAll, String.toList_ofList, String.toList_append, ← spelled,
    List.isEmpty_cons, Bool.false_eq_true, ↓reduceIte]
  exact replaceFrom_append_of_not_mem value.toList absent after.toList

end Archetype.Placeholder

namespace Archetype.Replacements

open Archetype.Placeholder

theorem apply_pieces {opened closed : String} (hasOpened : opened ≠ "") (hasClosed : closed ≠ "")
    (apart : ∀ character ∈ opened.toList, character ∉ closed.toList)
    {value? : String → Option String} {pieces : List Piece}
    (clean : ∀ name value, value? name = some value →
      Free opened closed name ∧ (.named name ∈ pieces → Free opened closed value))
    {replacements : Replacements}
    (sound : ∀ entry ∈ replacements.entries,
      ∃ name, entry.1 = between opened closed name ∧ value? name = some entry.2)
    (complete : ∀ name value, value? name = some value →
      (between opened closed name, value) ∈ replacements.entries)
    (free : ∀ piece ∈ pieces, Free opened closed piece.shown) :
    replacements.apply (text opened closed pieces) = render opened closed value? pieces := by
  obtain ⟨named, entries_eq⟩ := exists_entriesOf fun entry member =>
    (sound entry member).imp fun _ => And.left
  have valued : ∀ entry ∈ named, value? entry.1 = some entry.2 := by
    intro entry member
    obtain ⟨name, same, value⟩ := sound (between opened closed entry.1, entry.2) <| by
      rw [entries_eq]
      exact List.mem_map_of_mem member
    rw [between_injective same]
    exact value
  have listed : ∀ name value, value? name = some value → (name, value) ∈ named := by
    intro name value found
    have member := complete name value found
    rw [entries_eq, entriesOf] at member
    obtain ⟨entry, inside, same⟩ := List.mem_map.1 member
    obtain ⟨token, replacement⟩ := Prod.mk.inj same
    rw [← between_injective token, ← replacement]
    exact inside
  rw [apply, entries_eq, foldl_replace_text hasOpened hasClosed apart
    (fun entry member => clean entry.1 entry.2 (valued entry member)) free, text, render,
    List.map_map]
  congr 1
  refine List.map_congr_left fun piece _ => ?_
  cases piece with
  | literal characters => exact congrArg (Piece.written opened closed) (resolveAll_literal _ _)
  | named name => exact written_resolveAll name valued (listed name)

theorem apply_text {opened closed : String} (hasOpened : opened ≠ "") (hasClosed : closed ≠ "")
    (apart : ∀ character ∈ opened.toList, character ∉ closed.toList)
    {value? : String → Option String}
    (clean : ∀ name value, value? name = some value →
      Free opened closed name ∧ Free opened closed value)
    {replacements : Replacements}
    (sound : ∀ entry ∈ replacements.entries,
      ∃ name, entry.1 = between opened closed name ∧ value? name = some entry.2)
    (complete : ∀ name value, value? name = some value →
      (between opened closed name, value) ∈ replacements.entries)
    {pieces : List Piece} (free : ∀ piece ∈ pieces, Free opened closed piece.shown) :
    replacements.apply (text opened closed pieces) = render opened closed value? pieces :=
  apply_pieces hasOpened hasClosed apart
    (fun name value found => (clean name value found).imp_right fun value_free _ => value_free)
    sound complete free

/-! ## Texts without placeholders -/

section Unmarked

variable {opened : String} (hasOpened : opened ≠ "") {replacements : Replacements}
  (starts : ∀ entry ∈ replacements.entries, opened.toList <+: entry.1.toList)

include hasOpened starts

theorem apply_append_of_unmarked {before : String} (unmarked : Unmarked opened before)
    (after : String) :
    replacements.apply (before ++ after) = before ++ replacements.apply after := by
  unfold apply
  generalize replacements.entries = entries at starts
  induction entries generalizing after with
  | nil => rfl
  | cons entry entries ih =>
      rw [List.foldl_cons, List.foldl_cons,
        replace_append_of_unmarked hasOpened (starts entry List.mem_cons_self) unmarked]
      exact ih _ fun other member => starts other (List.mem_cons_of_mem _ member)

omit hasOpened in
theorem apply_of_unopened {characters : String}
    (unopened : ¬ opened.toList <:+: characters.toList) :
    replacements.apply characters = characters := by
  unfold apply
  generalize replacements.entries = entries at starts
  induction entries with
  | nil => rfl
  | cons entry entries ih =>
      have absent : ¬ entry.1.toList <:+: characters.toList := fun inside =>
        unopened ((starts entry List.mem_cons_self).isInfix.trans inside)
      rw [List.foldl_cons, Text.replace, Text.replaceAll_of_not_infix absent, String.ofList_toList]
      exact ih fun other member => starts other (List.mem_cons_of_mem _ member)

theorem apply_of_unmarked {characters : String} (unmarked : Unmarked opened characters) :
    replacements.apply characters = characters := by
  refine apply_of_unopened starts fun inside => ?_
  obtain ⟨first, member⟩ := List.exists_mem_of_ne_nil _ (mt String.toList_eq_nil_iff.1 hasOpened)
  exact unmarked first (inside.subset member) member

end Unmarked

/-! ## Tables of data -/

theorem exists_name_of_mem_ofEntry {key : Key} {value : Value} {entry : String × String}
    (member : entry ∈ ofEntry key value) : ∃ name, entry.1 = spell name := by
  unfold ofEntry at member
  rcases List.mem_cons.1 member with rfl | member
  · exact ⟨_, rfl⟩
  · split at member
    · split at member
      · cases member
      · rcases List.mem_cons.1 member with rfl | member
        · exact ⟨_, rfl⟩
        · exact ⟨_, congrArg Prod.fst (List.mem_singleton.1 member)⟩
    · cases member

theorem exists_entriesOf_ofData (data : Data) :
    ∃ named, (ofData data).entries = entriesOf opening closing named := by
  refine exists_entriesOf fun entry member => ?_
  have key : entry.1 ∈ (ofData data).keys := List.mem_map_of_mem member
  obtain ⟨produced, listed, same⟩ := List.mem_map.1 (Table.mem_keys_ofList key)
  obtain ⟨source, -, inside⟩ := List.mem_flatMap.1 listed
  obtain ⟨name, spelled⟩ := exists_name_of_mem_ofEntry inside
  exact ⟨name, same.symm.trans spelled⟩

theorem reclose_reopen_spell (opened closed name : String) :
    reclose closed (reopen opened (spell name)) = between opened closed name := by
  rw [spell, String.append_assoc, reopen_append, ← String.append_assoc, reclose_append]
  rfl

theorem entries_withDelimiters {replacements : Replacements} {named : List (String × String)}
    (entries_eq : replacements.entries = entriesOf opening closing named) (opened closed : String) :
    (replacements.withDelimiters opened closed).entries = entriesOf opened closed named := by
  have rekeyed : replacements.entries.map
      (fun entry => (reclose closed (reopen opened entry.1), entry.2)) =
        entriesOf opened closed named := by
    rw [entries_eq, entriesOf, entriesOf, List.map_map]
    exact List.map_congr_left fun entry _ => Prod.ext (reclose_reopen_spell _ _ _) rfl
  have distinct := replacements.distinct
  rw [entries_eq, entriesOf, List.pairwise_map] at distinct
  rw [withDelimiters, rekeyed]
  refine Table.entries_ofList_of_distinct _ (List.pairwise_map.2 (distinct.imp ?_))
  intro entry other differ
  simp only [beq_eq_false_iff_ne, ne_eq] at differ ⊢
  exact fun same => differ (congrArg _ (between_injective same))

theorem get?_between_iff {replacements : Replacements} {opened closed : String}
    {named : List (String × String)} (entries_eq : replacements.entries = entriesOf opened closed named)
    {name value : String} :
    replacements.get? (between opened closed name) = some value ↔ (name, value) ∈ named := by
  rw [Table.get?_eq_some_iff, entries_eq, entriesOf, List.mem_map]
  constructor
  · rintro ⟨entry, inside, same⟩
    obtain ⟨token, replacement⟩ := Prod.mk.inj same
    rw [← between_injective token, ← replacement]
    exact inside
  · exact fun inside => ⟨_, inside, rfl⟩

theorem get?_spell_iff {data : Data} {named : List (String × String)}
    (entries_eq : (ofData data).entries = entriesOf opening closing named) {name value : String} :
    (ofData data).get? (spell name) = some value ↔ (name, value) ∈ named :=
  get?_between_iff entries_eq

/-- With the placeholders of data between delimiters that share no character, and with names and
values free of both, writing the replacements into a text that is made up of literal pieces and
placeholders puts every value in its place at once, in whatever order the table holds them. Under the
default delimiters the table is that of the data. -/
theorem apply_withDelimiters_eq_render (data : Data) (opened closed : String)
    (hasOpened : opened ≠ "") (hasClosed : closed ≠ "")
    (apart : ∀ character ∈ opened.toList, character ∉ closed.toList)
    (clean : ∀ name value, (ofData data).get? (spell name) = some value →
      Free opened closed name ∧ Free opened closed value)
    (pieces : List Piece) (free : ∀ piece ∈ pieces, Free opened closed piece.shown) :
    let value? := fun name => (ofData data).get? (spell name)
    ((ofData data).withDelimiters opened closed).apply (text opened closed pieces) =
        render opened closed value? pieces ∧
      (∀ reordered : Replacements,
        reordered.entries.Perm ((ofData data).withDelimiters opened closed).entries →
          reordered.apply (text opened closed pieces) = render opened closed value? pieces) ∧
      (ofData data).withDelimiters opening closing = ofData data := by
  intro value?
  obtain ⟨named, entries_eq⟩ := exists_entriesOf_ofData data
  have adjusted := entries_withDelimiters entries_eq opened closed
  have any_order : ∀ reordered : Replacements,
      reordered.entries.Perm ((ofData data).withDelimiters opened closed).entries →
        reordered.apply (text opened closed pieces) = render opened closed value? pieces := by
    intro reordered permuted
    rw [adjusted] at permuted
    refine apply_text hasOpened hasClosed apart clean ?_ ?_ free
    · intro entry member
      obtain ⟨origin, inside, rfl⟩ := List.mem_map.1 (permuted.mem_iff.1 member)
      exact ⟨origin.1, rfl, (get?_spell_iff entries_eq).2 inside⟩
    · intro name value found
      exact permuted.mem_iff.2 (List.mem_map_of_mem ((get?_spell_iff entries_eq).1 found))
  refine ⟨any_order _ (List.Perm.refl _), any_order, ?_⟩
  exact Table.ext ((entries_withDelimiters entries_eq opening closing).trans entries_eq.symm)

theorem apply_angle_brackets :
    let data := Data.ofEntries [(.text "main", .text "cool-lib"), (.text "top", .text "a.b")]
    ((ofData data).withDelimiters "<<" ">>").apply "<<main/file>><<top>><<main>>-<<other>>" =
      "cool_liba.bcool-lib-<<other>>" := by
  intro data
  let named := [("main", "cool-lib"), ("main/ns", "cool-lib"), ("main/file", "cool_lib"),
    ("top", "a.b"), ("top/ns", "a.b"), ("top/file", "a/b")]
  have entries_eq : (ofData data).entries = entriesOf opening closing named := by decide +kernel
  have named_clean : ∀ entry ∈ named, Free "<<" ">>" entry.1 ∧ Free "<<" ">>" entry.2 := by
    decide +kernel
  let pieces : List Piece :=
    [.named "main/file", .named "top", .named "main", .literal "-", .named "other"]
  have pieces_free : ∀ piece ∈ pieces, Free "<<" ">>" piece.shown := by decide +kernel
  have written : text "<<" ">>" pieces = "<<main/file>><<top>><<main>>-<<other>>" := by
    decide +kernel
  have rendered : render "<<" ">>" (fun name => (ofData data).get? (spell name)) pieces =
      "cool_liba.bcool-lib-<<other>>" := by decide +kernel
  rw [← written, ← rendered]
  exact (apply_withDelimiters_eq_render data "<<" ">>" (by decide) (by decide) (by simp)
    (fun name value found => named_clean _ ((get?_spell_iff entries_eq).1 found)) pieces
    pieces_free).1

end Archetype.Replacements
