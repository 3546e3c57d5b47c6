import Archetype.Disk.Change
import Mathlib.Data.List.Basic

namespace Archetype.Text

variable {separator : Char}

theorem pieces_append (before after : List Char) :
    pieces separator (before ++ separator :: after) =
      pieces separator before ++ pieces separator after := by
  induction before with
  | nil => simp [pieces]
  | cons character rest ih =>
      by_cases here : character = separator
      · simp [pieces, here, ih]
      · obtain ⟨piece, others, cons⟩ := List.exists_cons_of_ne_nil (pieces_ne_nil separator rest)
        simp [pieces, here, ih, cons]

theorem pieces_of_not_mem {characters : List Char} (absent : separator ∉ characters) :
    pieces separator characters = [characters] := by
  induction characters with
  | nil => rfl
  | cons character rest ih =>
      obtain ⟨apart, absent⟩ := not_or.1 (mt List.mem_cons.2 absent)
      simp [pieces, Ne.symm apart, ih absent]

theorem subset_of_mem_pieces {characters piece : List Char}
    (member : piece ∈ pieces separator characters) :
    piece ⊆ characters.filter (· ≠ separator) := by
  induction characters generalizing piece with
  | nil => simp_all [pieces]
  | cons character rest ih =>
      obtain ⟨first, others, cons⟩ := List.exists_cons_of_ne_nil (pieces_ne_nil separator rest)
      rw [cons] at ih
      by_cases here : character = separator
      · simp only [pieces, here, ↓reduceIte, cons, List.mem_cons] at member
        rw [List.filter_cons_of_neg (by simp [here])]
        rcases member with rfl | member
        · exact List.nil_subset _
        · exact ih (List.mem_cons.2 member)
      · simp only [pieces, here, ↓reduceIte, cons, List.mem_cons] at member
        rw [List.filter_cons_of_pos (by simp [here])]
        rcases member with rfl | member
        · exact List.cons_subset_cons _ (ih List.mem_cons_self)
        · exact List.subset_cons_of_subset _ (ih (List.mem_cons_of_mem _ member))

theorem not_mem_of_mem_pieces {characters piece : List Char}
    (member : piece ∈ pieces separator characters) : separator ∉ piece := fun inside => by
  simpa using subset_of_mem_pieces member inside

theorem mem_of_mem_pieces {characters piece : List Char}
    (member : piece ∈ pieces separator characters) : piece ⊆ characters :=
  fun _ inside => (List.mem_filter.1 (subset_of_mem_pieces member inside)).1

end Archetype.Text

namespace Archetype.Path

def IsSegment (segment : String) : Prop :=
  segment ≠ "" ∧ segment ≠ "." ∧ '/' ∉ segment.toList

def IsName (segment : String) : Prop :=
  IsSegment segment ∧ segment ≠ ".."

/-- The path is one that a text denotes. -/
def IsWritten (path : Path) : Prop :=
  ∀ segment ∈ path.segments, IsSegment segment

def Inner (text : String) : Prop :=
  anchorOf text.toList = .current ∧ ".." ∉ segmentsOf text

instance (segment : String) : Decidable (IsSegment segment) :=
  inferInstanceAs (Decidable (_ ∧ _ ∧ _))

instance (segment : String) : Decidable (IsName segment) :=
  inferInstanceAs (Decidable (_ ∧ _))

instance (text : String) : Decidable (Inner text) :=
  inferInstanceAs (Decidable (_ ∧ _))

theorem mem_segmentsOf {text segment : String} (member : segment ∈ segmentsOf text) :
    IsSegment segment := by
  obtain ⟨inside, kept⟩ := List.mem_filter.1 member
  obtain ⟨characters, piece, rfl⟩ := List.mem_map.1 inside
  simp only [Bool.not_or, Bool.and_eq_true, Bool.not_eq_true', beq_eq_false_iff_ne] at kept
  exact ⟨kept.1, kept.2, by simpa using Text.not_mem_of_mem_pieces piece⟩

theorem subset_of_mem_segmentsOf {text segment : String} (member : segment ∈ segmentsOf text) :
    segment.toList ⊆ text.toList := by
  obtain ⟨piece, inside, rfl⟩ := List.mem_map.1 (List.mem_filter.1 member).1
  rw [String.toList_ofList]
  exact Text.mem_of_mem_pieces inside

theorem isWritten_ofText (text : String) : (ofText text).IsWritten :=
  fun _ member => mem_segmentsOf member

theorem isWritten_join {base addition : Path} (base_written : base.IsWritten)
    (addition_written : addition.IsWritten) : (base.join addition).IsWritten := by
  by_cases relative : addition.anchor = .current
  · rw [join_of_current base relative]
    exact fun segment member => (List.mem_append.1 member).elim (base_written segment)
      (addition_written segment)
  · rw [join_of_anchored base relative]
    exact addition_written

theorem isWritten_div {base : Path} (written : base.IsWritten) (text : String) :
    (base / text).IsWritten :=
  isWritten_join written (isWritten_ofText text)

theorem isWritten_parent {path : Path} (written : path.IsWritten) : path.parent.IsWritten :=
  fun segment member => written segment (List.dropLast_subset _ member)

theorem isName_of_inner {text : String} (inner : Inner text) {segment : String}
    (member : segment ∈ segmentsOf text) : IsName segment :=
  ⟨mem_segmentsOf member, fun same => inner.2 (same ▸ member)⟩

theorem fromRoot_div {place : Place} {text : String} (inner : Inner text) :
    fromRoot place / text = fromRoot (place ++ segmentsOf text) :=
  join_of_current (.fromRoot place) (show (ofText text).anchor = .current from inner.1)

theorem div_of_inner (base : Path) {text : String} (inner : Inner text) :
    base / text = ⟨base.anchor, base.segments ++ segmentsOf text⟩ :=
  join_of_current base (show (ofText text).anchor = .current from inner.1)

theorem div_eq_join (base : Path) {text : String} (inner : Inner text) :
    base / text = base.join ⟨.current, segmentsOf text⟩ := by
  rw [join_of_current base rfl, div_of_inner base inner]

theorem div_div_eq_join (base : Path) {first text : String} (first_inner : Inner first)
    (inner : Inner text) :
    base / first / text = base.join ⟨.current, segmentsOf first ++ segmentsOf text⟩ := by
  rw [div_eq_join _ inner, div_eq_join _ first_inner, join_of_current _ rfl, join_of_current _ rfl,
    join_of_current _ rfl, List.append_assoc]

theorem name_join (base : Path) {segments : List String} (more : segments ≠ []) :
    (base.join ⟨.current, segments⟩).name = segments.getLast more := by
  rw [join_of_current base rfl, name]
  simp [List.getLast?_eq_getLast_of_ne_nil, more]

theorem segmentsOf_append (before after : String) :
    segmentsOf (before ++ "/" ++ after) = segmentsOf before ++ segmentsOf after := by
  have characters : (before ++ "/" ++ after).toList =
      before.toList ++ '/' :: after.toList := by simp
  simp only [segmentsOf, Text.split, characters, Text.pieces_append, List.map_append,
    List.filter_append]

theorem segmentsOf_segment {segment : String} (proper : IsSegment segment) :
    segmentsOf segment = [segment] := by
  simp [segmentsOf, Text.split, Text.pieces_of_not_mem proper.2.2, proper.1, proper.2.1]

theorem segmentsOf_empty : segmentsOf "" = [] := rfl

theorem segmentsOf_intercalate {segments : List String}
    (proper : ∀ segment ∈ segments, IsSegment segment) :
    segmentsOf ("/".intercalate segments) = segments := by
  induction segments with
  | nil => rfl
  | cons segment segments ih =>
      have first := segmentsOf_segment (proper segment List.mem_cons_self)
      by_cases more : segments = []
      · subst more
        exact first
      · rw [String.intercalate_cons_of_ne_nil more, segmentsOf_append, first,
          ih fun other member => proper other (List.mem_cons_of_mem _ member)]
        rfl

theorem anchorOf_append (anchor : Anchor) {rest : List Char} (apart : rest.head? ≠ some '/') :
    anchorOf ((anchorText anchor).toList ++ rest) = anchor := by
  have relative : ∀ characters : List Char, characters.head? ≠ some '/' →
      anchorOf characters = .current := by
    intro characters differ
    unfold anchorOf
    split <;> simp_all
  cases anchor with
  | current => exact relative rest apart
  | root =>
      cases rest with
      | nil => rfl
      | cons character rest =>
          have differ : character ≠ '/' := fun same => apart (congrArg some same)
          simp [anchorText, anchorOf, differ]
  | doubleRoot =>
      cases rest with
      | nil => rfl
      | cons character rest =>
          have differ : character ≠ '/' := fun same => apart (congrArg some same)
          simp [anchorText, anchorOf, differ]

theorem segmentsOf_anchorText (anchor : Anchor) (text : String) :
    segmentsOf (anchorText anchor ++ text) = segmentsOf text := by
  cases anchor with
  | current => simp [anchorText]
  | root => exact segmentsOf_append "" text
  | doubleRoot => exact segmentsOf_append "/" text

theorem head?_intercalate {segments : List String}
    (proper : ∀ segment ∈ segments, IsSegment segment) :
    ("/".intercalate segments).toList.head? ≠ some '/' := by
  cases segments with
  | nil => simp
  | cons segment segments =>
      have first := proper segment List.mem_cons_self
      obtain ⟨character, rest, cons⟩ := List.exists_cons_of_ne_nil
        (mt String.toList_eq_nil_iff.1 first.1)
      have differ : character ≠ '/' := fun same =>
        first.2.2 (by rw [cons, same]; exact List.mem_cons_self)
      by_cases more : segments = []
      · subst more
        change segment.toList.head? ≠ _
        simp [cons, differ]
      · rw [String.intercalate_cons_of_ne_nil more]
        simp [cons, differ]

theorem ofText_anchored (anchor : Anchor) {segments : List String}
    (proper : ∀ segment ∈ segments, IsSegment segment) :
    ofText (anchorText anchor ++ "/".intercalate segments) = ⟨anchor, segments⟩ := by
  have anchored : anchorOf (anchorText anchor ++ "/".intercalate segments).toList = anchor := by
    rw [String.toList_append]
    exact anchorOf_append anchor (head?_intercalate proper)
  rw [ofText, anchored, segmentsOf_anchorText, segmentsOf_intercalate proper]

theorem ofText_intercalate {segments : List String}
    (proper : ∀ segment ∈ segments, IsSegment segment) :
    ofText ("/".intercalate segments) = ⟨.current, segments⟩ := by
  rw [← ofText_anchored .current proper, anchorText, String.empty_append]

theorem inner_intercalate {names : List String} (named : ∀ name ∈ names, IsName name) :
    Inner ("/".intercalate names) := by
  have denoted := ofText_intercalate fun name member => (named name member).1
  refine ⟨congrArg Path.anchor denoted, ?_⟩
  rw [segmentsOf_intercalate fun name member => (named name member).1]
  exact fun member => (named ".." member).2 rfl

theorem div_name (base : Path) {name : String} (isName : IsName name) :
    base / name = ⟨base.anchor, base.segments ++ [name]⟩ := by
  have inner : Inner name := by
    rw [← String.intercalate_singleton (s := "/") (t := name)]
    exact inner_intercalate fun other member => List.mem_singleton.1 member ▸ isName
  rw [div_of_inner base inner, segmentsOf_segment isName.1]

theorem mem_intercalate {segments : List String} {character : Char}
    (member : character ∈ ("/".intercalate segments).toList) :
    character = '/' ∨ ∃ segment ∈ segments, character ∈ segment.toList := by
  induction segments with
  | nil => simp at member
  | cons segment segments ih =>
      by_cases last : segments = []
      · subst last
        exact Or.inr ⟨segment, List.mem_cons_self, by simpa using member⟩
      · rw [String.intercalate_cons_of_ne_nil last] at member
        simp only [String.toList_append, List.mem_append] at member
        rcases member with (here | slash) | later
        · exact Or.inr ⟨segment, List.mem_cons_self, here⟩
        · exact Or.inl (by simpa using slash)
        · rcases ih later with slash | ⟨other, inside, found⟩
          · exact Or.inl slash
          · exact Or.inr ⟨other, List.mem_cons_of_mem _ inside, found⟩

theorem intercalate_prefix {front segments : List String} (starts : front <+: segments) :
    ("/".intercalate front).toList <+: ("/".intercalate segments).toList := by
  obtain ⟨rest, rfl⟩ := starts
  by_cases none : front = []
  · rw [none, String.intercalate_nil]
    exact List.nil_prefix
  · by_cases last : rest = []
    · simp [last]
    · rw [String.intercalate_append_of_ne_nil none last, String.append_assoc, String.toList_append]
      exact List.prefix_append _ _

theorem inner_append {names : List String} (more : names ≠ []) (named : ∀ name ∈ names, IsName name)
    {text : String} (inner : ".." ∉ segmentsOf text) :
    Inner ("/".intercalate names ++ "/" ++ text) := by
  have proper : ∀ name ∈ names, IsSegment name := fun name member => (named name member).1
  constructor
  · have head : (("/".intercalate names ++ "/" ++ text).toList).head? ≠ some '/' := by
      have start := head?_intercalate proper
      cases characters : ("/".intercalate names).toList with
      | nil =>
          have segments := segmentsOf_intercalate proper
          rw [String.toList_eq_nil_iff.1 characters, segmentsOf_empty] at segments
          exact absurd segments.symm more
      | cons first rest =>
          rw [characters] at start
          simpa [characters] using start
    simpa [anchorText] using anchorOf_append .current head
  · rw [segmentsOf_append, segmentsOf_intercalate proper]
    intro member
    rcases List.mem_append.1 member with inside | inside
    · exact (named ".." inside).2 rfl
    · exact inner inside

theorem ofText_toText {path : Path} (written : path.IsWritten) : ofText path.toText = path := by
  unfold toText
  split
  · rename_i empty
    obtain ⟨anchor, segments⟩ := path
    obtain ⟨rfl, rfl⟩ := empty
    rfl
  · exact ofText_anchored path.anchor written

theorem toText_of_ne {path : Path} (more : path.segments ≠ []) :
    path.toText = anchorText path.anchor ++ "/".intercalate path.segments :=
  if_neg fun empty => more empty.2

theorem exists_toText {path : Path} {others : List String} {name : String}
    (last : path.segments = others ++ [name]) :
    ∃ before, path.toText = before ++ name ∧ (before = "" ∨ ∃ start, before = start ++ "/") := by
  rw [toText_of_ne (by simp [last]), last]
  by_cases single : others = []
  · subst single
    refine ⟨anchorText path.anchor, rfl, ?_⟩
    cases path.anchor with
    | current => exact Or.inl rfl
    | root => exact Or.inr ⟨"", rfl⟩
    | doubleRoot => exact Or.inr ⟨"/", rfl⟩
  · refine ⟨anchorText path.anchor ++ "/".intercalate others ++ "/", ?_, Or.inr ⟨_, rfl⟩⟩
    rw [String.intercalate_append_of_ne_nil single (by simp), String.intercalate_singleton]
    simp [String.append_assoc]

theorem base_path {path : Path} {others : List String} {name : String}
    (last : path.segments = others ++ [name]) (proper : IsSegment name) :
    (FileName.path path).base = name := by
  obtain ⟨before, text, start⟩ := exists_toText last
  have absent : '/' ∉ name.toList.reverse := fun member => proper.2.2 (List.mem_reverse.1 member)
  rw [← String.toList_inj, FileName.base, FileName.toText, text, Text.cutLast, String.toList_append,
    List.reverse_append]
  rcases start with rfl | ⟨start, rfl⟩
  · simp [Text.cutFirst_of_not_mem absent]
  · have reversed : (start ++ "/").toList.reverse = '/' :: start.toList.reverse := by simp
    rw [reversed, Text.cutFirst_append absent]
    simp

theorem getLast?_append_segment (before : String) {segment : String} (proper : IsSegment segment) :
    (before ++ segment).toList.getLast? ≠ some '/' := by
  obtain ⟨others, last, cons⟩ := List.eq_nil_or_concat' segment.toList |>.resolve_left
    (mt String.toList_eq_nil_iff.1 proper.1)
  have differ : last ≠ '/' := fun same => proper.2.2 (by rw [cons, same]; simp)
  rw [String.toList_append, cons, ← List.append_assoc, List.getLast?_concat]
  exact fun same => differ (Option.some.inj same)

theorem inside_path {directory : Path} (written : directory.IsWritten) {name : String}
    (proper : IsSegment name) :
    ∃ text, (FileName.path directory).inside name = .text text ∧
      ofText text = ⟨directory.anchor, directory.segments ++ [name]⟩ ∧
      text.toList.getLast? ≠ some '/' := by
  have extended : ∀ segment ∈ directory.segments ++ [name], IsSegment segment := by
    intro segment member
    rcases List.mem_append.1 member with inside | inside
    · exact written segment inside
    · rw [List.mem_singleton.1 inside]
      exact proper
  have denoted := ofText_anchored directory.anchor extended
  rcases List.eq_nil_or_concat' directory.segments with empty | ⟨others, last, split⟩
  · obtain ⟨anchor, segments⟩ := directory
    obtain rfl : segments = [] := empty
    cases anchor with
    | current =>
        refine ⟨"." ++ "/" ++ name, rfl, ?_, getLast?_append_segment _ proper⟩
        have segments : segmentsOf ("." ++ "/" ++ name) = [name] := by
          rw [segmentsOf_append, segmentsOf_segment proper]
          rfl
        rw [ofText, segments]
        simp [anchorOf]
    | root => exact ⟨"/" ++ name, rfl, denoted, getLast?_append_segment _ proper⟩
    | doubleRoot => exact ⟨"//" ++ name, rfl, denoted, getLast?_append_segment _ proper⟩
  · obtain ⟨before, text, -⟩ := exists_toText split
    have last_proper : IsSegment last := written last (by rw [split]; simp)
    have apart : directory.toText.toList.getLast? ≠ some '/' := by
      rw [text]
      exact getLast?_append_segment before last_proper
    have more : directory.segments ≠ [] := by simp [split]
    refine ⟨directory.toText ++ "/" ++ name, ?_, ?_, getLast?_append_segment _ proper⟩
    · simp [FileName.inside, FileName.toText, apart]
    · rw [String.intercalate_append_of_ne_nil more (by simp), String.intercalate_singleton,
        ← String.append_assoc, ← String.append_assoc,
        ← toText_of_ne more] at denoted
      exact denoted

end Archetype.Path
