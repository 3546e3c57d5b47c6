import Archetype.Proofs.DefaultTargets
import Archetype.Proofs.IgnoredNames
import Archetype.Proofs.Rendering

namespace Archetype.Text

variable {separator : Char}

theorem exists_pieces_after {front : List Char} (absent : separator ∉ front)
    (characters : List Char) : ∃ first others, pieces separator characters = first :: others ∧
      pieces separator (front ++ characters) = (front ++ first) :: others := by
  induction front with
  | nil =>
      obtain ⟨first, others, cons⟩ :=
        List.exists_cons_of_ne_nil (pieces_ne_nil separator characters)
      exact ⟨first, others, cons, cons⟩
  | cons character front ih =>
      obtain ⟨apart, absent⟩ := not_or.1 (mt List.mem_cons.2 absent)
      obtain ⟨first, others, cons, whole⟩ := ih absent
      exact ⟨first, others, cons, by simp [pieces, Ne.symm apart, whole]⟩

theorem exists_pieces_before {back : List Char} (absent : separator ∉ back)
    (characters : List Char) : ∃ others last, pieces separator characters = others ++ [last] ∧
      pieces separator (characters ++ back) = others ++ [last ++ back] := by
  induction characters with
  | nil => exact ⟨[], [], rfl, pieces_of_not_mem absent⟩
  | cons character characters ih =>
      obtain ⟨others, last, concat, whole⟩ := ih
      by_cases here : character = separator
      · exact ⟨[] :: others, last, by simp [pieces, here, concat], by simp [pieces, here, whole]⟩
      · cases others with
        | nil => exact ⟨[], character :: last, by simp [pieces, here, concat],
            by simp [pieces, here, whole]⟩
        | cons first others => exact ⟨(character :: first) :: others, last,
            by simp [pieces, here, concat], by simp [pieces, here, whole]⟩

theorem mem_pieces_framed {front back : List Char} (front_absent : separator ∉ front)
    (back_absent : separator ∉ back) {characters piece : List Char}
    (member : piece ∈ pieces separator (front ++ (characters ++ back))) :
    ∃ inner ∈ pieces separator characters, piece = inner ∨ piece = front ++ inner ∨
      piece = inner ++ back ∨ piece = front ++ (inner ++ back) := by
  obtain ⟨others, last, concat, ends⟩ := exists_pieces_before back_absent characters
  obtain ⟨first, later, cons, whole⟩ := exists_pieces_after front_absent (characters ++ back)
  have either : ∀ {held}, held ∈ first :: later →
      held ∈ others ∨ held = last ++ back := fun {held} inside => by
    rw [← cons, ends, List.mem_append, List.mem_singleton] at inside
    exact inside
  rw [concat]
  rw [whole] at member
  rcases List.mem_cons.1 member with rfl | inside
  · rcases either List.mem_cons_self with inside | rfl
    · exact ⟨first, List.mem_append_left _ inside, Or.inr (Or.inl rfl)⟩
    · exact ⟨last, by simp, Or.inr (Or.inr (Or.inr rfl))⟩
  · rcases either (List.mem_cons_of_mem _ inside) with inside | rfl
    · exact ⟨piece, List.mem_append_left _ inside, Or.inl rfl⟩
    · exact ⟨last, by simp, Or.inr (Or.inr (Or.inl rfl))⟩

end Archetype.Text

namespace Archetype.Path

open Archetype.Text Archetype.Placeholder

theorem segmentsOf_slash_cons (characters : List Char) :
    segmentsOf (String.ofList ('/' :: characters)) = segmentsOf (String.ofList characters) := by
  simp [segmentsOf, split, pieces]

theorem segmentsOf_slash_concat (characters : List Char) :
    segmentsOf (String.ofList (characters ++ ['/'])) = segmentsOf (String.ofList characters) := by
  simp [segmentsOf, split, pieces_append, pieces]

theorem segmentsOf_trim (characters : List Char) :
    segmentsOf (String.ofList (trim (· = '/') characters)) = segmentsOf (String.ofList characters) := by
  have start : segmentsOf (String.ofList (trimStart (· = '/') characters)) =
      segmentsOf (String.ofList characters) := by
    induction characters with
    | nil => rfl
    | cons character rest ih =>
        by_cases slash : character = '/'
        · rw [slash, segmentsOf_slash_cons, ← ih]
          rfl
        · simp [trimStart, slash]
  rw [trim, ← start, trimEnd]
  generalize trimStart (· = '/') characters = kept
  rw [← List.reverse_reverse kept, List.reverse_reverse kept.reverse]
  induction kept.reverse with
  | nil => rfl
  | cons character rest ih =>
      by_cases slash : character = '/'
      · rw [slash, List.reverse_cons, segmentsOf_slash_concat, ← ih]
        rfl
      · simp [slash]

theorem anchorOf_trim (characters : List Char) :
    anchorOf (trim (· = '/') characters) = .current := by
  have head : (trim (· = '/') characters).head? ≠ some '/' := fun first => by
    have kept := drop_eq_false_of_head?_trim (Option.mem_def.2 first)
    simp at kept
  unfold anchorOf
  split <;> simp_all

def IsPlain (text : String) : Prop :=
  ∀ character ∈ text.toList, character ∉ ['\x00', '\n', '\x7b', '\x7d']

instance (text : String) : Decidable (IsPlain text) :=
  List.decidableBAll (fun character => character ∉ ['\x00', '\n', '\x7b', '\x7d']) text.toList

namespace IsPlain

variable {text : String} (plain : IsPlain text)

include plain

theorem append {other : String} (other_plain : IsPlain other) : IsPlain (text ++ other) := by
  intro character member
  rw [String.toList_append, List.mem_append] at member
  exact member.elim (plain character) (other_plain character)

theorem segment {segment : String} (member : segment ∈ segmentsOf text) : IsPlain segment :=
  fun character inside => plain character (subset_of_mem_segmentsOf member inside)

theorem free : Free opening closing text := fun character member => by
  have kept := plain character member
  simp only [List.mem_cons, List.not_mem_nil, or_false, not_or] at kept
  simp [opening, closing, kept]

theorem oneLine : '\n' ∉ text.toList :=
  fun member => plain _ member (by decide)

theorem noNull : '\x00' ∉ text.toList :=
  fun member => plain _ member (by decide)

end IsPlain

theorem hasNull_of_plain {names : Place} (plain : ∀ name ∈ names, IsPlain name) :
    Disk.hasNull names = false := by
  simp only [Disk.hasNull, List.any_eq_false, List.contains_iff_mem]
  exact fun name member => (plain name member).noNull

end Archetype.Path

namespace Archetype.Copier.IsLitter

variable {name : String} (litter : IsLitter name) (character : Char)

include litter

theorem last_of_head (head : name.toList.head? = some character) (sharp : character ≠ '#')
    (dot : character ≠ '.') : name.toList.getLast? = some '~' := by
  cases litter with
  | backup last => exact last
  | edited _ first =>
      rw [head] at first
      exact absurd (Option.some.inj first) sharp
  | locked starts =>
      obtain ⟨rest, whole⟩ := starts
      rw [← whole] at head
      exact absurd (Option.some.inj head).symm dot
  | desktop same =>
      subst same
      exact absurd (Option.some.inj head).symm dot

theorem locked_of_last (finishes : name.toList.getLast? = some character) (sharp : character ≠ '#')
    (tilde : character ≠ '~') (letter : character ≠ 'e') : ['.', '#'] <+: name.toList := by
  cases litter with
  | backup last =>
      rw [finishes] at last
      exact absurd (Option.some.inj last) tilde
  | edited _ _ last =>
      rw [finishes] at last
      exact absurd (Option.some.inj last) sharp
  | locked starts => exact starts
  | desktop same =>
      subst same
      exact absurd (Option.some.inj finishes).symm letter

end Archetype.Copier.IsLitter

namespace Archetype.Template.Bundled

open Archetype.Path Archetype.Placeholder

def arrivals (package : String) : List Place :=
  ["README.md", "pyproject.toml", "src/" ++ package ++ "/__init__.py",
    "tests/test_" ++ package ++ ".py", ".github/workflows/tests.yml"].map segmentsOf

def kept (package : String) : List Place :=
  (arrivals package).filter fun place => !Copier.standard.isIgnored place

structure IsPackage (package : String) : Prop where
  noDot : '.' ∉ package.toList
  plain : IsPlain package

theorem forall_mem_fileForm {name : String} (holds : Char → Prop) (slash : holds '/')
    (line : holds '_') (others : ∀ character ∈ name.toList, character ≠ '.' → holds character) :
    ∀ character ∈ (Name.fileForm name).toList, holds character := by
  rw [Name.fileForm, String.toList_ofList, List.forall_mem_map]
  intro character member
  unfold Name.fileChar
  split
  · exact slash
  · split
    · exact line
    · exact others character member ‹_›

theorem isPackage_fileForm {main : String} (segment : Project.isSegment main = true)
    (free : Free opening closing main) : IsPackage (Name.fileForm main) := by
  refine ⟨fun member => ?_, forall_mem_fileForm _ (by decide) (by decide) fun character inside _ => ?_⟩
  · exact forall_mem_fileForm (· ≠ '.') (by decide) (by decide) (fun _ _ differs => differs) _
      member rfl
  · have proper := Project.mem_segmentChars segment inside
    obtain ⟨unopened, unclosed⟩ := free character inside
    simp only [List.mem_cons, List.not_mem_nil, or_false, not_or]
    refine ⟨?_, ?_, ?_, ?_⟩ <;> rintro rfl
    · exact absurd proper (by decide)
    · exact absurd proper (by decide)
    · exact unopened (by decide)
    · exact unclosed (by decide)

theorem segmentsOf_source (package : String) : segmentsOf ("src/" ++ package ++ "/__init__.py") =
    "src" :: (segmentsOf package ++ ["__init__.py"]) := by
  have text : "src/" ++ package ++ "/__init__.py" = "src" ++ "/" ++ package ++ "/" ++ "__init__.py" :=
    by simp [← String.toList_inj]
  rw [text, segmentsOf_append, segmentsOf_append,
    segmentsOf_segment (show IsSegment "src" by decide),
    segmentsOf_segment (show IsSegment "__init__.py" by decide)]
  rfl

theorem segmentsOf_test (package : String) : segmentsOf ("tests/test_" ++ package ++ ".py") =
    "tests" :: segmentsOf ("test_" ++ (package ++ ".py")) := by
  have text : "tests/test_" ++ package ++ ".py" = "tests" ++ "/" ++ ("test_" ++ (package ++ ".py")) :=
    by simp [← String.toList_inj]
  rw [text, segmentsOf_append, segmentsOf_segment (show IsSegment "tests" by decide)]
  rfl

theorem arrivals_eq (package : String) : arrivals package = [["README.md"], ["pyproject.toml"],
    "src" :: (segmentsOf package ++ ["__init__.py"]),
    "tests" :: segmentsOf ("test_" ++ (package ++ ".py")), [".github", "workflows", "tests.yml"]] := by
  simp only [arrivals, List.map_cons, List.map_nil, segmentsOf_source, segmentsOf_test]
  rfl

theorem arrivals_apart (package : String) : (arrivals package).Pairwise Disk.Apart := by
  rw [arrivals_eq]
  simp [Disk.Apart, List.cons_prefix_cons]

section Package

variable {package : String} (isPackage : IsPackage package)

include isPackage

theorem mem_segmentsOf_framed {front back : String} (front_absent : '/' ∉ front.toList)
    (back_absent : '/' ∉ back.toList) {segment : String}
    (member : segment ∈ segmentsOf (front ++ (package ++ back))) :
    ∃ inner, (inner = "" ∨ inner ∈ segmentsOf package) ∧ (segment = inner ∨
      segment = front ++ inner ∨ segment = inner ++ back ∨ segment = front ++ (inner ++ back)) := by
  obtain ⟨piece, inside, rfl⟩ := List.mem_map.1 (List.mem_filter.1 member).1
  rw [String.toList_append, String.toList_append] at inside
  obtain ⟨inner, listed, framed⟩ := Text.mem_pieces_framed front_absent back_absent inside
  refine ⟨String.ofList inner, ?_, ?_⟩
  · have named : String.ofList inner ≠ "." := fun dot => by
      obtain rfl : inner = ['.'] := by simpa using congrArg String.toList dot
      exact isPackage.noDot (Text.mem_of_mem_pieces listed (List.mem_singleton_self _))
    by_cases empty : String.ofList inner = ""
    · exact Or.inl empty
    · refine Or.inr (List.mem_filter.2 ⟨List.mem_map_of_mem listed, ?_⟩)
      simp [empty, named]
  · simpa only [← String.toList_inj, String.toList_ofList, String.toList_append] using framed

theorem isName_of_mem_package {segment : String} (member : segment ∈ segmentsOf package) :
    IsName segment := by
  refine ⟨mem_segmentsOf member, ?_⟩
  rintro rfl
  exact isPackage.noDot (subset_of_mem_segmentsOf member (by decide))

theorem isName_of_mem_test {segment : String}
    (member : segment ∈ segmentsOf ("test_" ++ (package ++ ".py"))) : IsName segment := by
  refine ⟨mem_segmentsOf member, ?_⟩
  rintro rfl
  obtain ⟨inner, listed, same | same | same | same⟩ :=
    mem_segmentsOf_framed isPackage (by decide) (by decide) member
  · subst same
    exact (isName_of_mem_package isPackage (listed.resolve_left (by decide))).2 rfl
  · have head := congrArg (·.toList.head?) same
    simp at head
  · have last := congrArg (·.toList.getLast?) same
    simp at last
  · have head := congrArg (·.toList.head?) same
    simp at head

theorem names_test : Disk.Names ("test_" ++ (package ++ ".py")) := by
  have plain : IsPlain ("test_" ++ (package ++ ".py")) :=
    IsPlain.append (by decide) (isPackage.plain.append (by decide))
  refine ⟨⟨?_, fun climbs => (isName_of_mem_test isPackage climbs).2 rfl⟩, ?_,
    hasNull_of_plain fun name member => plain.segment member⟩
  · rw [String.toList_append]
    rfl
  · obtain ⟨first, others, -, cons⟩ := Text.exists_pieces_after
      (show '/' ∉ "test_".toList by decide) (package ++ ".py").toList
    rw [segmentsOf, Text.split, String.toList_append, cons, List.map_cons, List.filter_cons]
    simp [← String.toList_inj]

theorem isLitter_of_mem_test {segment : String}
    (member : segment ∈ segmentsOf ("test_" ++ (package ++ ".py")))
    (litter : Copier.IsLitter segment) :
    ∃ inner ∈ segmentsOf package, Copier.IsLitter inner := by
  obtain ⟨inner, listed, rfl | rfl | rfl | rfl⟩ :=
    mem_segmentsOf_framed isPackage (by decide) (by decide) member
  · exact ⟨_, listed.resolve_left (mem_segmentsOf member).1, litter⟩
  · have last := litter.last_of_head 't' (by simp) (by decide) (by decide)
    rw [String.toList_append, List.getLast?_append] at last
    rcases listed with rfl | listed
    · exact absurd last (by decide)
    · refine ⟨inner, listed, .backup ?_⟩
      cases held : inner.toList.getLast? with
      | none =>
          have empty := String.toList_eq_nil_iff.1 (List.getLast?_eq_none_iff.1 held)
          exact absurd empty (mem_segmentsOf listed).1
      | some character =>
          rw [held] at last
          exact last
  · have starts := litter.locked_of_last 'y' (by simp) (by decide) (by decide) (by decide)
    rw [String.toList_append] at starts
    rcases listed with rfl | listed
    · exact absurd starts (by decide)
    · obtain ⟨character, others, cons⟩ := List.exists_cons_of_ne_nil
        (mt String.toList_eq_nil_iff.1 (mem_segmentsOf listed).1)
      rw [cons, List.cons_append, List.cons_prefix_cons] at starts
      refine absurd (subset_of_mem_segmentsOf listed ?_) isPackage.noDot
      rw [cons, starts.1]
      exact List.mem_cons_self
  · have last := litter.last_of_head 't' (by simp) (by decide) (by decide)
    rw [String.toList_append, String.toList_append, ← List.append_assoc, List.getLast?_append] at last
    simp at last

theorem isPlain_of_arrival {place : Place} (member : place ∈ arrivals package) :
    ∀ name ∈ place, IsPlain name := by
  obtain ⟨text, listed, rfl⟩ := List.mem_map.1 member
  have plain := isPackage.plain
  refine fun name inside => IsPlain.segment ?_ inside
  simp only [List.mem_cons, List.not_mem_nil, or_false] at listed
  rcases listed with rfl | rfl | rfl | rfl | rfl
  · decide
  · decide
  · exact (IsPlain.append (by decide) plain).append (by decide)
  · exact (IsPlain.append (by decide) plain).append (by decide)
  · decide

theorem kept_eq_iff :
    kept package = arrivals package ↔ ∀ segment ∈ segmentsOf package, ¬ Copier.IsLitter segment := by
  have ignores : ∀ place ∈ arrivals package, (Copier.standard.isIgnored place = true ↔
      ∃ name ∈ place, Copier.IsLitter name) := fun place member => by
    rw [Copier.isIgnored, List.any_eq_true]
    refine exists_congr fun name => and_congr_right fun inside => ?_
    exact Copier.ignoresName_standard_iff (isPlain_of_arrival isPackage member name inside).oneLine
  rw [kept, List.filter_eq_self]
  constructor
  · intro all segment inside litter
    have member : "src" :: (segmentsOf package ++ ["__init__.py"]) ∈ arrivals package := by
      simp [arrivals_eq]
    have ignored := (ignores _ member).2 ⟨segment, by simp [inside], litter⟩
    simpa [ignored] using all _ member
  · intro tidy place member
    -- names that do not come from the package are copied, so only its own can be litter
    have fixed : ∀ name ∈ ["README.md", "pyproject.toml", "src", "__init__.py", "tests", ".github",
        "workflows", "tests.yml"], ¬ Copier.IsLitter name := fun name inside litter => by
      have plain : ∀ name ∈ ["README.md", "pyproject.toml", "src", "__init__.py", "tests",
          ".github", "workflows", "tests.yml"], '\n' ∉ name.toList ∧
            Copier.standard.ignoresName name = false := by decide +kernel
      obtain ⟨oneLine, copied⟩ := plain name inside
      rw [(Copier.ignoresName_standard_iff oneLine).2 litter] at copied
      cases copied
    rw [Bool.not_eq_true', ← Bool.not_eq_true, ignores place member]
    rintro ⟨name, inside, litter⟩
    rw [arrivals_eq] at member
    simp only [List.mem_cons, List.not_mem_nil, or_false] at member
    rcases member with rfl | rfl | rfl | rfl | rfl
    · exact fixed name (List.mem_of_mem_take (i := 1) inside) litter
    · exact fixed name (by simp_all) litter
    · simp only [List.mem_cons, List.mem_append, List.not_mem_nil, or_false] at inside
      rcases inside with rfl | inside | rfl
      · exact fixed _ (by simp) litter
      · exact tidy name inside litter
      · exact fixed _ (by simp) litter
    · rcases List.mem_cons.1 inside with rfl | inside
      · exact fixed _ (by simp) litter
      · obtain ⟨inner, listed, litter⟩ := isLitter_of_mem_test isPackage inside litter
        exact tidy inner listed litter
    · exact fixed name (by simp_all) litter

end Package

end Archetype.Template.Bundled
