import Archetype.Proofs.Disk.Places

namespace Archetype

theorem Text.fst_cutFirst_subset (separator : Char) (characters : List Char) :
    (cutFirst separator characters).1 ⊆ characters := by
  induction characters with
  | nil => exact fun _ => id
  | cons character rest ih =>
      by_cases here : character = separator
      · simp [cutFirst, here]
      · simp only [cutFirst, here, ↓reduceIte]
        exact List.cons_subset_cons _ ih

theorem Text.snd_cutLast_subset (separator : Char) (characters : List Char) :
    (cutLast separator characters).2 ⊆ characters := fun _ member =>
  List.mem_reverse.1 (fst_cutFirst_subset separator _ (List.mem_reverse.1 member))

namespace Disk

theorem hasNull_eq_false_iff {segments : List String} :
    hasNull segments = false ↔ ∀ segment ∈ segments, '\x00' ∉ segment.toList := by
  simp [hasNull]

theorem hasNull_segmentsOf {text : String} (clean : '\x00' ∉ text.toList) :
    hasNull (Path.segmentsOf text) = false :=
  hasNull_eq_false_iff.2 fun _ member inside =>
    clean (Path.subset_of_mem_segmentsOf member inside)

theorem hasNull_targetSegments {text : String} (clean : '\x00' ∉ text.toList) :
    hasNull (targetSegments text) = false := by
  refine hasNull_append (hasNull_segmentsOf clean) ?_
  split <;> decide

end Disk

namespace Path

open Archetype.Disk

theorem not_mem_intercalate {segments : List String} (clean : hasNull segments = false) :
    '\x00' ∉ ("/".intercalate segments).toList := fun member => by
  obtain slash | ⟨segment, inside, found⟩ := mem_intercalate member
  · exact absurd slash (by decide)
  · exact hasNull_eq_false_iff.1 clean segment inside found

def Clean (path : Path) : Prop :=
  hasNull path.segments = false

theorem Clean.parent {path : Path} (clean : path.Clean) : path.parent.Clean :=
  hasNull_of_subset (List.dropLast_subset _) clean

theorem clean_join {base addition : Path} (base_clean : base.Clean)
    (addition_clean : addition.Clean) : (base.join addition).Clean := by
  by_cases relative : addition.anchor = .current
  · rw [join_of_current base relative]
    exact hasNull_append base_clean addition_clean
  · rwa [join_of_anchored base relative]

theorem clean_div {base : Path} {text : String} (base_clean : base.Clean)
    (text_clean : hasNull (segmentsOf text) = false) : (base / text).Clean :=
  clean_join base_clean text_clean

theorem Clean.of_join {base : Path} {segments : List String}
    (clean : (base.join ⟨.current, segments⟩).Clean) : hasNull segments = false := by
  rw [join_of_current base rfl] at clean
  exact hasNull_of_subset (List.subset_append_right _ _) clean

end Path

namespace FileName

def Clean : FileName → Prop
  | path named => named.Clean
  | text named => '\x00' ∉ named.toList

theorem Clean.not_mem {name : FileName} (clean : name.Clean) : '\x00' ∉ name.toText.toList := by
  cases name with
  | text named => exact clean
  | path named =>
      unfold toText Path.toText
      dsimp only
      split
      · decide
      · rw [String.toList_append, List.mem_append, not_or]
        refine ⟨?_, Path.not_mem_intercalate clean⟩
        cases named.anchor <;> decide

theorem Clean.inside_base {directory name : FileName} (clean : directory.Clean)
    (name_clean : name.Clean) : (directory.inside name.base).Clean := by
  have base_clean : '\x00' ∉ name.base.toList := by
    rw [base, String.toList_ofList]
    exact fun member => name_clean.not_mem (Text.snd_cutLast_subset _ _ member)
  unfold inside Clean
  dsimp only
  split <;> simp [clean.not_mem, base_clean]

end FileName

namespace Disk

variable {α β : Type}

inductive Coded : Except Refusal α → Prop
  | ok (value : α) : Coded (.ok value)
  | code (code : ErrorCode) : Coded (.error (.code code))

theorem Coded.bind {first : Except Refusal α} {next : α → Except Refusal β} (coded : Coded first)
    (rest : ∀ value, Coded (next value)) : Coded (first >>= next) := by
  cases coded with
  | ok value => exact rest value
  | code code => exact .code code

variable (disk : Disk) {follow : Bool}

theorem coded_descend {onLink : Place → String → List String → Except Refusal Place}
    (links : ∀ place target rest, Coded (onLink place target rest)) (place : Place)
    (segments : List String) : Coded (disk.descend follow onLink place segments) := by
  fun_induction descend disk follow onLink place segments with
  | case1 => exact .ok _
  | case2 _ _ ih => exact ih
  | case3 _ _ ih => exact ih
  | case4 => exact .ok _
  | case5 => exact .code _
  | case6 => assumption
  | case7 => exact .ok _
  | case8 => exact .code _
  | case9 => exact .ok _
  | case10 => exact links _ _ _

theorem coded_descendLinks (count : Nat) (place : Place) (segments : List String) :
    Coded (disk.descendLinks follow count place segments) := by
  induction count generalizing place segments with
  | zero => exact coded_descend disk (fun _ _ _ => .code _) place segments
  | succ count ih => exact coded_descend disk (fun _ _ _ => ih _ _) place segments

theorem coded_locateFrom (anchor : Anchor) {segments : List String}
    (clean : hasNull segments = false) : Coded (disk.locateFrom follow anchor segments) := by
  unfold locateFrom
  rw [clean, if_neg Bool.false_ne_true]
  dsimp only
  split
  · exact disk.coded_descendLinks _ _ _
  · exact .code _

theorem coded_locateName {name : FileName} (clean : name.Clean) :
    Coded (disk.locateName follow name) := by
  cases name with
  | path named => exact disk.coded_locateFrom _ clean
  | text named => exact disk.coded_locateFrom _ (hasNull_targetSegments clean)

theorem coded_existing {name : FileName} (clean : name.Clean) : Coded (disk.existing name) := by
  refine (disk.coded_locateName clean).bind fun place => ?_
  cases disk.node? place with
  | none => exact .code _
  | some node => exact .ok _

theorem coded_read {name : FileName} (clean : name.Clean) : Coded (disk.read name) := by
  refine (disk.coded_locateName clean).bind fun place => ?_
  split
  · exact .ok _
  all_goals exact .code _

theorem coded_write {name : FileName} (clean : name.Clean) (content : ByteArray)
    (executable : Bool) : Coded (disk.write name content executable) := by
  refine (disk.coded_locateName clean).bind fun place => ?_
  split
  · exact .code _
  · exact .code _
  all_goals exact .ok _

variable {path : Path} (clean : path.Clean)

include clean

theorem coded_makeDirectory : Coded (disk.makeDirectory path) := by
  refine (disk.coded_locateFrom _ clean).bind fun place => ?_
  cases disk.node? place with
  | none => exact .ok _
  | some node => exact .code _

theorem coded_removeFile : Coded (disk.removeFile path) := by
  refine (disk.coded_locateFrom _ clean).bind fun place => ?_
  split
  · exact .code _
  · exact .code _
  · exact .ok _

theorem coded_removeTree : Coded (disk.removeTree path) := by
  refine (disk.coded_locateFrom _ clean).bind fun place => ?_
  dsimp only
  split
  · exact .ok _
  · split
    · split <;> exact .ok _
    · exact .ok _

omit clean in
theorem clean_of_find? {disk : Disk} {node : Node} (found : disk.find? path = some node) :
    path.Clean := by
  cases null : hasNull path.segments with
  | false => exact null
  | true =>
      rw [find?, locate, locateFrom, null] at found
      cases found

end Disk

end Archetype
