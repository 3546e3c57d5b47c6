namespace Archetype.Text

/-- A separator of words: white space by its Unicode property, or one of the four information
separators `U+001C` to `U+001F`. -/
def isBlank (character : Char) : Bool :=
  let code := character.toNat
  (9 ≤ code && code ≤ 13) || (28 ≤ code && code ≤ 32) || code == 0x85 || code == 0xA0 ||
    code == 0x1680 || (0x2000 ≤ code && code ≤ 0x200A) || code == 0x2028 || code == 0x2029 ||
    code == 0x202F || code == 0x205F || code == 0x3000

def trimStart (drop : Char → Bool) (characters : List Char) : List Char :=
  characters.dropWhile drop

def trimEnd (drop : Char → Bool) (characters : List Char) : List Char :=
  (characters.reverse.dropWhile drop).reverse

def trim (drop : Char → Bool) (characters : List Char) : List Char :=
  trimEnd drop (trimStart drop characters)

def strip (text : String) : String :=
  String.ofList (trim isBlank text.toList)

def collapseChars : List Char → List Char
  | [] => []
  | [character] => if isBlank character then [' '] else [character]
  | first :: second :: rest =>
    if isBlank first then
      if isBlank second then collapseChars (second :: rest)
      else ' ' :: collapseChars (second :: rest)
    else first :: collapseChars (second :: rest)

def collapse (text : String) : String :=
  String.ofList (collapseChars text.toList)

theorem trim_of_ends {drop : Char → Bool} {characters : List Char}
    (first : ∀ character ∈ characters.head?, drop character = false)
    (last : ∀ character ∈ characters.getLast?, drop character = false) :
    trim drop characters = characters := by
  have start : trimStart drop characters = characters := by
    cases characters with
    | nil => rfl
    | cons character rest => simp [trimStart, first character (by simp)]
  have finish : trimEnd drop characters = characters := by
    unfold trimEnd
    cases reversed : characters.reverse with
    | nil => simp_all
    | cons character rest =>
      have : drop character = false := last character (by
        rw [← List.head?_reverse, reversed]; simp)
      rw [List.dropWhile_cons, this]
      simp [← reversed]
  rw [trim, start, finish]

section Trim

variable {drop : Char → Bool} {character : Char} {characters : List Char}

theorem drop_eq_false_of_head?_trimStart
    (first : character ∈ (trimStart drop characters).head?) : drop character = false := by
  have kept := List.head?_dropWhile_not drop characters
  rwa [← trimStart, Option.mem_def.1 first] at kept

theorem drop_eq_false_of_head?_trim (first : character ∈ (trim drop characters).head?) :
    drop character = false := by
  have starts : trim drop characters <+: trimStart drop characters := by
    rw [trim, trimEnd, ← List.reverse_suffix, List.reverse_reverse]
    exact List.dropWhile_suffix _
  obtain ⟨rest, whole⟩ := starts
  have kept : character ∈ (trimStart drop characters).head? := by
    rw [← whole, List.head?_append, Option.mem_def.1 first]
    rfl
  exact drop_eq_false_of_head?_trimStart kept

theorem drop_eq_false_of_getLast?_trim (last : character ∈ (trim drop characters).getLast?) :
    drop character = false := by
  rw [trim, trimEnd, List.getLast?_reverse] at last
  exact drop_eq_false_of_head?_trimStart last

theorem trim_trim (drop : Char → Bool) (characters : List Char) :
    trim drop (trim drop characters) = trim drop characters :=
  trim_of_ends (fun _ => drop_eq_false_of_head?_trim) fun _ => drop_eq_false_of_getLast?_trim

theorem mem_trimStart_of_kept (kept : drop character = false) (member : character ∈ characters) :
    character ∈ trimStart drop characters := by
  induction characters with
  | nil => exact member
  | cons first rest ih =>
    rw [trimStart, List.dropWhile_cons]
    split
    · rename_i dropped
      have apart : character ≠ first := fun same => by simp [← same, kept] at dropped
      exact ih ((List.mem_cons.1 member).resolve_left apart)
    · exact member

theorem mem_trim_of_kept (kept : drop character = false) (member : character ∈ characters) :
    character ∈ trim drop characters :=
  List.mem_reverse.2 (mem_trimStart_of_kept kept
    (List.mem_reverse.2 (mem_trimStart_of_kept kept member)))

theorem trim_subset (drop : Char → Bool) (characters : List Char) :
    trim drop characters ⊆ characters := by
  have start := (List.dropWhile_suffix (l := characters) drop).subset
  have ends := (List.dropWhile_suffix (l := (trimStart drop characters).reverse) drop).subset
  exact fun character member => start (List.mem_reverse.1 (ends (List.mem_reverse.1 member)))

theorem trim_eq_nil_iff :
    trim drop characters = [] ↔ ∀ character ∈ characters, drop character = true := by
  constructor
  · intro empty character member
    refine Bool.of_not_eq_false fun kept => ?_
    have left := mem_trim_of_kept kept member
    rw [empty] at left
    cases left
  · intro dropped
    cases left : trim drop characters with
    | nil => rfl
    | cons first rest =>
      have heads : first ∈ (trim drop characters).head? := by rw [left]; rfl
      have member : first ∈ characters := trim_subset drop characters (by rw [left]; simp)
      have kept := drop_eq_false_of_head?_trim heads
      rw [dropped first member] at kept
      cases kept

end Trim

theorem strip_strip (text : String) : strip (strip text) = strip text := by
  simp only [strip, String.toList_ofList, trim_trim]

theorem strip_subset (text : String) : (strip text).toList ⊆ text.toList := by
  rw [strip, String.toList_ofList]
  exact trim_subset _ _

end Archetype.Text
