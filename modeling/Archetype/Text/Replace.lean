namespace Archetype.Text

/-- Replacing a text that is not empty; the number counts the characters of an occurrence still to
be skipped. -/
def replaceFrom (old new : List Char) : Nat → List Char → List Char
  | _, [] => []
  | skipped + 1, _ :: rest => replaceFrom old new skipped rest
  | 0, character :: rest =>
    if old.isPrefixOf (character :: rest) then
      new ++ replaceFrom old new (old.length - 1) rest
    else character :: replaceFrom old new 0 rest

def replaceAll (old new text : List Char) : List Char :=
  if old.isEmpty then new ++ text.flatMap (· :: new) else replaceFrom old new 0 text

def replace (text old new : String) : String :=
  String.ofList (replaceAll old.toList new.toList text.toList)

theorem replaceFrom_of_not_infix {old new text : List Char} (h : ¬ old <:+: text) :
    replaceFrom old new 0 text = text := by
  induction text with
  | nil => rfl
  | cons character rest ih =>
    have here : old.isPrefixOf (character :: rest) = false := by
      rw [← Bool.not_eq_true, List.isPrefixOf_iff_prefix]
      exact fun starts => h starts.isInfix
    have later : ¬ old <:+: rest := fun inside => h (inside.trans (List.suffix_cons _ _).isInfix)
    simp [replaceFrom, here, ih later]

theorem replaceAll_of_not_infix {old new text : List Char} (h : ¬ old <:+: text) :
    replaceAll old new text = text := by
  have nonempty : old.isEmpty = false := by
    cases old with
    | nil => exact absurd (List.nil_infix) h
    | cons => rfl
  simp [replaceAll, nonempty, replaceFrom_of_not_infix h]

end Archetype.Text
