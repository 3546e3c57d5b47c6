import Archetype.Command.Request
import Mathlib.Tactic.Common

namespace Archetype.Command

def IsPlain (argument : String) : Prop :=
  argument.toList.head? ≠ some '-'

def rootArguments (roots : List String) : List String :=
  roots.flatMap fun root => ["-s", root]

instance : DecidablePred IsPlain := fun argument =>
  inferInstanceAs (Decidable (argument.toList.head? ≠ some '-'))

theorem IsPlain.ne_separator {argument : String} (plain : IsPlain argument) : argument ≠ "--" := by
  rintro rfl
  exact plain rfl

namespace Grammar

variable {grammar : Grammar}

theorem parse_of_use {arguments : List String} {items : List Item} {reading : Reading}
    (reads : grammar.read arguments = .ok items)
    (uses : grammar.use grammar.positionals .start items = .ok reading)
    (complete : grammar.missing reading.uses = []) : grammar.parse arguments = .ok reading := by
  simp only [parse, reads, bind, Except.bind, uses, complete]
  rfl

theorem read_plain {argument : String} (plain : IsPlain argument) (arguments : List String) :
    grammar.read (argument :: arguments) =
      (grammar.read arguments).map fun items => .plain argument :: items := by
  rw [read, if_neg plain.ne_separator]
  unfold IsPlain at plain
  split
  · rename_i same
    rw [same] at plain
    exact absurd rfl plain
  · rename_i same
    rw [same] at plain
    exact absurd rfl plain
  · cases grammar.read arguments <;> rfl

theorem read_rootArguments (item : Item) (reads : grammar.readShort "-s" 's' [] = item)
    {roots : List String} (plain : ∀ root ∈ roots, IsPlain root) :
    grammar.read (rootArguments roots) = .ok (roots.flatMap fun root => [item, .plain root]) := by
  induction roots with
  | nil => rfl
  | cons root roots ih =>
      have rest := ih fun other member => plain other (List.mem_cons_of_mem _ member)
      have first : grammar.read (root :: rootArguments roots) =
          .ok (.plain root :: roots.flatMap fun root => [item, .plain root]) := by
        rw [read_plain (plain root (List.mem_cons_self ..)), rest]
        rfl
      change grammar.read ("-s" :: root :: rootArguments roots) = _
      have letters : "-s".toList = ['-', 's'] := rfl
      rw [read, if_neg (by decide), first, letters, ← reads]
      rfl

theorem use_rootArguments (roots : List String) (position : Position) :
    creation.use [] position (roots.flatMap fun root =>
        [.flag "-s" rootFlag .nothing, .plain root]) =
      .ok ⟨roots.map fun root => .flag rootFlag (some root), []⟩ := by
  induction roots generalizing position with
  | nil => rfl
  | cons root roots ih =>
      change creation.use [] position (.flag "-s" rootFlag .nothing :: .plain root ::
        roots.flatMap fun root => [.flag "-s" rootFlag .nothing, .plain root]) = _
      simp only [use, ih]
      rfl

end Grammar

theorem valuesOf_roots (flag : Flag) (roots : List String) :
    valuesOf flag (roots.map fun root => .flag rootFlag (some root)) =
      if rootFlag = flag then roots else [] := by
  induction roots with
  | nil => simp [valuesOf]
  | cons root roots ih =>
      rw [List.map_cons, valuesOf, List.filterMap_cons]
      rw [valuesOf] at ih
      split <;> simp_all

theorem ofUses_rootArguments (command : List String) (template name : String)
    (roots : List String) :
    Request.ofUses [.positional "command" command]
        (.positional "template" [template] :: .positional "name" [name] ::
          roots.map fun root => .flag rootFlag (some root)) =
      ⟨0, some template, some name, none, [], roots⟩ := by
  have flags (flag : Flag) : valuesOf flag (.positional "template" [template] ::
      .positional "name" [name] :: roots.map fun root => .flag rootFlag (some root)) =
        if rootFlag = flag then roots else [] :=
    valuesOf_roots flag roots
  have template_value : (valuesAt "template" (.positional "template" [template] ::
      .positional "name" [name] :: roots.map fun root => .flag rootFlag (some root))).head? =
        some template := rfl
  have name_value : (valuesAt "name" (.positional "template" [template] ::
      .positional "name" [name] :: roots.map fun root => .flag rootFlag (some root))).head? =
        some name := rfl
  unfold Request.ofUses
  rw [flags, flags, flags, template_value, name_value]
  rfl

section Plain

variable {template name : String} {roots : List String}
  (plain : ∀ argument ∈ template :: name :: roots, IsPlain argument)

include plain

theorem parse_general :
    general.parse (createName :: template :: name :: rootArguments roots) =
      .ok ⟨[.positional "command" (createName :: template :: name :: rootArguments roots)], []⟩ := by
  rw [List.forall_mem_cons, List.forall_mem_cons] at plain
  obtain ⟨plain_template, plain_name, plain_roots⟩ := plain
  have reads : general.read (createName :: template :: name :: rootArguments roots) =
      .ok (.plain createName :: .plain template :: .plain name ::
        roots.flatMap fun root => [.unknown "-s", .plain root]) := by
    rw [Grammar.read_plain (by decide), Grammar.read_plain plain_template,
      Grammar.read_plain plain_name, Grammar.read_rootArguments (.unknown "-s") rfl plain_roots]
    rfl
  have texts : (roots.flatMap fun root => [Item.unknown "-s", .plain root]).map Item.text =
      rootArguments roots := by
    rw [rootArguments, List.map_flatMap]
    rfl
  refine Grammar.parse_of_use reads ?_ rfl
  rw [← texts]
  rfl

theorem parse_creation :
    creation.parse (template :: name :: rootArguments roots) =
      .ok ⟨.positional "template" [template] :: .positional "name" [name] ::
        roots.map fun root => .flag rootFlag (some root), []⟩ := by
  rw [List.forall_mem_cons, List.forall_mem_cons] at plain
  obtain ⟨plain_template, plain_name, plain_roots⟩ := plain
  have reads : creation.read (template :: name :: rootArguments roots) =
      .ok (.plain template :: .plain name ::
        roots.flatMap fun root => [.flag "-s" rootFlag .nothing, .plain root]) := by
    rw [Grammar.read_plain plain_template, Grammar.read_plain plain_name,
      Grammar.read_rootArguments (.flag "-s" rootFlag .nothing) rfl plain_roots]
    rfl
  refine Grammar.parse_of_use reads ?_ rfl
  have flags := Grammar.use_rootArguments roots .afterPositional
  simp only [creation, Grammar.use, Positional.use, plain_template.ne_separator,
    plain_name.ne_separator, decide_false, Bool.false_and] at flags ⊢
  rw [flags]
  rfl

theorem parse_rootArguments :
    Request.parse (createName :: template :: name :: rootArguments roots) =
      .ok ⟨0, some template, some name, none, [], roots⟩ := by
  have command : valuesAt "command" [.positional "command"
      (createName :: template :: name :: rootArguments roots)] =
        createName :: template :: name :: rootArguments roots := by
    simp [valuesAt]
  unfold Request.parse
  rw [parse_general plain]
  simp only [bind, Except.bind]
  rw [command]
  simp only [parse_creation plain]
  rw [if_neg (not_not_intro rfl), List.append_nil, if_pos List.isEmpty_nil, ofUses_rootArguments]
  rfl

end Plain

end Archetype.Command
