import Archetype.Proofs.Disk.Alteration

namespace Archetype.Disk

variable {disk : Disk}

def descendOver (disk : Disk) (follow : Bool) (links : Nat) (place : Place) (target : String)
    (rest : List String) : Except Refusal Place :=
  match links with
  | 0 => .error (.code .tooManyLinks)
  | links + 1 =>
    disk.descendLinks follow links (if Path.anchorOf target.toList = .current then place else [])
      (targetSegments target ++ rest)

section Steps

variable {follow : Bool} {links : Nat} {place : Place}

theorem descendLinks_nil : disk.descendLinks follow links place [] = .ok place := by
  cases links <;> rfl

theorem descendLinks_dot {rest : List String} :
    disk.descendLinks follow links place ("." :: rest) =
      disk.descendLinks follow links place rest := by
  cases links <;> rfl

theorem descendLinks_up {rest : List String} :
    disk.descendLinks follow links place (".." :: rest) =
      disk.descendLinks follow links place.dropLast rest := by
  cases links <;> rfl

theorem descendLinks_name {name : String} (stays : name ≠ ".") (climbs : name ≠ "..")
    {rest : List String} :
    disk.descendLinks follow links place (name :: rest) =
      match disk.node? (place ++ [name]) with
      | none => if rest.isEmpty then .ok (place ++ [name]) else .error (.code .missing)
      | some .directory => disk.descendLinks follow links (place ++ [name]) rest
      | some (.file _ _) =>
        if rest.isEmpty then .ok (place ++ [name]) else .error (.code .notDirectory)
      | some (.link target) =>
        if rest.isEmpty && !follow then .ok (place ++ [name])
        else disk.descendOver follow links place target rest := by
  cases links with
  | zero =>
      rw [descendLinks, descend]
      · rfl
      · exact stays
      · exact climbs
  | succ links =>
      rw [descendLinks, descend]
      · rfl
      · exact stays
      · exact climbs

theorem descendLinks_last {name : String} (stays : name ≠ ".") (climbs : name ≠ "..")
    (plain : follow = true → ∀ target, disk.node? (place ++ [name]) ≠ some (.link target)) :
    disk.descendLinks follow links place [name] = .ok (place ++ [name]) := by
  rw [descendLinks_name stays climbs]
  cases held : disk.node? (place ++ [name]) with
  | none => rfl
  | some node =>
      cases node with
      | file content executable => rfl
      | directory => exact descendLinks_nil
      | link target =>
          cases follow with
          | false => rfl
          | true => exact absurd held (plain rfl target)

end Steps

def Stops (disk : Disk) (links : Nat) (place : Place) (name : String) : Prop :=
  disk.node? (place ++ [name]) = none ∨
    (∃ content executable, disk.node? (place ++ [name]) = some (.file content executable)) ∨
      links = 0 ∧ ∃ target, disk.node? (place ++ [name]) = some (.link target)

theorem descendLinks_induction (disk : Disk) {motive : Nat → Place → List String → Prop}
    (done : ∀ links place, motive links place [])
    (stay : ∀ links place rest, motive links place rest → motive links place ("." :: rest))
    (climb : ∀ links place rest, motive links place.dropLast rest →
      motive links place (".." :: rest))
    (enter : ∀ links place name rest, name ≠ "." → name ≠ ".." →
      disk.node? (place ++ [name]) = some .directory → motive links (place ++ [name]) rest →
        motive links place (name :: rest))
    (jump : ∀ links place name rest target, name ≠ "." → name ≠ ".." →
      disk.node? (place ++ [name]) = some (.link target) →
      motive links (if Path.anchorOf target.toList = .current then place else [])
        (targetSegments target ++ rest) → motive (links + 1) place (name :: rest))
    (stop : ∀ links place name rest, name ≠ "." → name ≠ ".." → disk.Stops links place name →
      motive links place (name :: rest))
    (links : Nat) (place : Place) (segments : List String) : motive links place segments := by
  -- a link puts more segments before the rest, so the links that may be followed come first
  induction links using Nat.strongRecOn generalizing place segments with
  | ind links fewer =>
      induction segments generalizing place with
      | nil => exact done links place
      | cons name rest ih =>
          by_cases stays : name = "."
          · exact stays ▸ stay links place rest (ih place)
          by_cases climbs : name = ".."
          · exact climbs ▸ climb links place rest (ih _)
          cases held : disk.node? (place ++ [name]) with
          | none => exact stop links place name rest stays climbs (.inl held)
          | some node =>
              cases node with
              | directory => exact enter links place name rest stays climbs held (ih _)
              | file content executable =>
                  exact stop links place name rest stays climbs (.inr (.inl ⟨_, _, held⟩))
              | link target =>
                  cases links with
                  | zero => exact stop 0 place name rest stays climbs (.inr (.inr ⟨rfl, _, held⟩))
                  | succ links =>
                      exact jump links place name rest target stays climbs held
                        (fewer links (Nat.lt_succ_self links) _ _)

theorem Stops.eq_of_ok {follow : Bool} {links : Nat} {place reached : Place} {name : String}
    {rest : List String} (stops : disk.Stops links place name) (stays : name ≠ ".")
    (climbs : name ≠ "..")
    (reaches : disk.descendLinks follow links place (name :: rest) = .ok reached) :
    rest = [] ∧ reached = place ++ [name] := by
  have last : ∀ {check : Bool} {refused : Refusal}, (check = true → rest = []) →
      (if check then Except.ok (place ++ [name]) else .error refused) = .ok reached →
        rest = [] ∧ reached = place ++ [name] := by
    intro check refused ends reaches
    split at reaches
    · rename_i isLast
      exact ⟨ends isLast, (Except.ok.inj reaches).symm⟩
    · cases reaches
  rw [descendLinks_name stays climbs] at reaches
  rcases stops with absent | ⟨content, executable, file⟩ | ⟨rfl, target, link⟩
  · rw [absent] at reaches
    exact last List.isEmpty_iff.1 reaches
  · rw [file] at reaches
    exact last List.isEmpty_iff.1 reaches
  · rw [link] at reaches
    exact last (fun both => List.isEmpty_iff.1 (Bool.and_eq_true_iff.1 both).1) reaches

/-! ## Disks that hold more -/

structure Extends (before after : Disk) : Prop where
  current : after.current = before.current
  keeps : ∀ place node, before.node? place = some node → after.node? place = some node

namespace Extends

variable {before middle after : Disk}

theorem refl (disk : Disk) : Extends disk disk :=
  ⟨rfl, fun _ _ held => held⟩

theorem trans (first : Extends before middle) (second : Extends middle after) :
    Extends before after :=
  ⟨second.current.trans first.current,
    fun place node held => second.keeps place node (first.keeps place node held)⟩

theorem none_of_none (extended : Extends before after) {place : Place}
    (absent : after.node? place = none) : before.node? place = none := by
  cases held : before.node? place with
  | none => rfl
  | some node => rw [extended.keeps place node held] at absent; cases absent

theorem descendLinks_eq (extended : Extends before after) {follow : Bool} {links : Nat}
    {place reached : Place} {segments : List String}
    (reaches : before.descendLinks follow links place segments = .ok reached)
    (plain : follow = true → before.node? reached = none →
      ∀ target, after.node? reached ≠ some (.link target)) :
    after.descendLinks follow links place segments = .ok reached := by
  induction links, place, segments using before.descendLinks_induction with
  | done links place => rwa [descendLinks_nil] at reaches ⊢
  | stay links place rest ih =>
      rw [descendLinks_dot] at reaches ⊢
      exact ih reaches
  | climb links place rest ih =>
      rw [descendLinks_up] at reaches ⊢
      exact ih reaches
  | enter links place name rest stays climbs held ih =>
      rw [descendLinks_name stays climbs, held] at reaches
      rw [descendLinks_name stays climbs, extended.keeps _ _ held]
      exact ih reaches
  | jump links place name rest target stays climbs held ih =>
      rw [descendLinks_name stays climbs, held] at reaches
      rw [descendLinks_name stays climbs, extended.keeps _ _ held]
      dsimp only at reaches ⊢
      split
      · rename_i last
        rwa [if_pos last] at reaches
      · rename_i inner
        rw [if_neg inner] at reaches
        exact ih reaches
  | stop links place name rest stays climbs stops =>
      obtain ⟨rfl, rfl⟩ := stops.eq_of_ok stays climbs reaches
      refine descendLinks_last stays climbs fun followed target link => ?_
      rcases stops with absent | ⟨content, executable, file⟩ | ⟨rfl, other, held⟩
      · exact plain followed absent target link
      · rw [extended.keeps _ _ file] at link
        cases link
      · rw [descendLinks_name stays climbs, held, followed] at reaches
        cases reaches

theorem locate_eq (extended : Extends before after) {follow : Bool} {path : Path}
    {reached : Place} (reaches : before.locate follow path = .ok reached)
    (plain : follow = true → before.node? reached = none →
      ∀ target, after.node? reached ≠ some (.link target)) :
    after.locate follow path = .ok reached := by
  rw [locate] at reaches ⊢
  cases clean : hasNull path.segments with
  | true =>
      rw [locateFrom, clean] at reaches
      cases reaches
  | false =>
      by_cases begins : before.node? (before.start path.anchor) = some .directory
      · rw [locateFrom_of_directory clean begins] at reaches
        have start := start_congr extended.current path.anchor
        rw [locateFrom_of_directory clean (by rw [start]; exact extended.keeps _ _ begins), start]
        exact extended.descendLinks_eq reaches plain
      · rw [locateFrom_of_blocked clean begins] at reaches
        cases reaches

theorem find?_eq (extended : Extends before after) {path : Path} {node : Node}
    (found : before.find? path = some node) : after.find? path = some node := by
  unfold find? at found
  cases located : before.locate true path with
  | error refused => simp [located] at found
  | ok place =>
      simp only [located] at found
      have located := extended.locate_eq located fun _ absent => by simp [absent] at found
      simp only [find?, located, extended.keeps _ _ found]

end Extends

/-! ## Going on from a directory -/

theorem exists_descendLinks_append {follow : Bool} {links : Nat} {place reached : Place}
    {segments more : List String}
    (reaches : disk.descendLinks true links place segments = .ok reached)
    (directory : disk.node? reached = some .directory) (further : more ≠ []) :
    ∃ left, disk.descendLinks follow links place (segments ++ more) =
      disk.descendLinks follow left reached more := by
  induction links, place, segments using disk.descendLinks_induction with
  | done links place =>
      rw [descendLinks_nil] at reaches
      obtain rfl := Except.ok.inj reaches
      exact ⟨links, rfl⟩
  | stay links place rest ih =>
      rw [descendLinks_dot] at reaches
      rw [List.cons_append, descendLinks_dot]
      exact ih reaches
  | climb links place rest ih =>
      rw [descendLinks_up] at reaches
      rw [List.cons_append, descendLinks_up]
      exact ih reaches
  | enter links place name rest stays climbs held ih =>
      rw [descendLinks_name stays climbs, held] at reaches
      rw [List.cons_append, descendLinks_name stays climbs, held]
      exact ih reaches
  | jump links place name rest target stays climbs held ih =>
      rw [descendLinks_name stays climbs, held] at reaches
      rw [List.cons_append, descendLinks_name stays climbs, held]
      simp only [Bool.not_true, Bool.and_false, Bool.false_eq_true, ↓reduceIte] at reaches
      have inner : (rest ++ more).isEmpty = false := by simp [further]
      simp only [inner, Bool.false_and, Bool.false_eq_true, ↓reduceIte, descendOver]
      rw [← List.append_assoc]
      exact ih reaches
  | stop links place name rest stays climbs stops =>
      obtain ⟨-, rfl⟩ := stops.eq_of_ok stays climbs reaches
      rcases stops with absent | ⟨content, executable, file⟩ | ⟨-, target, link⟩
      · rw [absent] at directory
        cases directory
      · rw [file] at directory
        cases directory
      · rw [link] at directory
        cases directory

theorem exists_descendLinks_unfollowed {links : Nat} {place reached : Place}
    {segments : List String}
    (reaches : disk.descendLinks true links place segments = .ok reached)
    (present : disk.node? reached ≠ none) :
    ∃ found, disk.descendLinks false links place segments = .ok found ∧
      disk.node? found ≠ none := by
  induction links, place, segments using disk.descendLinks_induction with
  | done links place =>
      rw [descendLinks_nil] at reaches
      exact ⟨place, descendLinks_nil, Except.ok.inj reaches ▸ present⟩
  | stay links place rest ih =>
      rw [descendLinks_dot] at reaches ⊢
      exact ih reaches
  | climb links place rest ih =>
      rw [descendLinks_up] at reaches ⊢
      exact ih reaches
  | enter links place name rest stays climbs held ih =>
      rw [descendLinks_name stays climbs, held] at reaches ⊢
      exact ih reaches
  | jump links place name rest target stays climbs held ih =>
      rw [descendLinks_name stays climbs, held] at reaches ⊢
      simp only [Bool.not_true, Bool.and_false, Bool.false_eq_true, ↓reduceIte] at reaches
      dsimp only
      split
      · exact ⟨_, rfl, by simp [held]⟩
      · exact ih reaches
  | stop links place name rest stays climbs held =>
      rw [descendLinks_name stays climbs] at reaches ⊢
      rcases held with absent | ⟨content, executable, file⟩ | ⟨rfl, target, link⟩
      · rw [absent] at reaches ⊢
        exact ⟨reached, reaches, present⟩
      · rw [file] at reaches ⊢
        exact ⟨reached, reaches, present⟩
      · rw [link] at reaches
        simp [descendOver] at reaches

/-! ## Missing paths -/

def Misses (disk : Disk) : Except Refusal Place → Prop
  | .ok place => disk.node? place = none
  | .error refused => refused = .code .missing

section WellFormed

variable (wellFormed : disk.WellFormed)

include wellFormed

theorem WellFormed.reachable {follow : Bool} {links : Nat} {place reached : Place}
    {segments : List String} (here : disk.node? place = some .directory)
    (reaches : disk.descendLinks follow links place segments = .ok reached) :
    disk.node? reached = some .directory ∨
      ∃ parent name, reached = parent ++ [name] ∧ disk.node? parent = some .directory := by
  induction links, place, segments using disk.descendLinks_induction with
  | done links place =>
      rw [descendLinks_nil] at reaches
      exact Or.inl (Except.ok.inj reaches ▸ here)
  | stay links place rest ih =>
      rw [descendLinks_dot] at reaches
      exact ih here reaches
  | climb links place rest ih =>
      rw [descendLinks_up] at reaches
      exact ih (wellFormed.directory_dropLast (by simp [here])) reaches
  | enter links place name rest stays climbs held ih =>
      rw [descendLinks_name stays climbs, held] at reaches
      exact ih held reaches
  | jump links place name rest target stays climbs held ih =>
      rw [descendLinks_name stays climbs, held] at reaches
      dsimp only at reaches
      split at reaches
      · exact Or.inr ⟨place, name, (Except.ok.inj reaches).symm, here⟩
      · refine ih ?_ reaches
        split
        · exact here
        · simp
  | stop links place name rest stays climbs stops =>
      obtain ⟨-, rfl⟩ := stops.eq_of_ok stays climbs reaches
      exact Or.inr ⟨place, name, rfl, here⟩

theorem WellFormed.descendLinks_append_of_misses {follow : Bool} {links : Nat} {place : Place}
    {segments more : List String} (here : disk.node? place = some .directory)
    (misses : disk.Misses (disk.descendLinks false links place segments)) (further : more ≠ []) :
    disk.descendLinks follow links place (segments ++ more) = .error (.code .missing) := by
  -- the search goes the same way up to the name that is missing, and there it ends
  induction links, place, segments using disk.descendLinks_induction with
  | done links place =>
      rw [descendLinks_nil, Misses, here] at misses
      cases misses
  | stay links place rest ih =>
      rw [descendLinks_dot] at misses
      rw [List.cons_append, descendLinks_dot]
      exact ih here misses
  | climb links place rest ih =>
      rw [descendLinks_up] at misses
      rw [List.cons_append, descendLinks_up]
      exact ih (wellFormed.directory_dropLast (by simp [here])) misses
  | enter links place name rest stays climbs held ih =>
      rw [descendLinks_name stays climbs, held] at misses
      rw [List.cons_append, descendLinks_name stays climbs, held]
      exact ih held misses
  | jump links place name rest target stays climbs held ih =>
      rw [descendLinks_name stays climbs, held] at misses
      rw [List.cons_append, descendLinks_name stays climbs, held]
      have inner : (rest ++ more).isEmpty = false := by simp [further]
      simp only [inner, Bool.false_and, Bool.false_eq_true, ↓reduceIte, descendOver]
      rw [← List.append_assoc]
      cases rest with
      | nil =>
          have absent : disk.node? (place ++ [name]) = none := misses
          rw [held] at absent
          cases absent
      | cons other others =>
          refine ih ?_ misses
          split
          · exact here
          · simp
  | stop links place name rest stays climbs held =>
      rw [descendLinks_name stays climbs] at misses
      rw [List.cons_append, descendLinks_name stays climbs]
      have inner : (rest ++ more).isEmpty = false := by simp [further]
      rcases held with absent | ⟨content, executable, file⟩ | ⟨rfl, target, link⟩
      · simp only [absent, inner, Bool.false_eq_true, ↓reduceIte]
      · rw [file] at misses
        cases rest with
        | nil =>
            have absent : disk.node? (place ++ [name]) = none := misses
            rw [file] at absent
            cases absent
        | cons other others => cases misses
      · rw [link] at misses
        cases rest with
        | nil =>
            have absent : disk.node? (place ++ [name]) = none := misses
            rw [link] at absent
            cases absent
        | cons other others => cases misses

theorem WellFormed.locate_append_of_misses {path : Path}
    (clean : hasNull path.segments = false) (misses : disk.Misses (disk.locate false path))
    {names : List String} (names_clean : hasNull names = false) (further : names ≠ [])
    (follow : Bool) :
    disk.locate follow ⟨path.anchor, path.segments ++ names⟩ = .error (.code .missing) := by
  have both := hasNull_append clean names_clean
  rw [locate] at misses ⊢
  by_cases begins : disk.node? (disk.start path.anchor) = some .directory
  · rw [locateFrom_of_directory clean begins] at misses
    rw [locateFrom_of_directory both begins]
    exact wellFormed.descendLinks_append_of_misses begins misses further
  · exact locateFrom_of_blocked both begins

end WellFormed

/-! ## Directories that a path leads to -/

structure LeadsTo (disk : Disk) (path : Path) (base : Place) : Prop where
  located : disk.locate true path = .ok base
  directory : disk.node? base = some .directory

theorem Extends.leadsTo {before after : Disk} (extended : Extends before after) {path : Path}
    {base : Place} (leads : before.LeadsTo path base) : after.LeadsTo path base :=
  ⟨extended.locate_eq leads.located fun _ absent => by simp [leads.directory] at absent,
    extended.keeps _ _ leads.directory⟩

def Opens (disk : Disk) (base : Place) (names : List String) : Prop :=
  ∀ front, front <+: names → front ≠ names →
    disk.node? (base ++ front) = some .directory ∨ disk.node? (base ++ front) = none

theorem descendLinks_names (follow : Bool) (links : Nat) {base : Place} {names : List String}
    (named : ∀ name ∈ names, Path.IsName name) (opens : disk.Opens base names)
    (plain : follow = true → ∀ target, disk.node? (base ++ names) ≠ some (.link target)) :
    disk.descendLinks follow links base names = .ok (base ++ names) ∧
        (∀ front, front <+: names → front ≠ [] → front ≠ names →
          disk.node? (base ++ front) = some .directory) ∨
      disk.descendLinks follow links base names = .error (.code .missing) ∧
        ∃ front, front <+: names ∧ front ≠ names ∧ disk.node? (base ++ front) = none := by
  induction names generalizing base with
  | nil =>
      rw [descendLinks_nil, List.append_nil]
      exact Or.inl ⟨rfl, fun front starts more => absurd (List.prefix_nil.1 starts) more⟩
  | cons name rest ih =>
      have own := named name List.mem_cons_self
      by_cases last : rest = []
      · subst last
        refine Or.inl ⟨descendLinks_last own.1.2.1 own.2 plain, fun front starts more apart => ?_⟩
        rcases List.prefix_cons_iff.1 starts with empty | ⟨inner, rfl, within⟩
        · exact absurd empty more
        · exact absurd (by rw [List.prefix_nil.1 within]) apart
      · have inner : rest.isEmpty = false := by simp [last]
        rw [descendLinks_name own.1.2.1 own.2]
        rcases opens [name] (by simp) (by simp [Ne.symm last]) with directory | absent
        · rw [directory]
          have later : disk.Opens (base ++ [name]) rest := fun front starts apart => by
            rw [List.append_assoc]
            exact opens (name :: front) ((List.prefix_cons_inj name).2 starts)
              fun same => apart (List.cons.inj same).2
          have ends := ih (fun other member => named other (List.mem_cons_of_mem name member)) later
            (by simpa using plain)
          simp only [List.append_assoc, List.cons_append, List.nil_append] at ends
          refine ends.imp (And.imp_right fun fronts front starts more apart => ?_)
            (And.imp_right fun ⟨front, starts, apart, absent⟩ => ?_)
          · rcases List.prefix_cons_iff.1 starts with empty | ⟨inner, rfl, within⟩
            · exact absurd empty more
            · by_cases first : inner = []
              · rw [first]
                exact directory
              · exact fronts inner within first fun same => apart (by rw [same])
          · exact ⟨name :: front, (List.prefix_cons_inj name).2 starts,
              fun same => apart (List.cons.inj same).2, absent⟩
        · rw [absent]
          simp only [inner, Bool.false_eq_true, ↓reduceIte]
          exact Or.inr ⟨trivial, [name], by simp, by simp [Ne.symm last], absent⟩

namespace LeadsTo

variable {path : Path} {base : Place} (leads : disk.LeadsTo path base)

include leads

theorem clean : hasNull path.segments = false := by
  cases null : hasNull path.segments with
  | false => rfl
  | true =>
      have located := leads.located
      rw [locate, locateFrom, null] at located
      cases located

theorem begins : disk.node? (disk.start path.anchor) = some .directory := by
  by_contra blocked
  have located := leads.located
  rw [locate, locateFrom_of_blocked leads.clean blocked] at located
  cases located

theorem isDirectory : disk.isDirectory path = true := by
  rw [Disk.isDirectory, find?, leads.located, beq_iff_eq]
  exact leads.directory

theorem exists_unfollowed :
    ∃ found, disk.locate false path = .ok found ∧ disk.node? found ≠ none := by
  have located := leads.located
  rw [locate, locateFrom_of_directory leads.clean leads.begins] at located ⊢
  exact exists_descendLinks_unfollowed located (by simp [leads.directory])

theorem exists_locate_append {names : List String} (clean : hasNull names = false)
    (further : names ≠ []) (follow : Bool) :
    ∃ left, disk.locate follow ⟨path.anchor, path.segments ++ names⟩ =
      disk.descendLinks follow left base names := by
  have located := leads.located
  rw [locate, locateFrom_of_directory leads.clean leads.begins] at located
  rw [locate, locateFrom_of_directory (hasNull_append leads.clean clean) leads.begins]
  exact exists_descendLinks_append located leads.directory further

theorem locate_names {names : List String} (named : ∀ name ∈ names, Path.IsName name)
    (clean : hasNull names = false) (further : names ≠ [])
    (directories : ∀ front, front <+: names → front ≠ names →
      disk.node? (base ++ front) = some .directory) {follow : Bool}
    (plain : follow = true → ∀ target, disk.node? (base ++ names) ≠ some (.link target)) :
    disk.locate follow ⟨path.anchor, path.segments ++ names⟩ = .ok (base ++ names) := by
  obtain ⟨left, located⟩ := leads.exists_locate_append clean further follow
  rw [located]
  have opens : disk.Opens base names := fun front starts apart =>
    Or.inl (directories front starts apart)
  rcases descendLinks_names follow left named opens plain with
    ⟨ends, -⟩ | ⟨-, front, starts, apart, absent⟩
  · exact ends
  · rw [directories front starts apart] at absent
    cases absent

theorem locate_missing (wellFormed : disk.WellFormed) {names : List String}
    (named : ∀ name ∈ names, Path.IsName name) (clean : hasNull names = false)
    (opens : disk.Opens base names) {front : List String} (starts : front <+: names)
    (apart : front ≠ names) (absent : disk.node? (base ++ front) = none) (follow : Bool) :
    disk.locate follow ⟨path.anchor, path.segments ++ names⟩ = .error (.code .missing) := by
  have further : names ≠ [] := fun empty => by
    subst empty
    exact apart (List.prefix_nil.1 starts)
  have more : front ≠ [] := fun empty => by
    rw [empty, List.append_nil, leads.directory] at absent
    cases absent
  have end_absent : disk.node? (base ++ names) = none :=
    wellFormed.none_of_prefix absent ((List.prefix_append_right_inj base).2 starts)
  obtain ⟨left, located⟩ := leads.exists_locate_append clean further follow
  rw [located]
  rcases descendLinks_names follow left named opens
    (fun _ _ link => by rw [end_absent] at link; cases link) with ⟨-, directories⟩ | ⟨ends, -⟩
  · rw [directories front starts more apart] at absent
    cases absent
  · exact ends

theorem removeTree {others : List String} {name : String} (last : path.segments = others ++ [name])
    (inner : name ≠ "..") : disk.removeTree path = .ok (disk.prune base, none) := by
  have more : path.segments.isEmpty = false := by simp [last]
  have named : path.name = name := by simp [Path.name, last]
  simp only [Disk.removeTree, leads.located, bind, Except.bind, more, named, inner, Bool.false_and,
    Bool.false_eq_true, ↓reduceIte]
  rfl

end LeadsTo

end Archetype.Disk
