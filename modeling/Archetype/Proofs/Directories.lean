import Archetype.Proofs.Completions
import Archetype.Proofs.Disk.Links

namespace Archetype.Disk

variable {disk : Disk} {path : Path}

theorem makeDirectory_eq_ok_iff {changed : Disk} :
    disk.makeDirectory path = .ok changed ↔
      ∃ place, disk.locate false path = .ok place ∧ disk.node? place = none ∧
        changed = disk.put place .directory := by
  unfold makeDirectory
  cases located : disk.locate false path with
  | error refused => simp [bind, Except.bind]
  | ok place =>
      simp only [bind, Except.bind, Except.ok.injEq, exists_eq_left']
      cases held : disk.node? place with
      | none => simp [pure, Except.pure, eq_comm]
      | some node => simp [throw, throwThe, MonadExceptOf.throw]

theorem makeDirectory_eq_missing_iff :
    disk.makeDirectory path = .error (.code .missing) ↔
      disk.locate false path = .error (.code .missing) := by
  unfold makeDirectory
  cases located : disk.locate false path with
  | error refused => simp [bind, Except.bind]
  | ok place =>
      simp only [bind, Except.bind, reduceCtorEq, iff_false]
      cases held : disk.node? place with
      | none => simp [pure, Except.pure]
      | some node => simp [throw, throwThe, MonadExceptOf.throw]

theorem extends_put {place : Place} (absent : disk.node? place = none) (node : Node) :
    Extends disk (disk.put place node) := by
  have more : place ≠ [] := by
    rintro rfl
    simp at absent
  refine ⟨rfl, fun other held there => ?_⟩
  rw [node?_put disk more, if_neg]
  · exact there
  · rintro rfl
    rw [absent] at there
    cases there

theorem WellFormed.exists_parent (wellFormed : disk.WellFormed) {follow : Bool} {place : Place}
    (located : disk.locate follow path = .ok place) (absent : disk.node? place = none) :
    ∃ parent name, place = parent ++ [name] ∧ disk.node? parent = some .directory := by
  have clean : hasNull path.segments = false := by
    by_contra null
    rw [locate, locateFrom, if_pos (by simpa using null)] at located
    cases located
  have begins : disk.node? (disk.start path.anchor) = some .directory := by
    by_contra blocked
    rw [locate, locateFrom_of_blocked clean blocked] at located
    cases located
  rw [locate, locateFrom_of_directory clean begins] at located
  refine (wellFormed.reachable begins located).resolve_left fun directory => ?_
  rw [absent] at directory
  cases directory

theorem WellFormed.makeDirectory (wellFormed : disk.WellFormed) {changed : Disk}
    (makes : disk.makeDirectory path = .ok changed) : changed.WellFormed := by
  obtain ⟨place, located, absent, rfl⟩ := makeDirectory_eq_ok_iff.1 makes
  obtain ⟨parent, name, rfl, directory⟩ := wellFormed.exists_parent located absent
  exact wellFormed.put directory (by simp [absent]) .directory

structure Opened (base : Place) (names : List String) (before after : Disk) : Prop where
  current : after.current = before.current
  node : ∀ place, after.node? place =
    if base <+: place ∧ place <+: base ++ names then some .directory else before.node? place

namespace Opened

variable {base : Place} {names : List String} {before after : Disk}

theorem of_directories {disk : Disk} (directories : ∀ front, front <+: names →
    disk.node? (base ++ front) = some .directory) : Opened base names disk disk := by
  refine ⟨rfl, fun place => ?_⟩
  split
  · rename_i within
    obtain ⟨⟨front, rfl⟩, inside⟩ := within
    exact directories front ((List.prefix_append_right_inj base).1 inside)
  · rfl

theorem directory (opened : Opened base names before after) {front : List String}
    (starts : front <+: names) : after.node? (base ++ front) = some .directory := by
  have within := (List.prefix_append_right_inj base).2 starts
  rw [opened.node, if_pos ⟨List.prefix_append base front, within⟩]

theorem extended (opened : Opened base names before after) (opens : ∀ front, front <+: names →
    before.node? (base ++ front) = some .directory ∨ before.node? (base ++ front) = none) :
    Extends before after := by
  refine ⟨opened.current, fun place node held => ?_⟩
  rw [opened.node]
  split
  · rename_i within
    obtain ⟨⟨front, rfl⟩, inside⟩ := within
    rcases opens front ((List.prefix_append_right_inj base).1 inside) with there | absent
    · rw [← held, there]
    · rw [absent] at held
      cases held
  · exact held

theorem concat {last : String} {middle : Disk} (opened : Opened base names before middle)
    (current : after.current = middle.current)
    (node : ∀ place, after.node? place =
      if base ++ (names ++ [last]) = place then some .directory else middle.node? place) :
    Opened base (names ++ [last]) before after := by
  refine ⟨current.trans opened.current, fun place => ?_⟩
  rw [node, opened.node]
  by_cases own : base ++ (names ++ [last]) = place
  · subst own
    rw [if_pos rfl, if_pos ⟨List.prefix_append _ _, List.prefix_refl _⟩]
  · rw [if_neg own, ← List.append_assoc]
    refine if_congr (and_congr_right fun _ => ?_) rfl rfl
    rw [List.prefix_concat_iff, or_iff_right]
    rw [List.append_assoc]
    exact fun same => own same.symm

end Opened

end Archetype.Disk

namespace Archetype.Action

open Archetype.Disk

variable {world reached : World} {path : Path}

theorem makeDirectory_cases (ends : makeDirectory path world = .ok () reached) :
    (∃ changed, world.disk.makeDirectory path = .ok changed ∧
        reached = { world with disk := changed }) ∨
      world.disk.isDirectory path = true ∧ reached = world := by
  rw [makeDirectory, disk_bind] at ends
  cases made : world.disk.makeDirectory path with
  | ok changed =>
      simp only [made] at ends
      cases ends
      exact Or.inl ⟨changed, rfl, rfl⟩
  | error refused =>
      simp only [made] at ends
      split at ends
      · cases ends
      · rename_i directory
        cases ends
        exact Or.inr ⟨by simpa using directory, rfl⟩

theorem makeDirectory_of_ok {changed : Disk}
    (made : world.disk.makeDirectory path = .ok changed) :
    makeDirectory path world = .ok () { world with disk := changed } := by
  rw [makeDirectory, disk_bind]
  simp only [made]
  rfl

theorem makeDirectory_of_leadsTo {base : Place} (leads : world.disk.LeadsTo path base) :
    makeDirectory path world = .ok () world := by
  rw [makeDirectory, disk_bind]
  obtain ⟨found, located, present⟩ := leads.exists_unfollowed
  cases made : world.disk.makeDirectory path with
  | ok changed =>
      obtain ⟨place, same, absent, -⟩ := makeDirectory_eq_ok_iff.1 made
      obtain rfl := Except.ok.inj (located.symm.trans same)
      exact absurd absent present
  | error refused =>
      simp only [leads.isDirectory]
      rfl

theorem makeDirectories_of_leadsTo {base : Place} (leads : world.disk.LeadsTo path base) :
    makeDirectories path world = .ok () world := by
  obtain ⟨anchor, segments⟩ := path
  rcases List.eq_nil_or_concat' segments with rfl | ⟨others, last, rfl⟩
  · exact makeDirectory_of_leadsTo leads
  · obtain ⟨found, located, -⟩ := leads.exists_unfollowed
    rw [makeDirectories_of_ne_missing, makeDirectory_of_leadsTo leads]
    rw [Ne, makeDirectory_eq_missing_iff, located]
    exact nofun

theorem unchanged_or_misses (ends : makeDirectories path world = .ok () reached) :
    reached = world ∨ world.disk.Misses (world.disk.locate false path) := by
  have single : makeDirectory path world = .ok () reached →
      reached = world ∨ world.disk.Misses (world.disk.locate false path) := by
    intro ends
    rcases makeDirectory_cases ends with ⟨changed, made, -⟩ | ⟨-, same⟩
    · obtain ⟨place, located, absent, -⟩ := makeDirectory_eq_ok_iff.1 made
      exact Or.inr (by rw [located]; exact absent)
    · exact Or.inl same
  obtain ⟨anchor, segments⟩ := path
  rcases List.eq_nil_or_concat' segments with rfl | ⟨others, last, rfl⟩
  · exact single ends
  · by_cases missing :
        world.disk.makeDirectory ⟨anchor, others ++ [last]⟩ = .error (.code .missing)
    · rw [makeDirectory_eq_missing_iff] at missing
      exact Or.inr (by rw [missing]; rfl)
    · rw [makeDirectories_of_ne_missing missing] at ends
      exact single ends

theorem keeps_of_makeDirectory (ends : makeDirectory path world = .ok () reached) :
    Extends world.disk reached.disk ∧ (world.disk.WellFormed → reached.disk.WellFormed) := by
  rcases makeDirectory_cases ends with ⟨changed, made, rfl⟩ | ⟨-, rfl⟩
  · refine ⟨?_, fun wellFormed => wellFormed.makeDirectory made⟩
    obtain ⟨place, -, absent, rfl⟩ := makeDirectory_eq_ok_iff.1 made
    exact extends_put absent .directory
  · exact ⟨Extends.refl _, id⟩

theorem keeps_of_makeDirectories (ends : makeDirectories path world = .ok () reached) :
    Extends world.disk reached.disk ∧ (world.disk.WellFormed → reached.disk.WellFormed) := by
  obtain ⟨anchor, segments⟩ := path
  induction segments using List.reverseRecOn generalizing reached with
  | nil => exact keeps_of_makeDirectory ends
  | append_singleton others last ih =>
      by_cases missing :
          world.disk.makeDirectory ⟨anchor, others ++ [last]⟩ = .error (.code .missing)
      · rw [makeDirectories_of_missing missing] at ends
        obtain ⟨_, between, first, second⟩ := bind_eq_ok_iff.1 ends
        obtain ⟨first_extends, first_wellFormed⟩ := ih first
        obtain ⟨second_extends, second_wellFormed⟩ := keeps_of_makeDirectory second
        exact ⟨first_extends.trans second_extends, second_wellFormed ∘ first_wellFormed⟩
      · rw [makeDirectories_of_ne_missing missing] at ends
        exact keeps_of_makeDirectory ends

theorem makeDirectory_names {base : Place}
    (leads : world.disk.LeadsTo path base) {names : List String} {last : String}
    (named : ∀ name ∈ names ++ [last], Path.IsName name) (clean : hasNull (names ++ [last]) = false)
    (directories : ∀ front, front <+: names →
      world.disk.node? (base ++ front) = some .directory)
    (opens : world.disk.node? (base ++ (names ++ [last])) = some .directory ∨
      world.disk.node? (base ++ (names ++ [last])) = none) :
    ∃ changed, makeDirectory ⟨path.anchor, path.segments ++ (names ++ [last])⟩ world =
        .ok () { world with disk := changed } ∧ changed.current = world.disk.current ∧
      ∀ place, changed.node? place =
        if base ++ (names ++ [last]) = place then some .directory else world.disk.node? place := by
  have fronts : ∀ front, front <+: names ++ [last] → front ≠ names ++ [last] →
      world.disk.node? (base ++ front) = some .directory := fun front starts apart =>
    directories front ((List.prefix_concat_iff.1 starts).resolve_left apart)
  have plain : ∀ target, world.disk.node? (base ++ (names ++ [last])) ≠ some (.link target) := by
    rcases opens with directory | absent
    · simp [directory]
    · simp [absent]
  have located : ∀ follow, world.disk.locate follow
      ⟨path.anchor, path.segments ++ (names ++ [last])⟩ = .ok (base ++ (names ++ [last])) :=
    fun follow => leads.locate_names named clean (by simp) fronts fun _ => plain
  rcases opens with directory | absent
  · refine ⟨world.disk, makeDirectory_of_leadsTo ⟨located true, directory⟩, rfl, fun place => ?_⟩
    split
    · rename_i same
      rw [← same, directory]
    · rfl
  · refine ⟨world.disk.put (base ++ (names ++ [last])) .directory, makeDirectory_of_ok ?_, rfl, ?_⟩
    · exact makeDirectory_eq_ok_iff.2 ⟨_, located false, absent, rfl⟩
    · exact node?_put _ (by simp) _

theorem makeDirectories_names {made : World} {base : Place}
    (wellFormed : world.disk.WellFormed) (ends : makeDirectories path world = .ok () made)
    (leads : made.disk.LeadsTo path base) {names : List String}
    (named : ∀ name ∈ names, Path.IsName name) (clean : hasNull names = false)
    (opens : ∀ front, front <+: names → made.disk.node? (base ++ front) = some .directory ∨
      made.disk.node? (base ++ front) = none) :
    ∃ opened, makeDirectories ⟨path.anchor, path.segments ++ names⟩ world =
        .ok () { made with disk := opened } ∧ Opened base names made.disk opened := by
  obtain ⟨extended, keeps⟩ := keeps_of_makeDirectories ends
  have path_clean := leads.clean
  induction names using List.reverseRecOn with
  | nil =>
      refine ⟨made.disk, by rwa [List.append_nil], Opened.of_directories fun front starts => ?_⟩
      rw [List.prefix_nil.1 starts, List.append_nil]
      exact leads.directory
  | append_singleton names last ih =>
      have inside : names <+: names ++ [last] := List.prefix_append names [last]
      have names_opens := fun front (starts : front <+: names) => opens front (starts.trans inside)
      -- the directories before the last one are in place, whether or not they had to be made
      have before : ∃ opened, Opened base names made.disk opened ∧
          makeDirectories ⟨path.anchor, path.segments ++ (names ++ [last])⟩ world =
            makeDirectory ⟨path.anchor, path.segments ++ (names ++ [last])⟩
              { made with disk := opened } := by
        rw [← List.append_assoc]
        by_cases missing : world.disk.makeDirectory
            ⟨path.anchor, path.segments ++ names ++ [last]⟩ = .error (.code .missing)
        · obtain ⟨opened, inner_ends, isOpened⟩ := ih
            (fun name member => named name (inside.subset member))
            (hasNull_of_subset inside.subset clean) names_opens
          exact ⟨opened, isOpened, by rw [makeDirectories_of_missing missing, bind_ok inner_ends]⟩
        · have located := mt makeDirectory_eq_missing_iff.2 missing
          rw [List.append_assoc] at located
          obtain rfl : made = world := by
            refine (unchanged_or_misses ends).resolve_right fun misses => located ?_
            exact wellFormed.locate_append_of_misses path_clean misses clean (by simp) false
          refine ⟨made.disk, Opened.of_directories fun front starts => ?_,
            makeDirectories_of_ne_missing missing⟩
          refine (names_opens front starts).resolve_right fun absent => located ?_
          refine leads.locate_missing (keeps wellFormed) named clean
            (fun other begins _ => opens other begins) (starts.trans inside) ?_ absent false
          rintro rfl
          exact absurd starts.length_le (by simp)
      obtain ⟨opened, isOpened, steps⟩ := before
      have apart : ¬ base ++ (names ++ [last]) <+: base ++ names := fun within =>
        absurd within.length_le (by simp)
      have last_opens : opened.node? (base ++ (names ++ [last])) = some .directory ∨
          opened.node? (base ++ (names ++ [last])) = none := by
        rw [isOpened.node, if_neg fun within => apart within.2]
        exact opens _ (List.prefix_refl _)
      have opened_leads : ({ made with disk := opened } : World).disk.LeadsTo path base :=
        (isOpened.extended names_opens).leadsTo leads
      obtain ⟨changed, makes, current, node⟩ := makeDirectory_names opened_leads named clean
        (fun front starts => isOpened.directory starts) last_opens
      exact ⟨changed, steps.trans makes, isOpened.concat current node⟩

end Archetype.Action
