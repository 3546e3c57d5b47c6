import Archetype.Proofs.Paths
import Mathlib.Data.List.Induction

/-!
# Places on a disk without links

Where no link is on the way, a path leads to one place or to none, and the place can be read off the
path: `Disk.placeOf`. What a disk holds only decides whether the place is reached.

* `Sound`: the disks that are reasoned about. They hold no links, everything lies in a directory, and
  places are made of names.
* `locate_eq_ok_iff`: a path reaches its place, and no other, where it runs through directories.
-/

namespace Archetype.Disk

def walk (place : Place) (segments : List String) : Place :=
  segments.foldl (fun place segment =>
    if segment = ".." then place.dropLast
    else if segment = "." then place else place ++ [segment]) place

def start (disk : Disk) (anchor : Anchor) : Place :=
  if anchor = .current then disk.current else []

def placeOf (disk : Disk) (path : Path) : Place :=
  walk (disk.start path.anchor) path.segments

/-- A disk without links, with everything in a directory and under a name. -/
structure Sound (disk : Disk) : Prop where
  linkFree : disk.LinkFree
  wellFormed : disk.WellFormed
  named : ∀ place, disk.node? place ≠ none → ∀ name ∈ place, Path.IsName name
  temporary : ∀ name ∈ disk.temporary, Path.IsName name

def Reachable (disk : Disk) (place : Place) : Prop :=
  disk.node? place = some .directory ∨
    ∃ parent name, place = parent ++ [name] ∧ Path.IsName name ∧
      disk.node? parent = some .directory

def Passes (disk : Disk) : Place → List String → Prop
  | _, [] => True
  | place, segment :: segments =>
    disk.node? place = some .directory ∧ Passes disk (walk place [segment]) segments

/-- The places that a path runs through, its own included. -/
def OnWay (disk : Disk) (path : Path) (place : Place) : Prop :=
  ∃ before, before <+: path.segments ∧ place = disk.placeOf ⟨path.anchor, before⟩

theorem OnWay.of_prefix {disk : Disk} {anchor : Anchor} {before segments : List String}
    {place : Place} (onWay : disk.OnWay ⟨anchor, before⟩ place) (starts : before <+: segments) :
    disk.OnWay ⟨anchor, segments⟩ place := by
  obtain ⟨front, inside, rfl⟩ := onWay
  exact ⟨front, inside.trans starts, rfl⟩

structure Names (text : String) : Prop where
  inner : Path.Inner text
  more : Path.segmentsOf text ≠ []
  noNull : hasNull (Path.segmentsOf text) = false

instance (text : String) : Decidable (Names text) :=
  decidable_of_iff (Path.Inner text ∧ Path.segmentsOf text ≠ [] ∧
      hasNull (Path.segmentsOf text) = false)
    ⟨fun ⟨inner, more, noNull⟩ => ⟨inner, more, noNull⟩,
      fun names => ⟨names.inner, names.more, names.noNull⟩⟩

def Apart (place other : Place) : Prop :=
  ¬ place <+: other ∧ ¬ other <+: place

instance (place other : Place) : Decidable (Apart place other) :=
  inferInstanceAs (Decidable (_ ∧ _))

theorem Apart.symm {place other : Place} (apart : Apart place other) : Apart other place :=
  ⟨apart.2, apart.1⟩

instance : Std.Symm Apart :=
  ⟨fun _ _ => Apart.symm⟩

theorem not_prefix_of_apart {place other inner : Place} (apart : Apart place other)
    (within : place <+: inner) : ¬ other <+: inner := fun too =>
  (List.prefix_or_prefix_of_prefix within too).elim apart.1 apart.2

/-! ## Walking -/

@[simp] theorem walk_nil (place : Place) : walk place [] = place := rfl

theorem walk_append (place : Place) (before after : List String) :
    walk place (before ++ after) = walk (walk place before) after :=
  List.foldl_append

theorem walk_cons (place : Place) (segment : String) (segments : List String) :
    walk place (segment :: segments) = walk (walk place [segment]) segments := rfl

theorem walk_name {name : String} (climbs : name ≠ "..") (stays : name ≠ ".") (place : Place) :
    walk place [name] = place ++ [name] := by
  simp [walk, climbs, stays]

theorem walk_of_inner {segments : List String} (proper : ∀ segment ∈ segments, Path.IsSegment segment)
    (inner : ".." ∉ segments) (place : Place) : walk place segments = place ++ segments := by
  induction segments generalizing place with
  | nil => simp
  | cons segment segments ih =>
      obtain ⟨apart, inner⟩ := not_or.1 (mt List.mem_cons.2 inner)
      have first := proper segment List.mem_cons_self
      rw [walk_cons, walk_name (Ne.symm apart) first.2.1,
        ih (fun other member => proper other (List.mem_cons_of_mem _ member)) inner]
      simp

theorem walk_dot (place : Place) : walk place ["."] = place := by
  simp [walk]

theorem walk_names {names : List String} (named : ∀ name ∈ names, Path.IsName name)
    (place : Place) : walk place names = place ++ names :=
  walk_of_inner (fun name member => (named name member).1)
    (fun member => (named ".." member).2 rfl) place

theorem passes_append {disk : Disk} {place : Place} {before after : List String} :
    disk.Passes place (before ++ after) ↔
      disk.Passes place before ∧ disk.Passes (walk place before) after := by
  induction before generalizing place with
  | nil => simp [Passes]
  | cons segment segments ih =>
      rw [List.cons_append, Passes, Passes, ih, and_assoc, ← walk_cons]

theorem passes_of_directories {disk : Disk} {place : Place} {segments : List String}
    (directories : ∀ before, before <+: segments → before ≠ segments →
      disk.node? (walk place before) = some .directory) : disk.Passes place segments := by
  induction segments generalizing place with
  | nil => trivial
  | cons segment segments ih =>
      refine ⟨directories [] List.nil_prefix (by simp), ih fun before starts apart => ?_⟩
      exact directories (segment :: before) ((List.prefix_cons_inj segment).2 starts)
        fun same => apart (List.cons.inj same).2

theorem directory_of_passes {disk : Disk} {place : Place} {segments before : List String}
    (passes : disk.Passes place segments) (starts : before <+: segments)
    (apart : before ≠ segments) : disk.node? (walk place before) = some .directory := by
  obtain ⟨rest, rfl⟩ := starts
  have more : rest ≠ [] := fun empty => apart (by simp [empty])
  obtain ⟨segment, others, rfl⟩ := List.exists_cons_of_ne_nil more
  exact (passes_append.1 passes).2.1

theorem hasNull_of_subset {segments others : List String} (subset : others ⊆ segments)
    (noNull : hasNull segments = false) : hasNull others = false := by
  simp only [hasNull, List.any_eq_false] at noNull ⊢
  exact fun segment member => noNull segment (subset member)

theorem hasNull_append {before after : List String} (before_clean : hasNull before = false)
    (after_clean : hasNull after = false) : hasNull (before ++ after) = false := by
  rw [hasNull, List.any_append, ← hasNull, ← hasNull, before_clean, after_clean]
  rfl

theorem start_congr {disk other : Disk} (current : other.current = disk.current)
    (anchor : Anchor) : other.start anchor = disk.start anchor := by
  rw [start, start, current]

theorem placeOf_congr {disk other : Disk} (current : other.current = disk.current)
    (path : Path) : other.placeOf path = disk.placeOf path := by
  rw [placeOf, placeOf, start_congr current]

theorem onWay_congr {disk other : Disk} (current : other.current = disk.current)
    {path : Path} {place : Place} : other.OnWay path place ↔ disk.OnWay path place := by
  simp only [OnWay, placeOf_congr current]

theorem placeOf_append (disk : Disk) (base : Path) (rest : List String) :
    disk.placeOf ⟨base.anchor, base.segments ++ rest⟩ = walk (disk.placeOf base) rest :=
  walk_append _ _ _

theorem onWay_append_iff {disk : Disk} {base : Path} {rest : List String} {place : Place} :
    disk.OnWay ⟨base.anchor, base.segments ++ rest⟩ place ↔
      disk.OnWay base place ∨ ∃ front, front <+: rest ∧ place = walk (disk.placeOf base) front := by
  constructor
  · rintro ⟨before, starts, rfl⟩
    rcases List.prefix_or_prefix_of_prefix starts (List.prefix_append _ _) with within | ⟨front, rfl⟩
    · exact Or.inl ⟨before, within, rfl⟩
    · exact Or.inr ⟨front, (List.prefix_append_right_inj _).1 starts, disk.placeOf_append base front⟩
  · rintro (⟨before, starts, rfl⟩ | ⟨front, starts, rfl⟩)
    · exact ⟨before, starts.trans (List.prefix_append _ _), rfl⟩
    · exact ⟨base.segments ++ front, (List.prefix_append_right_inj _).2 starts,
        (disk.placeOf_append base front).symm⟩

theorem placeOf_join_of_current (disk : Disk) (base : Path) {addition : Path}
    (relative : addition.anchor = .current) :
    disk.placeOf (base.join addition) = walk (disk.placeOf base) addition.segments := by
  rw [Path.join_of_current base relative, placeOf_append]

theorem placeOf_div (disk : Disk) (base : Path) {text : String} (inner : Path.Inner text) :
    disk.placeOf (base / text) = disk.placeOf base ++ Path.segmentsOf text := by
  rw [Path.div_of_inner base inner, placeOf_append]
  exact walk_of_inner (fun _ member => Path.mem_segmentsOf member) inner.2 _

theorem walk_div {text : String} (inner : Path.Inner text) {front : List String}
    (starts : front <+: Path.segmentsOf text) (place : Place) : walk place front = place ++ front :=
  walk_of_inner (fun _ member => Path.mem_segmentsOf (starts.subset member))
    (fun climbs => inner.2 (starts.subset climbs)) place

theorem onWay_div_iff {disk : Disk} {base : Path} {text : String} (inner : Path.Inner text)
    {place : Place} :
    disk.OnWay (base / text) place ↔ disk.OnWay base place ∨
      ∃ front, front <+: Path.segmentsOf text ∧ place = disk.placeOf base ++ front := by
  rw [Path.div_of_inner base inner, onWay_append_iff]
  refine or_congr_right (exists_congr fun front => and_congr_right fun starts => ?_)
  rw [walk_div inner starts]

theorem placeOf_fromRoot (disk : Disk) {place : Place}
    (named : ∀ name ∈ place, Path.IsName name) : disk.placeOf (.fromRoot place) = place :=
  walk_names named []

theorem onWay_fromRoot {disk : Disk} {names : List String}
    (named : ∀ name ∈ names, Path.IsName name) {place : Place}
    (onWay : disk.OnWay (.fromRoot names) place) : place <+: names := by
  obtain ⟨before, starts, rfl⟩ := onWay
  have led : disk.placeOf ⟨.root, before⟩ = before :=
    disk.placeOf_fromRoot fun name member => named name (starts.subset member)
  rw [Path.fromRoot, led]
  exact starts

theorem prefix_of_onWay {disk : Disk} {path : Path} (written : path.IsWritten)
    (inner : ".." ∉ path.segments) {place : Place} (onWay : disk.OnWay path place) :
    place <+: disk.placeOf path := by
  obtain ⟨before, starts, rfl⟩ := onWay
  have led : disk.placeOf ⟨path.anchor, before⟩ = disk.start path.anchor ++ before :=
    walk_of_inner (fun segment member => written segment (starts.subset member))
      (fun climbs => inner (starts.subset climbs)) _
  have whole : disk.placeOf path = disk.start path.anchor ++ path.segments :=
    walk_of_inner written inner _
  rw [led, whole]
  exact (List.prefix_append_right_inj _).2 starts

theorem isFile_iff {disk : Disk} {path : Path} :
    disk.isFile path = true ↔
      ∃ content executable, disk.find? path = some (.file content executable) := by
  unfold isFile
  split
  · rename_i content executable found
    simp [found]
  · rename_i other
    refine iff_of_false Bool.false_ne_true ?_
    rintro ⟨content, executable, found⟩
    exact other content executable found

section Located

variable {disk : Disk} {follow : Bool} {anchor : Anchor} {segments : List String}
  (noNull : hasNull segments = false)

include noNull

theorem locateFrom_of_directory (begins : disk.node? (disk.start anchor) = some .directory) :
    disk.locateFrom follow anchor segments =
      disk.descendLinks follow maximumLinks (disk.start anchor) segments := by
  rw [start] at begins ⊢
  simp only [locateFrom, noNull, Bool.false_eq_true, ↓reduceIte, begins]

theorem locateFrom_of_blocked (blocked : disk.node? (disk.start anchor) ≠ some .directory) :
    disk.locateFrom follow anchor segments = .error (.code .missing) := by
  rw [start] at blocked
  rw [locateFrom, if_neg (by simp [noNull])]
  generalize (if anchor = .current then disk.current else []) = place at blocked ⊢
  dsimp only
  split
  · rename_i directory
    exact absurd directory blocked
  · rfl

end Located

/-! ## Well-formed disks -/

section WellFormed

variable {disk : Disk} (wellFormed : disk.WellFormed)

include wellFormed

theorem WellFormed.directory_of_concat {place : Place} {name : String}
    (held : disk.node? (place ++ [name]) ≠ none) : disk.node? place = some .directory := by
  rw [node?_of_ne_root disk (by simp)] at held
  exact wellFormed place name held

theorem WellFormed.directory_dropLast {place : Place} (held : disk.node? place ≠ none) :
    disk.node? place.dropLast = some .directory := by
  rcases List.eq_nil_or_concat' place with rfl | ⟨others, name, rfl⟩
  · simp
  · rw [List.dropLast_concat]
    exact wellFormed.directory_of_concat held

theorem WellFormed.none_of_append {place : Place} (absent : disk.node? place = none)
    (rest : Place) : disk.node? (place ++ rest) = none := by
  induction rest using List.reverseRecOn with
  | nil => rwa [List.append_nil]
  | append_singleton rest name ih =>
      by_contra held
      rw [← List.append_assoc] at held
      rw [wellFormed.directory_of_concat held] at ih
      cases ih

theorem WellFormed.none_of_prefix {place inner : Place} (absent : disk.node? place = none)
    (within : place <+: inner) : disk.node? inner = none := by
  obtain ⟨rest, rfl⟩ := within
  exact wellFormed.none_of_append absent rest

end WellFormed

/-! ## Sound disks -/

def holding (nodes : List (Place × Node)) (current temporary : Place) : Disk :=
  ⟨.ofList nodes, current, temporary⟩

def Lists (disk : Disk) (place : Place) (node : Node) : Prop :=
  place ≠ [] ∧ (node matches .link _) = false ∧ (∀ name ∈ place, Path.IsName name) ∧
    disk.node? place.dropLast = some .directory

instance (disk : Disk) (place : Place) (node : Node) : Decidable (disk.Lists place node) :=
  inferInstanceAs (Decidable (_ ∧ _ ∧ _ ∧ _))

theorem sound_of_lists {disk : Disk} (lists : ∀ entry ∈ disk.nodes.toList, disk.Lists entry.1 entry.2)
    (temporary : ∀ name ∈ disk.temporary, Path.IsName name) : disk.Sound := by
  have listed : ∀ {place node}, disk.nodes[place]? = some node → disk.Lists place node :=
    fun held => lists _ (Std.ExtTreeMap.mem_toList_iff_getElem?_eq_some.2 held)
  refine ⟨fun place target held => ?_, fun place name held => ?_, fun place held => ?_, temporary⟩
  · by_cases root : place = []
    · simp [root] at held
    · rw [node?_of_ne_root disk root] at held
      simpa using (listed held).2.1
  · obtain ⟨node, there⟩ := Option.ne_none_iff_exists'.1 held
    simpa using (listed there).2.2.2
  · by_cases root : place = []
    · simp [root]
    · rw [node?_of_ne_root disk root] at held
      obtain ⟨node, there⟩ := Option.ne_none_iff_exists'.1 held
      exact (listed there).2.2.1

section Sound

variable {disk : Disk} (sound : disk.Sound)

include sound

theorem Sound.directory_of_concat {place : Place} {name : String}
    (held : disk.node? (place ++ [name]) ≠ none) : disk.node? place = some .directory :=
  sound.wellFormed.directory_of_concat held

theorem Sound.directory_of_append {place rest : Place} (more : rest ≠ [])
    (held : disk.node? (place ++ rest) ≠ none) : disk.node? place = some .directory := by
  induction rest using List.reverseRecOn with
  | nil => exact absurd rfl more
  | append_singleton rest name ih =>
      rw [← List.append_assoc] at held
      have directory := sound.directory_of_concat held
      by_cases last : rest = []
      · rwa [last, List.append_nil] at directory
      · exact ih last (by simp [directory])

theorem Sound.directory_dropLast {place : Place} (held : disk.node? place ≠ none) :
    disk.node? place.dropLast = some .directory :=
  sound.wellFormed.directory_dropLast held

theorem Sound.none_of_append {place rest : Place} (more : rest ≠ [])
    (blocked : disk.node? place ≠ some .directory) : disk.node? (place ++ rest) = none := by
  by_contra held
  exact blocked (sound.directory_of_append more held)

theorem Sound.directory_walk {place : Place} {segment : String}
    (here : disk.node? place = some .directory) (known : segment = "." ∨ segment = "..") :
    disk.node? (walk place [segment]) = some .directory := by
  rcases known with rfl | rfl
  · exact here
  · exact sound.directory_dropLast (by simp [here])

theorem Sound.descend_eq_ok_iff {follow : Bool}
    {onLink : Place → String → List String → Except Refusal Place} {segments : List String}
    {place reached : Place} (here : disk.node? place = some .directory) :
    disk.descend follow onLink place segments = .ok reached ↔
      reached = walk place segments ∧ disk.Passes place segments := by
  induction segments generalizing place with
  | nil =>
      change Except.ok place = .ok reached ↔ reached = place ∧ True
      simp [eq_comm]
  | cons segment segments ih =>
      rw [walk_cons]
      by_cases known : segment = "." ∨ segment = ".."
      · have next := sound.directory_walk here known
        have step : disk.descend follow onLink place (segment :: segments) =
            disk.descend follow onLink (walk place [segment]) segments := by
          rcases known with rfl | rfl <;> rfl
        rw [step, ih next]
        simp [Passes, here]
      · obtain ⟨stays, climbs⟩ := not_or.1 known
        -- what is no directory can only be the last thing reached
        have ended : ∀ error : ErrorCode, disk.node? (place ++ [segment]) ≠ some .directory →
            ((if segments.isEmpty then .ok (place ++ [segment])
              else .error (.code error) : Except Refusal Place) = .ok reached ↔
                reached = walk (place ++ [segment]) segments ∧
                  disk.Passes place (segment :: segments)) := by
          intro error blocked
          cases segments with
          | nil => simp [Passes, here, eq_comm]
          | cons next others => simp [Passes, walk_name climbs stays, blocked]
        rw [walk_name climbs stays, descend]
        · split
          · rename_i absent
            exact ended _ (by simp [absent])
          · rename_i directory
            rw [ih directory]
            simp [Passes, here, walk_name climbs stays]
          · rename_i file
            exact ended _ (by simp [file])
          · rename_i target link
            exact absurd link (sound.linkFree _ target)
        · exact stays
        · exact climbs

theorem Sound.passes_or_missing {follow : Bool}
    {onLink : Place → String → List String → Except Refusal Place} {segments : List String}
    {place : Place} (here : disk.node? place = some .directory)
    (way : ∀ before, before <+: segments →
      disk.node? (walk place before) = some .directory ∨ disk.node? (walk place before) = none) :
    disk.Passes place segments ∨
      disk.descend follow onLink place segments = .error (.code .missing) := by
  induction segments generalizing place with
  | nil => exact Or.inl trivial
  | cons segment segments ih =>
      have later : ∀ before, before <+: segments →
          disk.node? (walk (walk place [segment]) before) = some .directory ∨
            disk.node? (walk (walk place [segment]) before) = none := fun before starts =>
        way (segment :: before) ((List.prefix_cons_inj segment).2 starts)
      by_cases known : segment = "." ∨ segment = ".."
      · have next := sound.directory_walk here known
        have step : disk.descend follow onLink place (segment :: segments) =
            disk.descend follow onLink (walk place [segment]) segments := by
          rcases known with rfl | rfl <;> rfl
        rw [step]
        exact (ih next later).imp_left fun passes => ⟨here, passes⟩
      · obtain ⟨stays, climbs⟩ := not_or.1 known
        have next := way [segment] (by simp)
        rw [walk_name climbs stays] at next later
        rw [descend]
        · rcases next with directory | absent
          · rw [directory]
            refine (ih directory later).imp_left fun passes => ⟨here, ?_⟩
            rwa [walk_name climbs stays]
          · rw [absent]
            cases segments with
            | nil => exact Or.inl ⟨here, trivial⟩
            | cons other others => exact Or.inr rfl
        · exact stays
        · exact climbs

theorem Sound.reachable_walk {segments : List String}
    (proper : ∀ segment ∈ segments, segment = "." ∨ Path.IsSegment segment) {place : Place}
    (here : disk.node? place = some .directory) (passes : disk.Passes place segments) :
    disk.Reachable (walk place segments) := by
  induction segments generalizing place with
  | nil => exact Or.inl here
  | cons segment segments ih =>
      have later := fun other member => proper other (List.mem_cons_of_mem segment member)
      have next : disk.Reachable (walk place [segment]) := by
        by_cases known : segment = "." ∨ segment = ".."
        · exact Or.inl (sound.directory_walk here known)
        · obtain ⟨stays, climbs⟩ := not_or.1 known
          have isSegment := (proper segment List.mem_cons_self).resolve_left stays
          exact Or.inr ⟨place, segment, walk_name climbs stays place, ⟨isSegment, climbs⟩, here⟩
      cases segments with
      | nil => exact next
      | cons other others => exact ih later passes.2.1 passes.2

theorem Sound.locateFrom_eq_ok_iff {follow : Bool} {anchor : Anchor} {segments : List String}
    {reached : Place} :
    disk.locateFrom follow anchor segments = .ok reached ↔
      hasNull segments = false ∧ disk.node? (disk.start anchor) = some .directory ∧
        disk.Passes (disk.start anchor) segments ∧
          reached = walk (disk.start anchor) segments := by
  cases null : hasNull segments with
  | true =>
      rw [locateFrom, null]
      simp
  | false =>
      by_cases directory : disk.node? (disk.start anchor) = some .directory
      · rw [locateFrom_of_directory null directory]
        refine (sound.descend_eq_ok_iff directory).trans ?_
        simp [directory, and_comm]
      · rw [locateFrom_of_blocked null directory]
        exact iff_of_false (by simp) fun reaches => directory reaches.2.1

theorem Sound.locate_eq_ok_iff {follow : Bool} {path : Path} {reached : Place} :
    disk.locate follow path = .ok reached ↔
      hasNull path.segments = false ∧ disk.node? (disk.start path.anchor) = some .directory ∧
        disk.Passes (disk.start path.anchor) path.segments ∧ reached = disk.placeOf path :=
  sound.locateFrom_eq_ok_iff

theorem Sound.locate_or_missing {path : Path} (noNull : hasNull path.segments = false)
    (begins : disk.node? (disk.start path.anchor) = some .directory)
    (way : ∀ place, disk.OnWay path place →
      disk.node? place = some .directory ∨ disk.node? place = none) (follow : Bool) :
    disk.Passes (disk.start path.anchor) path.segments ∨
      disk.locate follow path = .error (.code .missing) := by
  rw [locate, locateFrom_of_directory noNull begins]
  exact sound.passes_or_missing begins fun before starts => way _ ⟨before, starts, rfl⟩

theorem Sound.locate_cases {follow : Bool} {path : Path} (written : path.IsWritten)
    {reached : Place} (reaches : disk.locate follow path = .ok reached) :
    reached = disk.placeOf path ∧ disk.Reachable reached := by
  obtain ⟨-, begins, passes, rfl⟩ := sound.locate_eq_ok_iff.1 reaches
  exact ⟨rfl, sound.reachable_walk (fun segment member => Or.inr (written segment member)) begins
    passes⟩

theorem Sound.find?_eq_some_iff {path : Path} {node : Node} :
    disk.find? path = some node ↔
      hasNull path.segments = false ∧ disk.node? (disk.start path.anchor) = some .directory ∧
        disk.Passes (disk.start path.anchor) path.segments ∧
          disk.node? (disk.placeOf path) = some node := by
  unfold find?
  constructor
  · intro found
    cases located : disk.locate true path with
    | error refused => simp [located] at found
    | ok place =>
        obtain ⟨noNull, begins, passes, rfl⟩ := sound.locate_eq_ok_iff.1 located
        simp only [located] at found
        exact ⟨noNull, begins, passes, found⟩
  · rintro ⟨noNull, begins, passes, held⟩
    rw [sound.locate_eq_ok_iff.2 ⟨noNull, begins, passes, rfl⟩]
    exact held

theorem Sound.isDirectory_iff {path : Path} :
    disk.isDirectory path = true ↔
      hasNull path.segments = false ∧ disk.node? (disk.start path.anchor) = some .directory ∧
        disk.Passes (disk.start path.anchor) path.segments ∧
          disk.node? (disk.placeOf path) = some .directory := by
  rw [isDirectory, beq_iff_eq, sound.find?_eq_some_iff]

theorem Sound.directory_of_onWay {path : Path} (directory : disk.isDirectory path = true)
    {place : Place} (onWay : disk.OnWay path place) : disk.node? place = some .directory := by
  obtain ⟨-, -, passes, here⟩ := sound.isDirectory_iff.1 directory
  obtain ⟨before, starts, rfl⟩ := onWay
  by_cases whole : before = path.segments
  · subst whole
    exact here
  · exact directory_of_passes passes starts whole

theorem Sound.find?_join_iff {source : Path} (directory : disk.isDirectory source = true)
    {relative : List String} (named : ∀ name ∈ relative, Path.IsName name) {node : Node} :
    disk.find? (source.join ⟨.current, relative⟩) = some node ↔
      hasNull relative = false ∧ disk.node? (disk.placeOf source ++ relative) = some node := by
  obtain ⟨noNull, begins, passes, here⟩ := sound.isDirectory_iff.1 directory
  have place : disk.placeOf (source.join ⟨.current, relative⟩) = disk.placeOf source ++ relative := by
    rw [placeOf_join_of_current disk source rfl]
    exact walk_names named _
  have segments : source.join ⟨.current, relative⟩ = ⟨source.anchor, source.segments ++ relative⟩ :=
    Path.join_of_current source rfl
  rw [sound.find?_eq_some_iff, place, segments]
  have null : hasNull (source.segments ++ relative) = hasNull relative := by
    rw [hasNull, List.any_append, ← hasNull, ← hasNull, noNull, Bool.false_or]
  rw [null]
  refine ⟨fun found => ⟨found.1, found.2.2.2⟩, fun ⟨clean, held⟩ => ⟨clean, begins, ?_, held⟩⟩
  refine passes_append.2 ⟨passes, passes_of_directories fun front starts apart => ?_⟩
  obtain ⟨rest, rfl⟩ := starts
  have more : rest ≠ [] := fun empty => apart (by simp [empty])
  change disk.node? (walk (disk.placeOf source) front) = some .directory
  rw [walk_names fun name member => named name (List.mem_append_left _ member)]
  exact sound.directory_of_append more (by rw [List.append_assoc, held]; simp)

theorem Sound.find?_fromRoot_iff {place : Place} (named : ∀ name ∈ place, Path.IsName name)
    {node : Node} :
    disk.find? (.fromRoot place) = some node ↔
      hasNull place = false ∧ disk.node? place = some node := by
  have root : disk.isDirectory (.fromRoot []) = true :=
    sound.isDirectory_iff.2 ⟨rfl, disk.node?_root, trivial, disk.node?_root⟩
  exact sound.find?_join_iff root named

theorem Sound.find?_fromRoot {place : Place} {node : Node} (held : disk.node? place = some node)
    (noNull : hasNull place = false) : disk.find? (.fromRoot place) = some node :=
  (sound.find?_fromRoot_iff (sound.named place (by rw [held]; exact nofun))).2 ⟨noNull, held⟩

theorem Sound.isDirectory_fromRoot {place : Place} (directory : disk.node? place = some .directory)
    (noNull : hasNull place = false) : disk.isDirectory (.fromRoot place) = true := by
  rw [isDirectory, beq_iff_eq, sound.find?_fromRoot directory noNull]

theorem Sound.find?_cases {path : Path} {node : Node} (found : disk.find? path = some node) :
    disk.node? (disk.placeOf path) = some node ∧
      disk.node? (disk.start path.anchor) = some .directory ∧
        disk.Passes (disk.start path.anchor) path.segments := by
  obtain ⟨-, begins, passes, held⟩ := sound.find?_eq_some_iff.1 found
  exact ⟨held, begins, passes⟩

theorem Sound.exists_name_of_isFile {path : Path} (written : path.IsWritten)
    (file : disk.isFile path = true) :
    ∃ others name, path.segments = others ++ [name] ∧ Path.IsName name := by
  obtain ⟨content, executable, found⟩ := isFile_iff.1 file
  obtain ⟨holds, begins, passes⟩ := sound.find?_cases found
  rcases List.eq_nil_or_concat' path.segments with empty | ⟨others, name, last⟩
  · rw [placeOf, empty, walk_nil, begins] at holds
    cases holds
  · refine ⟨others, name, last, written name (by simp [last]), ?_⟩
    rintro rfl
    rw [last, passes_append] at passes
    have climbed := sound.directory_walk passes.2.1 (Or.inr rfl)
    rw [placeOf, last, walk_append, climbed] at holds
    cases holds

end Sound

end Archetype.Disk
