import Archetype.Proofs.Rendering
import Archetype.Proofs.Renames

namespace Archetype.Template.Entry

open Archetype.Action Archetype.Disk Archetype.Copier

def opened (entry : Entry) : String :=
  match entry.delimiters? with
  | some (opened, closed) =>
    if opened.isEmpty || closed.isEmpty then Placeholder.opening else opened
  | none => Placeholder.opening

def arrival (entry : Entry) (replacements : Replacements) (relative : List String) : String :=
  relativeText (effective (entry.contentReplacements replacements)) relative

def Unmarked (entry : Entry) (segments : List String) : Prop :=
  entry.raw = false → ∀ segment ∈ segments, Placeholder.Unmarked entry.opened segment

instance (entry : Entry) (segments : List String) : Decidable (entry.Unmarked segments) :=
  inferInstanceAs (Decidable (_ → ∀ _ ∈ _, _))

section Arrival

variable {entry : Entry} {replacements : Replacements}

theorem starts_of_contentReplacements
    (spelled : ∀ pair ∈ replacements.entries, ∃ name, pair.1 = Placeholder.spell name)
    {given : Replacements} (inForce : effective (entry.contentReplacements replacements) = some given) :
    entry.raw = false ∧ entry.opened ≠ "" ∧
      ∀ pair ∈ given.entries, entry.opened.toList <+: pair.1.toList := by
  have content := (Option.filter_eq_some_iff.1 inForce).1
  have tokens : ∀ pair ∈ replacements.entries, ∃ name,
      pair.1 = Placeholder.between Placeholder.opening Placeholder.closing name := spelled
  obtain ⟨named, entries_eq⟩ := Placeholder.exists_entriesOf tokens
  have starts : ∀ opened closed, ∀ pair ∈ Placeholder.entriesOf opened closed named,
      opened.toList <+: pair.1.toList := by
    intro opened closed pair member
    obtain ⟨entry, -, rfl⟩ := List.mem_map.1 member
    simp [Placeholder.between]
  have usual : Placeholder.opening ≠ "" := by decide
  unfold contentReplacements at content
  unfold opened
  cases raw : entry.raw with
  | true => simp [raw] at content
  | false =>
      simp only [raw, Bool.false_eq_true, ↓reduceIte] at content
      refine ⟨rfl, ?_⟩
      cases delimiters : entry.delimiters? with
      | none =>
          simp only [delimiters, Option.some_inj] at content
          subst content
          rw [entries_eq]
          exact ⟨usual, starts _ _⟩
      | some pair =>
          obtain ⟨opened, closed⟩ := pair
          simp only [delimiters] at content
          dsimp only
          split at content
          · rename_i empty
            cases content
            rw [if_pos empty, entries_eq]
            exact ⟨usual, starts _ _⟩
          · rename_i given
            cases content
            rw [if_neg given, Replacements.entries_withDelimiters entries_eq]
            refine ⟨?_, starts _ _⟩
            rintro rfl
            simp at given

variable (spelled : ∀ pair ∈ replacements.entries, ∃ name, pair.1 = Placeholder.spell name)
  (slash : entry.raw = false → '/' ∉ entry.opened.toList)

include spelled slash

theorem arrival_append {front relative : List String} (unmarked : entry.Unmarked front)
    (front_more : front ≠ []) (more : relative ≠ []) :
    entry.arrival replacements (front ++ relative) =
      "/".intercalate front ++ "/" ++ entry.arrival replacements relative := by
  unfold arrival
  cases inForce : effective (entry.contentReplacements replacements) with
  | none => exact String.intercalate_append_of_ne_nil front_more more
  | some given =>
      obtain ⟨rendered, hasOpened, starts⟩ := starts_of_contentReplacements spelled inForce
      unfold relativeText
      rw [String.intercalate_append_of_ne_nil front_more more]
      refine Replacements.apply_append_of_unmarked hasOpened starts ?_ _
      intro character member
      rw [String.toList_append] at member
      rcases List.mem_append.1 member with inside | here
      · rcases Path.mem_intercalate inside with rfl | ⟨segment, listed, found⟩
        · exact slash rendered
        · exact unmarked rendered segment listed character found
      · have same : character = '/' := by simpa using here
        rw [same]
        exact slash rendered

theorem arrival_of_unmarked {relative : List String} (unmarked : entry.Unmarked relative) :
    entry.arrival replacements relative = "/".intercalate relative := by
  unfold arrival
  cases inForce : effective (entry.contentReplacements replacements) with
  | none => rfl
  | some given =>
      obtain ⟨rendered, hasOpened, starts⟩ := starts_of_contentReplacements spelled inForce
      refine Replacements.apply_of_unmarked hasOpened starts ?_
      intro character member
      rcases Path.mem_intercalate member with rfl | ⟨segment, listed, found⟩
      · exact slash rendered
      · exact unmarked rendered segment listed character found

omit slash in
theorem arrival_of_unopened {relative : List String}
    (unopened : entry.raw = false → ¬ entry.opened.toList <:+: ("/".intercalate relative).toList) :
    entry.arrival replacements relative = "/".intercalate relative := by
  unfold arrival
  cases inForce : effective (entry.contentReplacements replacements) with
  | none => rfl
  | some given =>
      obtain ⟨rendered, -, starts⟩ := starts_of_contentReplacements spelled inForce
      exact Replacements.apply_of_unopened starts (unopened rendered)

section Front

variable {front relative : List String} (named : ∀ name ∈ front, Path.IsName name)
  (unmarked : entry.Unmarked front) (more : relative ≠ [])

include named unmarked more

theorem inner_arrival (inner : Path.Inner (entry.arrival replacements relative)) :
    Path.Inner (entry.arrival replacements (front ++ relative)) ∧
      Path.segmentsOf (entry.arrival replacements (front ++ relative)) =
        front ++ Path.segmentsOf (entry.arrival replacements relative) := by
  by_cases front_more : front = []
  · subst front_more
    exact ⟨inner, rfl⟩
  · rw [arrival_append spelled slash unmarked front_more more]
    refine ⟨Path.inner_append front_more named inner.2, ?_⟩
    rw [Path.segmentsOf_append,
      Path.segmentsOf_intercalate fun name member => (named name member).1]

theorem names_arrival (noNull : hasNull front = false)
    (names : Names (entry.arrival replacements relative)) :
    Names (entry.arrival replacements (front ++ relative)) ∧
      Path.segmentsOf (entry.arrival replacements (front ++ relative)) =
        front ++ Path.segmentsOf (entry.arrival replacements relative) := by
  obtain ⟨inner, segments⟩ := inner_arrival spelled slash named unmarked more names.inner
  refine ⟨⟨inner, ?_, ?_⟩, segments⟩ <;> rw [segments]
  · simp [names.more]
  · exact hasNull_append noNull names.noNull

end Front

end Arrival

structure Carries (entry : Entry) (replacements : Replacements) (disk : Disk) (base front : Place)
    (files : Place → Option Content) : Prop where
  named : ∀ name ∈ base ++ front, Path.IsName name
  noNull : hasNull (base ++ front) = false
  unmarked : entry.Unmarked front
  directory : disk.node? base = some .directory
  held : ∀ rest content, disk.contentAt (base ++ rest) = some content ↔
    ∃ relative, rest = front ++ relative ∧ files relative = some content
  names : ∀ relative, files relative ≠ none →
    relative ≠ [] ∧ Names (entry.arrival replacements relative)
  fit : ∀ relative other, files relative ≠ none → files other ≠ none →
    ¬ Below (Path.segmentsOf (entry.arrival replacements relative))
      (Path.segmentsOf (entry.arrival replacements other))

section Carries

variable {entry : Entry} {replacements : Replacements} {disk : Disk} {base front : Place}
  {files : Place → Option Content} (carries : entry.Carries replacements disk base front files)

include carries

theorem Carries.named_base : ∀ name ∈ base, Path.IsName name := fun name member =>
  carries.named name (List.mem_append_left _ member)

theorem Carries.placeOf_base : disk.placeOf (.fromRoot base) = base :=
  disk.placeOf_fromRoot carries.named_base

theorem Carries.noNull_front : hasNull front = false :=
  hasNull_of_subset (List.subset_append_right base front) carries.noNull

theorem Carries.isDirectory (sound : disk.Sound) : disk.isDirectory (.fromRoot base) = true :=
  sound.isDirectory_fromRoot carries.directory
    (hasNull_of_subset (List.subset_append_left base front) carries.noNull)

theorem Carries.stands (sound : disk.Sound) {target : Path}
    (apart : Apart (disk.placeOf target) base) :
    Stands disk target (.fromRoot base) (listing disk (.fromRoot base)) := by
  refine ⟨carries.isDirectory sound, ?_,
    fun _ listed _ member => isName_of_mem_listing sound listed member, ?_⟩
  · intro place way within
    exact apart.1 (within.trans (onWay_fromRoot carries.named_base way))
  · intro relative _
    rw [carries.placeOf_base]
    exact Or.inl (not_prefix_of_apart apart.symm (List.prefix_append _ _))

variable (spelled : ∀ pair ∈ replacements.entries, ∃ name, pair.1 = Placeholder.spell name)
  (slash : entry.raw = false → '/' ∉ entry.opened.toList) {copier : Copier}

include spelled slash

theorem Carries.arrives {rest : Place} {content : Content}
    (takes : copier.takes disk (.fromRoot base) rest = some content) :
    ∃ relative, rest = front ++ relative ∧ files relative = some content ∧
      Names (entry.arrival replacements rest) ∧ Path.segmentsOf (entry.arrival replacements rest) =
        front ++ Path.segmentsOf (entry.arrival replacements relative) := by
  have file := (takes_eq_some_iff.1 takes).2.2
  rw [carries.placeOf_base, ← contentAt_eq_some_iff] at file
  obtain ⟨relative, rfl, listed⟩ := (carries.held rest content).1 file
  obtain ⟨more, names⟩ := carries.names relative (by simp [listed])
  exact ⟨relative, rfl, listed, names_arrival spelled slash
    (fun name member => carries.named name (List.mem_append_right _ member)) carries.unmarked more
    carries.noNull_front names⟩

variable (sound : disk.Sound)

include sound

theorem Carries.fits :
    Fits (copier.writes disk (.fromRoot base) (effective (entry.contentReplacements replacements))
      (listing disk (.fromRoot base))) (fun _ => none) fun _ => False := by
  have there := carries.isDirectory sound
  refine ⟨fun _ _ _ _ => rfl, fun _ _ => id, fun write member other inside below => ?_⟩
  obtain ⟨rest, content, takes, rfl⟩ := (mem_writes_iff sound there).1 member
  obtain ⟨other_rest, other_content, other_takes, rfl⟩ := (mem_writes_iff sound there).1 inside
  obtain ⟨relative, -, listed, -, segments⟩ := carries.arrives spelled slash takes
  obtain ⟨other, -, other_listed, -, other_segments⟩ := carries.arrives spelled slash other_takes
  change Below (Path.segmentsOf (entry.arrival replacements rest))
    (Path.segmentsOf (entry.arrival replacements other_rest)) at below
  rw [segments, other_segments] at below
  refine carries.fit relative other (by simp [listed]) (by simp [other_listed]) ⟨?_, fun same => ?_⟩
  · exact (List.prefix_append_right_inj _).1 below.1
  · exact below.2 (congrArg (front ++ ·) same)

theorem Carries.overlay_of_alone {relative : Place} {content : Content}
    (listed : files relative = some content) (kept : copier.isIgnored (front ++ relative) = false)
    (clean : hasNull relative = false)
    (alone : ∀ other, files other ≠ none → Path.segmentsOf (entry.arrival replacements other) =
      Path.segmentsOf (entry.arrival replacements relative) → other = relative) :
    overlay (fun _ => none) (copier.writes disk (.fromRoot base)
        (effective (entry.contentReplacements replacements)) (listing disk (.fromRoot base)))
        (front ++ Path.segmentsOf (entry.arrival replacements relative)) =
      some (copier.delivered (effective (entry.contentReplacements replacements))
        ((Path.fromRoot base).join ⟨.current, front ++ relative⟩) content) := by
  have there := carries.isDirectory sound
  have file : copier.takes disk (.fromRoot base) (front ++ relative) = some content := by
    refine takes_eq_some_iff.2 ⟨kept, hasNull_append carries.noNull_front clean, ?_⟩
    rw [carries.placeOf_base, ← contentAt_eq_some_iff]
    exact (carries.held _ _).2 ⟨relative, rfl, listed⟩
  obtain ⟨_, same, -, -, segments⟩ := carries.arrives spelled slash file
  obtain rfl := List.append_cancel_left same
  refine overlay_of_mem ((mem_writes_iff sound there).2 ⟨front ++ relative, content, file, ?_⟩) ?_ _
  · rw [← segments]
    rfl
  · intro write member landed
    obtain ⟨rest, other_content, takes, rfl⟩ := (mem_writes_iff sound there).1 member
    obtain ⟨other, rfl, other_listed, -, other_segments⟩ := carries.arrives spelled slash takes
    have shared := List.append_cancel_left (other_segments.symm.trans landed)
    obtain rfl := alone other (by simp [other_listed]) shared
    rw [listed] at other_listed
    cases other_listed
    rfl

theorem Carries.overlay_of_nowhere {place : Place}
    (nowhere : ∀ relative, files relative ≠ none →
      Path.segmentsOf (entry.arrival replacements relative) ≠ place) :
    overlay (fun _ => none) (copier.writes disk (.fromRoot base)
      (effective (entry.contentReplacements replacements)) (listing disk (.fromRoot base)))
      (front ++ place) = none := by
  refine overlay_other (fun write member same => ?_) _
  obtain ⟨rest, content, takes, rfl⟩ := (mem_writes_iff sound (carries.isDirectory sound)).1 member
  obtain ⟨relative, -, listed, -, segments⟩ := carries.arrives spelled slash takes
  exact nowhere relative (by simp [listed]) (List.append_cancel_left (segments.symm.trans same))

end Carries

theorem deliver_ok {entry : Entry} {copier : Copier} {replacements : Replacements}
    (spelled : ∀ pair ∈ replacements.entries, ∃ name, pair.1 = Placeholder.spell name)
    (slash : entry.raw = false → '/' ∉ entry.opened.toList) {world : World}
    (sound : world.disk.Sound) {target : Path} (target_written : target.IsWritten)
    {base front : Place} {files : Place → Option Content}
    (carries : entry.Carries replacements world.disk base front files)
    (apart : Apart (world.disk.placeOf target) base) (accepts : world.disk.Accepts target)
    (absent : world.disk.node? (world.disk.placeOf target) = none) :
    ∃ written reached,
      copier.copyTree target [.fromRoot base] (entry.contentReplacements replacements) world =
          .ok written reached ∧
        Altered (.into world.disk target) world.disk reached.disk ∧ reached.disk.Accepts target ∧
          ∀ place, reached.disk.contentAt (world.disk.placeOf target ++ place) =
            overlay (fun _ => none) (copier.writes world.disk (.fromRoot base)
              (effective (entry.contentReplacements replacements))
              (listing world.disk (.fromRoot base))) place := by
  have proper : ∀ rest ∈ listing world.disk (.fromRoot base), ∀ content,
      copier.taken? world.disk (.fromRoot base) rest = some content →
        Names (relativeText (effective (entry.contentReplacements replacements)) rest) := by
    intro rest listed content taken
    rw [taken?_eq_takes sound (carries.isDirectory sound) listed] at taken
    obtain ⟨relative, -, -, names, -⟩ := carries.arrives spelled slash taken
    exact names
  obtain ⟨written, reached, ends, altered, still, holds⟩ :=
    copyTree_ok sound target_written (carries.stands sound apart) accepts
      (holds_of_absent sound absent) proper (carries.fits spelled slash sound)
  exact ⟨written, reached, ends, altered, still, holds.file⟩

end Archetype.Template.Entry
