import Archetype.Proofs.Fetching

namespace Archetype.Git

namespace Client

/-- The cache holds the checkouts of some orders and no others. The world `made` differs from
`world` only as long as there is no directory for the cache yet. -/
structure Holds (client : Client) (base : Place) (kept : Order → Prop) (world made : World) :
    Prop where
  wellFormed : world.disk.WellFormed
  makes : Action.makeDirectories client.cache world = .ok () made
  leads : made.disk.LeadsTo client.cache base
  opens : ∀ order : Order, order.Proper → made.disk.Opens base order.names
  absent : ∀ order : Order, order.Proper → ¬ kept order →
    made.disk.node? (base ++ order.names) = none
  git : ∀ order : Order, order.Proper →
    ((world.disk.find? (client.pathOf order / ".git")).isSome ↔ kept order)
  settled : ∀ order : Order, order.Proper → kept order → made = world

structure Change (client : Client) (base : Place) (order : Order) (before middle after : Disk) :
    Prop where
  opened : Disk.Opened base order.names.dropLast before middle
  ready : client.Ready base order middle
  vacant : middle.node? (base ++ order.names) = none
  confined : Confined (base ++ order.names) middle after

namespace Change

variable {client : Client} {base : Place} {order : Order} {before middle after : Disk}
  (change : client.Change base order before middle after)

include change

theorem leads : after.LeadsTo client.cache base :=
  (change.ready.confined change.vacant change.confined).leads

theorem extended (opens : ∀ front, front <+: order.names.dropLast →
    before.node? (base ++ front) = some .directory ∨ before.node? (base ++ front) = none) :
    Disk.Extends before after :=
  (change.opened.extended opens).trans
    (change.confined.extends_of_absent change.ready.wellFormed change.vacant)

theorem node?_outside {place : Place} (apart : ¬ base ++ order.names <+: place) :
    after.node? place =
      if base <+: place ∧ place <+: base ++ order.names.dropLast then some .directory
      else before.node? place :=
  (change.confined.outside place apart).trans (change.opened.node place)

variable (proper : order.Proper) {other : Order} (own : other.Proper)

include proper own

theorem node?_other (apart : ¬ order.Matches other) {place : Place}
    (within : base ++ other.names <+: place) : after.node? place = before.node? place := by
  rw [change.node?_outside fun inside => apart (proper.matches_of_prefix own inside within), if_neg]
  rintro ⟨-, inside⟩
  simpa [proper.length_names, own.length_names] using (within.trans inside).length_le

theorem opens (before_opens : before.Opens base other.names) : after.Opens base other.names := by
  intro front starts apart
  have shorter : front.length < 4 := own.length_names ▸
    Nat.lt_of_le_of_ne starts.length_le fun same => apart (starts.eq_of_length same)
  rw [change.node?_outside]
  · split
    · exact Or.inl rfl
    · exact before_opens front starts apart
  · intro within
    have longer := within.length_le
    simp only [List.length_append, proper.length_names] at longer
    omega

end Change

/-- A call has spared all that was on the disk, and has put nothing into other checkouts. -/
structure Spares (client : Client) (base : Place) (order : Order) (before after : Disk) : Prop where
  leads : after.LeadsTo client.cache base
  extended : Disk.Extends before after
  others : ∀ other : Order, other.Proper → ¬ order.Matches other →
    ∀ place, base ++ other.names <+: place → after.node? place = before.node? place

namespace Holds

variable {client : Client} {base : Place} {kept : Order → Prop} {world made : World}
  (holds : client.Holds base kept world made)

include holds

theorem congr {other : Order → Prop} (same : ∀ order, order.Proper → (kept order ↔ other order)) :
    client.Holds base other world made :=
  ⟨holds.wellFormed, holds.makes, holds.leads, holds.opens,
    fun order proper apart => holds.absent order proper (mt (same order proper).1 apart),
    fun order proper => (holds.git order proper).trans (same order proper),
    fun order proper keeps => holds.settled order proper ((same order proper).2 keeps)⟩

theorem made_wellFormed : made.disk.WellFormed :=
  (Action.keeps_of_makeDirectories holds.makes).2 holds.wellFormed

theorem noted {order : Order} (proper : order.Proper) (keeps : kept order) (journal : List Event) :
    client.Holds base kept { world with journal } { world with journal } := by
  obtain rfl := holds.settled order proper keeps
  exact ⟨holds.wellFormed, Action.makeDirectories_of_leadsTo holds.leads, holds.leads, holds.opens,
    holds.absent, holds.git, fun _ _ _ => rfl⟩

variable {order : Order} (proper : order.Proper)

include proper

theorem opens_dropLast {front : List String} (starts : front <+: order.names.dropLast) :
    made.disk.node? (base ++ front) = some .directory ∨ made.disk.node? (base ++ front) = none := by
  refine holds.opens order proper front (starts.trans (List.dropLast_prefix _)) fun same => ?_
  have shorter := starts.length_le
  simp [same, proper.length_names] at shorter

theorem prepared (fresh : ¬ kept order) :
    ∃ started, client.prepare order world = .ok () started ∧
      Disk.Opened base order.names.dropLast made.disk started.disk ∧
        client.Ready base order started.disk ∧
          started.disk.node? (base ++ order.names) = none := by
  have within : order.names.dropLast <+: order.names := List.dropLast_prefix _
  obtain ⟨opened, ends, isOpened⟩ := Action.makeDirectories_names holds.wellFormed holds.makes
    holds.leads (fun name member => proper.named name (within.subset member))
    (Disk.hasNull_of_subset within.subset proper.names_clean)
    fun front => holds.opens_dropLast proper
  have prepares : client.prepare order world = .ok () { made with
      disk := opened
      journal := made.journal ++
        [.noted (.cloning order.address (String.ofList (order.commit.toList.take 12)))] } := by
    rw [prepare, client.parent_pathOf proper, Action.bind_ok ends]
    rfl
  have vacant : opened.node? (base ++ order.names) = none := by
    rw [isOpened.node, if_neg]
    · exact holds.absent order proper fresh
    · rintro ⟨-, inside⟩
      simpa [proper.length_names] using inside.length_le
  refine ⟨_, prepares, isOpened, ?_, vacant⟩
  have extended := isOpened.extended fun front => holds.opens_dropLast proper
  exact ⟨(Action.keeps_of_makeDirectories ends).2 holds.wellFormed, extended.leadsTo holds.leads,
    fun front starts => isOpened.directory starts, Or.inr vacant⟩

theorem changed {middle : Disk} {reached : World} {fetched : Prop}
    (change : client.Change base order made.disk middle reached.disk)
    (git : fetched → (reached.disk.find? (client.pathOf order / ".git")).isSome)
    (absent : ¬ fetched → reached.disk.node? (base ++ order.names) = none) :
    client.Holds base (fun other => kept other ∨ order.Matches other ∧ fetched) reached reached ∧
      client.Spares base order world.disk reached.disk := by
  have started := (Action.keeps_of_makeDirectories holds.makes).1
  have extended := started.trans (change.extended fun front => holds.opens_dropLast proper)
  have opens := fun (other : Order) (own : other.Proper) =>
    change.opens proper own (holds.opens other own)
  have gone : ∀ other : Order, other.Proper → ¬ (kept other ∨ order.Matches other ∧ fetched) →
      reached.disk.node? (base ++ other.names) = none := by
    intro other own neither
    obtain ⟨unkept, unfetched⟩ := not_or.1 neither
    by_cases same : order.Matches other
    · rw [← same.names_eq]
      exact absent fun fetches => unfetched ⟨same, fetches⟩
    · rw [change.node?_other proper own same (List.prefix_refl _)]
      exact holds.absent other own unkept
  refine ⟨⟨change.confined.wellFormed, Action.makeDirectories_of_leadsTo change.leads, change.leads,
    opens, gone, fun other own => ⟨fun found => ?_, ?_⟩, fun _ _ _ => rfl⟩, change.leads, extended,
    fun other own apart place within => ?_⟩
  · by_contra neither
    rw [find?_git_of_absent change.leads own (opens other own) (gone other own neither)
      change.confined.wellFormed] at found
    cases found
  · rintro (keeps | ⟨same, fetches⟩)
    · obtain ⟨node, found⟩ := Option.isSome_iff_exists.1 ((holds.git other own).2 keeps)
      rw [extended.find?_eq found]
      rfl
    · rw [← client.pathOf_congr same]
      exact git fetches
  · rw [change.node?_other proper own apart within]
    by_cases keeps : kept other
    · rw [holds.settled other own keeps]
    · have absent := holds.made_wellFormed.none_of_prefix (holds.absent other own keeps) within
      rw [absent, started.none_of_none absent]

theorem serve (disciplined : client.Disciplined) (fresh : ¬ kept order) :
    ∃ reached, client.Holds base
        (fun other => kept other ∨ order.Matches other ∧ client.Fetches order world)
        reached reached ∧
      client.Spares base order world.disk reached.disk ∧
        (client.Fetches order world ∧
            client.serve order world = .ok (client.pathOf order) reached ∨
          ¬ client.Fetches order world ∧ reached.disk.node? (base ++ order.names) = none ∧
            ∃ fault, client.serve order world = .error (.fault fault) reached ∧
              fault.cause.stage = .remote) := by
  have unfound : world.disk.find? (client.pathOf order / ".git") = none := by
    rw [← Option.not_isSome_iff_eq_none, holds.git order proper]
    exact fresh
  obtain ⟨started, prepares, opened, ready, vacant⟩ := holds.prepared proper fresh
  have fetches : client.Fetches order world ↔ client.BothSucceed order started := by
    rw [Fetches, Action.after_of_ok prepares]
    exact and_iff_right unfound
  rw [serve_of_absent unfound, Action.bind_ok prepares]
  rcases undoing_cases disciplined proper ready vacant with
    ⟨both, reached, ends, confined, git⟩ | ⟨fails, fault, reached, ends, remote, confined, gone⟩
  · obtain ⟨holds, spares⟩ := holds.changed proper ⟨opened, ready, vacant, confined⟩
      (fun _ => git) fun unfetched => absurd (fetches.2 both) unfetched
    exact ⟨reached, holds, spares, Or.inl ⟨fetches.2 both, Action.bind_ok ends _⟩⟩
  · have unfetched := mt fetches.1 fails
    obtain ⟨holds, spares⟩ := holds.changed proper ⟨opened, ready, vacant, confined⟩
      (fun fetched => absurd fetched unfetched) fun _ => gone
    exact ⟨reached, holds, spares,
      Or.inr ⟨unfetched, gone, fault, Action.bind_error ends, remote⟩⟩

end Holds

section History

variable (client : Client)

def served (orders : List Order) (world : World) : World :=
  orders.foldl (fun world order => (client.serve order).after world) world

def Kept (world : World) (orders : List Order) (order : Order) : Prop :=
  ∃ before earlier, before ++ [earlier] <+: orders ∧ earlier.Matches order ∧
    client.Fetches earlier (client.served before world)

structure EmptyCache (world : World) (base : Place) : Prop where
  wellFormed : world.disk.WellFormed
  vacant : ∃ made, Action.makeDirectories client.cache world = .ok () made ∧
    made.disk.LeadsTo client.cache base ∧ made.disk.node? (base ++ ["libs"]) = none

variable {client} {base : Place} {world : World}

theorem served_concat (orders : List Order) (last : Order) :
    client.served (orders ++ [last]) world =
      (client.serve last).after (client.served orders world) := by
  simp [served]

theorem kept_concat_iff {orders : List Order} {last order : Order} :
    client.Kept world (orders ++ [last]) order ↔ client.Kept world orders order ∨
      last.Matches order ∧ client.Fetches last (client.served orders world) := by
  constructor
  · rintro ⟨before, earlier, starts, same, fetches⟩
    rcases List.prefix_concat_iff.1 starts with whole | within
    · obtain ⟨rfl, last_same⟩ := List.append_inj' whole rfl
      obtain rfl := List.singleton_inj.1 last_same
      exact Or.inr ⟨same, fetches⟩
    · exact Or.inl ⟨before, earlier, within, same, fetches⟩
  · rintro (⟨before, earlier, starts, same, fetches⟩ | ⟨same, fetches⟩)
    · exact ⟨before, earlier, starts.trans (List.prefix_append _ _), same, fetches⟩
    · exact ⟨orders, last, List.prefix_refl _, same, fetches⟩

theorem not_kept_nil (order : Order) : ¬ client.Kept world [] order := by
  rintro ⟨before, earlier, starts, -, -⟩
  simpa using List.prefix_nil.1 starts

theorem EmptyCache.holds (empty : client.EmptyCache world base) :
    ∃ made, client.Holds base (client.Kept world []) world made := by
  obtain ⟨made, makes, leads, vacant⟩ := empty.vacant
  have wellFormed := (Action.keeps_of_makeDirectories makes).2 empty.wellFormed
  have absent : ∀ names : List String, names.head? = some "libs" →
      made.disk.node? (base ++ names) = none := by
    intro names head
    obtain ⟨rest, rfl⟩ := List.head?_eq_some_iff.1 head
    exact wellFormed.none_of_prefix vacant
      ((List.prefix_append_right_inj base).2 (List.prefix_append ["libs"] rest))
  have opens : ∀ order : Order, made.disk.Opens base order.names := by
    intro order front starts _
    rcases List.prefix_cons_iff.1 starts with rfl | ⟨rest, rfl, -⟩
    · exact Or.inl (by rw [List.append_nil]; exact leads.directory)
    · exact Or.inr (absent _ rfl)
  refine ⟨made, empty.wellFormed, makes, leads, fun order _ => opens order,
    fun order _ _ => absent _ rfl, fun order own => iff_of_false ?_ (not_kept_nil order),
    fun order _ kept => absurd kept (not_kept_nil order)⟩
  rw [Bool.not_eq_true, Option.isSome_eq_false_iff, Option.isNone_iff_eq_none]
  rcases Action.unchanged_or_misses makes with rfl | misses
  · exact find?_git_of_absent leads own (opens order) (absent _ rfl) wellFormed
  · have clean : Disk.hasNull (order.names ++ [".git"]) = false :=
      Disk.hasNull_append own.names_clean (by decide)
    rw [client.pathOf_div own, Disk.find?,
      empty.wellFormed.locate_append_of_misses leads.clean misses clean (by simp) true]

theorem EmptyCache.holds_served (empty : client.EmptyCache world base)
    (disciplined : client.Disciplined) {orders : List Order}
    (proper : ∀ order ∈ orders, order.Proper) :
    ∃ made, client.Holds base (client.Kept world orders) (client.served orders world) made := by
  induction orders using List.reverseRecOn with
  | nil => exact empty.holds
  | append_singleton orders last ih =>
      obtain ⟨made, holds⟩ := ih fun order member => proper order (List.mem_append_left _ member)
      have own := proper last (by simp)
      by_cases keeps : client.Kept world orders last
      · -- a checkout that is there is not fetched again, so that the same ones are kept
        have found := (holds.git last own).2 keeps
        have again : ¬ client.Fetches last (client.served orders world) := fun fetches => by
          rw [fetches.1] at found
          cases found
        rw [served_concat, Action.after_of_ok (serve_of_found found)]
        refine ⟨_, (holds.noted own keeps _).congr fun order _ => ?_⟩
        rw [kept_concat_iff]
        exact (or_iff_left fun fetched => again fetched.2).symm
      · obtain ⟨reached, reaches, -, ends⟩ := holds.serve own disciplined keeps
        have after : client.served (orders ++ [last]) world = reached := by
          rw [served_concat]
          rcases ends with ⟨-, ends⟩ | ⟨-, -, fault, ends, -⟩
          · rw [Action.after, ends]
          · rw [Action.after, ends]
        rw [after]
        exact ⟨reached, reaches.congr fun order _ => kept_concat_iff.symm⟩

/-- The cache keeps what has been fetched, and nothing else. A call for a checkout that is kept
returns its path and does nothing else; any other call fetches the checkout, or fails and leaves
nothing of it. -/
theorem serve_after_served (empty : client.EmptyCache world base) (disciplined : client.Disciplined)
    {orders : List Order} (proper : ∀ earlier ∈ orders, earlier.Proper) {order : Order}
    (own : order.Proper) :
    let before := client.served orders world
    ((before.disk.find? (client.pathOf order / ".git")).isSome ↔
        client.Kept world orders order) ∧
      (client.Kept world orders order →
        client.serve order before = .ok (client.pathOf order) { before with
          journal := before.journal ++ [.noted (.reusing (client.pathOf order).toText)] }) ∧
      (¬ client.Kept world orders order → ∃ after,
        client.Spares base order before.disk after.disk ∧
          (client.Fetches order before ∧
              client.serve order before = .ok (client.pathOf order) after ∨
            ¬ client.Fetches order before ∧
              (∃ fault, client.serve order before = .error (.fault fault) after ∧
                fault.cause.stage = .remote) ∧
              after.disk.find? (client.pathOf order) = none ∧
              ∀ place, base ++ order.names <+: place → after.disk.node? place = none)) := by
  intro before
  -- the invariant holds after any number of calls, and tells what one more call finds
  obtain ⟨made, holds⟩ := empty.holds_served disciplined proper
  refine ⟨holds.git order own, fun keeps => serve_of_found ((holds.git order own).2 keeps),
    fun fresh => ?_⟩
  obtain ⟨after, reached, spares, ends⟩ := holds.serve own disciplined fresh
  refine ⟨after, spares, ends.imp_right fun ⟨unfetched, gone, fails⟩ => ⟨unfetched, fails, ?_, ?_⟩⟩
  · exact find?_of_absent reached.leads own (reached.opens order own) gone
  · exact fun place within => reached.wellFormed.none_of_prefix gone within

end History

def sampleRun (world : World) (invocation : Invocation) : Outcome × Disk :=
  let last := invocation.arguments.getLastD ""
  if invocation.arguments[1]? = some "clone" then
    match world.disk.locate true (.ofText last) with
    | .ok place =>
      (.finished 0 "" "", (world.disk.put place .directory).put (place ++ [".git"]) .directory)
    | .error _ => (.finished 128 "" "", world.disk)
  else (.finished (if last = "lost" then 1 else 0) "" "", world.disk)

def sampleClient : Client where
  cache := .ofText "/cache"
  run := sampleRun

theorem run_sampleClient : sampleClient.run = sampleRun := rfl

def sampleWorld : World where
  disk := Disk.holding [] [] ["tmp"]

def sampleOrder (commit : String) : Order :=
  ⟨"https://github.com/acme/tool.git", "acme/tool", commit⟩

theorem sampleRun_clone {world : World} {target : Path} {place : Place}
    (written : target.IsWritten) (located : world.disk.locate true target = .ok place)
    (program address : String) :
    sampleRun world
        ⟨[program, "clone", "--quiet", "--no-checkout", address, target.toText], none⟩ =
      (.finished 0 "" "",
        (world.disk.put place .directory).put (place ++ [".git"]) .directory) := by
  simp only [sampleRun, List.getElem?_cons_succ, List.getElem?_cons_zero, ↓reduceIte]
  change (match world.disk.locate true (.ofText target.toText) with
    | .ok _ => _
    | .error _ => _) = _
  rw [Path.ofText_toText written, located]

theorem sampleRun_checkout (world : World) (program commit : String)
    (directory? : Option String) :
    (sampleRun world ⟨[program, "checkout", "--quiet", "--detach", commit], directory?⟩).2 =
      world.disk := by
  simp [sampleRun]

theorem confined_clone {disk : Disk} {path : Path} {place : Place} (wellFormed : disk.WellFormed)
    (located : disk.locate true path = .ok place) (absent : disk.node? place = none) :
    Confined place disk ((disk.put place .directory).put (place ++ [".git"]) .directory) ∧
      (((disk.put place .directory).put (place ++ [".git"]) .directory).find?
        (path / ".git")).isSome := by
  obtain ⟨parent, name, split, directory⟩ := wellFormed.exists_parent located absent
  have more : place ≠ [] := by simp [split]
  have made_wellFormed : (disk.put place .directory).WellFormed := by
    subst split
    exact wellFormed.put directory (by simp [absent]) .directory
  have made : (disk.put place .directory).node? place = some .directory := by
    rw [Disk.node?_put _ more, if_pos rfl]
  have vacant : (disk.put place .directory).node? (place ++ [".git"]) = none := by
    rw [Disk.node?_put _ more, if_neg (by simp)]
    exact wellFormed.none_of_append absent _
  have extended := Disk.extends_put vacant .directory
  have kept := extended.keeps _ _ made
  have found : ((disk.put place .directory).put (place ++ [".git"]) .directory).node?
      (place ++ [".git"]) = some .directory := by
    rw [Disk.node?_put _ (by simp), if_pos rfl]
  refine ⟨⟨made_wellFormed.put made (by simp [vacant]) .directory, rfl, fun other outside => ?_,
    Or.inl kept⟩, ?_⟩
  · rw [Disk.node?_put _ (by simp), if_neg, Disk.node?_put _ more, if_neg]
    · exact fun same => outside (same ▸ List.prefix_refl _)
    · exact fun same => outside (same ▸ List.prefix_append _ _)
  · generalize (disk.put place .directory).put (place ++ [".git"]) .directory = after at *
    have leads : after.LeadsTo path place := by
      refine ⟨((Disk.extends_put absent .directory).trans extended).locate_eq located ?_, kept⟩
      intro _ _ target link
      rw [kept] at link
      cases link
    have located : after.locate true ⟨path.anchor, path.segments ++ [".git"]⟩ =
        .ok (place ++ [".git"]) := by
      refine leads.locate_names (by decide) (by decide) (by simp) (fun front starts apart => ?_)
        fun _ _ => by simp [found]
      rcases List.prefix_cons_iff.1 starts with rfl | ⟨rest, rfl, empty⟩
      · rwa [List.append_nil]
      · exact absurd (by rw [List.prefix_nil.1 empty]) apart
    rw [Path.div_name _ (by decide), Disk.find?, located]
    simp [found]

theorem disciplined_sampleClient : sampleClient.Disciplined where
  clone order proper world place wellFormed located absent := by
    have written : (sampleClient.pathOf order).IsWritten := by
      rw [sampleClient.pathOf_eq proper]
      intro segment member
      rcases List.mem_append.1 member with inside | inside
      · exact Path.isWritten_ofText "/cache" segment inside
      · exact (proper.named segment inside).1
    obtain ⟨confined, git⟩ := confined_clone wellFormed located absent
    rw [cloning, run_sampleClient, sampleRun_clone written located]
    exact ⟨confined, fun _ => git⟩
  checkOut order proper world place wellFormed leads := by
    rw [checkingOut, run_sampleClient, sampleRun_checkout]
    exact ⟨⟨wellFormed, rfl, fun _ _ => rfl, Or.inl leads.directory⟩, id⟩

theorem empty_sampleWorld : sampleClient.EmptyCache sampleWorld ["cache"] := by
  refine ⟨fun place name held => ?_,
    ⟨sampleWorld.disk.put ["cache"] .directory, []⟩, rfl, ⟨rfl, by decide⟩, by decide⟩
  simp [sampleWorld, Disk.holding] at held

theorem proper_sampleOrder {commit : String} (named : Path.IsName commit)
    (clean : Disk.hasNull [commit] = false) : (sampleOrder commit).Proper :=
  ⟨⟨"acme", "tool", by decide, by decide, rfl⟩, named,
    by simpa [Disk.hasNull, sampleOrder] using clean⟩

theorem serve_after_served_sample :
    let before := sampleClient.served
      [sampleOrder "lost", sampleOrder "v1"] sampleWorld
    (before.disk.find? (sampleClient.pathOf (sampleOrder "v1") / ".git")).isSome ∧
      ∃ after fault, sampleClient.serve (sampleOrder "lost") before =
          .error (.fault fault) after ∧ fault.cause.stage = .remote ∧
        sampleClient.Spares ["cache"] (sampleOrder "lost") before.disk after.disk := by
  intro before
  have lost : (sampleOrder "lost").Proper :=
    proper_sampleOrder (by decide) (by decide)
  have first : (sampleOrder "v1").Proper := proper_sampleOrder (by decide) (by decide)
  have proper : ∀ earlier ∈ [sampleOrder "lost", sampleOrder "v1"],
      earlier.Proper := by
    simp [lost, first]
  obtain ⟨git, -, -⟩ := serve_after_served empty_sampleWorld disciplined_sampleClient proper first
  obtain ⟨lost_git, -, fresh⟩ :=
    serve_after_served empty_sampleWorld disciplined_sampleClient proper lost
  refine ⟨git.2 ⟨[sampleOrder "lost"], sampleOrder "v1",
    List.prefix_refl _, ⟨rfl, rfl⟩, by decide +kernel, by decide +kernel, by decide +kernel⟩, ?_⟩
  obtain ⟨after, spares, ⟨fetches, -⟩ | ⟨-, ⟨fault, fails, remote⟩, -⟩⟩ :=
    fresh (mt lost_git.2 (by decide +kernel))
  · exact absurd fetches.2.2 (by decide +kernel)
  · exact ⟨after, fault, fails, remote, spares⟩

def nullOrder : Order :=
  ⟨"https://github.com/a/b.git", "io.github.a" ++ "/" ++ "b\x00c",
    "0123456789012345678901234567890123456789"⟩

/-- No path holds the character `U+0000`: a call for a name with it fails, but not with a fault. -/
theorem serve_nullCharacter :
    sampleClient.Disciplined ∧ sampleClient.EmptyCache sampleWorld ["cache"] ∧
      Path.IsName "io.github.a" ∧ Path.IsName "b\x00c" ∧ Path.IsName nullOrder.commit ∧
        (∃ after, sampleClient.serve nullOrder sampleWorld = .error .nullCharacter after) ∧
          ∀ fault after, sampleClient.serve nullOrder sampleWorld ≠ .error (.fault fault) after := by
  obtain ⟨_, after, fails, rfl⟩ : (sampleClient.serve nullOrder).EndsIn sampleWorld
      fun failure _ => failure = .nullCharacter := by decide +kernel
  refine ⟨disciplined_sampleClient, empty_sampleWorld, by decide, by decide, by decide,
    ⟨after, fails⟩, fun fault other same => ?_⟩
  rw [fails] at same
  cases same

end Client

end Archetype.Git
