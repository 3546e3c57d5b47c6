import Archetype.Git.Client
import Archetype.Proofs.Directories
import Archetype.Proofs.Phases

namespace Archetype.Git

def Outcome.Succeeds : Outcome → Prop
  | .finished status _ _ => status = 0
  | _ => False

instance : DecidablePred Outcome.Succeeds
  | .finished status _ _ => inferInstanceAs (Decidable (status = 0))
  | .noProgram | .timedOut => .isFalse id

namespace Client

def starting (invocation : Invocation) (world : World) : World :=
  { world with
    journal := world.journal ++ [.noted (.running (" ".intercalate invocation.arguments))] }

section Calls

variable (client : Client)

def answer (invocation : Invocation) (world : World) : Outcome :=
  (client.run (starting invocation world) invocation).1

def called (invocation : Invocation) (world : World) : World where
  disk := (client.run (starting invocation world) invocation).2
  journal := (starting invocation world).journal ++ [.ran invocation]

theorem call_eq (arguments : List String) (directory? : Option Path) (world : World) :
    client.call arguments directory? world =
      let invocation := ⟨client.program :: arguments, directory?.map Path.toText⟩
      match client.answer invocation world with
      | .finished status output errors =>
        .ok (status, output, errors) (client.called invocation world)
      | .noProgram => .error (.of (.noGit client.program)) (client.called invocation world)
      | .timedOut =>
        .error (.of (.gitTimeout (arguments.headD "") client.timeout))
          (client.called invocation world) := by
  have runs : client.call arguments directory? world =
      let invocation := ⟨client.program :: arguments, directory?.map Path.toText⟩
      (match client.answer invocation world with
      | .finished status output errors => (pure (status, output, errors) : Action _)
      | .noProgram => Action.fault (.noGit client.program)
      | .timedOut => Action.fault (.gitTimeout (arguments.headD "") client.timeout))
        (client.called invocation world) := rfl
  rw [runs]
  dsimp only
  cases client.answer ⟨client.program :: arguments, directory?.map Path.toText⟩ world <;> rfl

def require (arguments : List String) (directory? : Option Path) (cause : String → Cause) :
    Action Unit := do
  let (status, _, errors) ← client.call arguments directory?
  if status ≠ 0 then Action.fault (cause (Text.strip errors))

theorem fetch_eq (address commit : String) (path : Path) :
    client.fetch address commit path =
      client.require ["clone", "--quiet", "--no-checkout", address, path.toText] none
          (.gitFailed ("clone " ++ address) none) >>= fun _ =>
        client.require ["checkout", "--quiet", "--detach", commit] (some path)
          (.gitFailed ("checkout " ++ commit) (some path.toText)) := by
  simp only [fetch, require, bind_assoc]
  refine bind_congr fun (status, _, errors) => ?_
  by_cases fine : status = 0
  · simp only [fine, ne_eq, not_true_eq_false, ↓reduceIte, pure_bind]
  · simp only [fine, ne_eq, not_false_eq_true, ↓reduceIte]

theorem require_cases (arguments : List String) (directory? : Option Path)
    (cause : String → Cause) (remote : ∀ output, (cause output).stage = .remote) (world : World) :
    let invocation : Invocation := ⟨client.program :: arguments, directory?.map Path.toText⟩
    ((client.answer invocation world).Succeeds ∧
        client.require arguments directory? cause world =
          .ok () (client.called invocation world)) ∨
      (¬ (client.answer invocation world).Succeeds ∧ ∃ fault : Fault,
        client.require arguments directory? cause world =
          .error (.fault fault) (client.called invocation world) ∧
            fault.cause.stage = .remote) := by
  intro invocation
  have calls := client.call_eq arguments directory? world
  dsimp only at calls
  cases answered : client.answer invocation world with
  | finished status output errors =>
      rw [answered] at calls
      by_cases fine : status = 0
      · subst fine
        exact Or.inl ⟨rfl, Action.bind_ok calls _⟩
      · refine Or.inr ⟨fine, ⟨cause (Text.strip errors), none⟩, ?_, remote _⟩
        rw [require, Action.bind_ok calls]
        simp only [ne_eq, fine, not_false_eq_true, ↓reduceIte]
        rfl
  | noProgram =>
      rw [answered] at calls
      exact Or.inr ⟨id, _, Action.bind_error calls, rfl⟩
  | timedOut =>
      rw [answered] at calls
      exact Or.inr ⟨id, _, Action.bind_error calls, rfl⟩

end Calls

structure Order where
  address : String
  name : String
  commit : String
deriving DecidableEq, Repr

namespace Order

def names (order : Order) : List String :=
  let (qualifier, repository) := Name.splitQualified order.name
  ["libs", qualifier, repository, order.commit]

theorem names_eq (order : Order) : order.names = order.names.dropLast ++ [order.commit] := rfl

theorem prefix_dropLast {order : Order} {front : List String} (starts : front <+: order.names)
    (apart : front ≠ order.names) : front <+: order.names.dropLast := by
  rw [names_eq] at starts apart
  exact (List.prefix_concat_iff.1 starts).resolve_left apart

/-- The name is made of two names with a slash between them, the commit is a name, and a disk can
hold all of them. -/
structure Proper (order : Order) : Prop where
  qualified : ∃ qualifier repository, Path.IsName qualifier ∧ Path.IsName repository ∧
    order.name = qualifier ++ "/" ++ repository
  commit : Path.IsName order.commit
  clean : Disk.hasNull [order.name, order.commit] = false

def Matches (order other : Order) : Prop :=
  order.name = other.name ∧ order.commit = other.commit

instance (order other : Order) : Decidable (order.Matches other) :=
  inferInstanceAs (Decidable (_ ∧ _))

theorem Matches.names_eq {order other : Order} (same : order.Matches other) :
    order.names = other.names := by
  rw [names, names, same.1, same.2]

namespace Proper

variable {order other : Order} (proper : order.Proper)

include proper

theorem exists_names : ∃ qualifier repository, Path.IsName qualifier ∧ Path.IsName repository ∧
    order.name = qualifier ++ "/" ++ repository ∧
      order.names = ["libs", qualifier, repository, order.commit] := by
  obtain ⟨qualifier, repository, isQualifier, isRepository, name⟩ := proper.qualified
  refine ⟨qualifier, repository, isQualifier, isRepository, name, ?_⟩
  have characters : order.name.toList = qualifier.toList ++ '/' :: repository.toList := by
    simp [name]
  have split : Name.splitQualified order.name = (qualifier, repository) := by
    rw [Name.splitQualified, characters, Text.cutFirst_append isQualifier.1.2.2]
    simp
  rw [names, split]

theorem named : ∀ name ∈ order.names, Path.IsName name := by
  obtain ⟨qualifier, repository, isQualifier, isRepository, -, names⟩ := proper.exists_names
  rw [names]
  simp only [List.mem_cons, List.not_mem_nil, or_false, forall_eq_or_imp, forall_eq]
  exact ⟨by decide, isQualifier, isRepository, proper.commit⟩

theorem names_clean : Disk.hasNull order.names = false := by
  obtain ⟨qualifier, repository, -, -, name, names⟩ := proper.exists_names
  have clean := proper.clean
  rw [name] at clean
  rw [names]
  simp_all [Disk.hasNull]

theorem matches_of_names (own : other.Proper) (same : order.names = other.names) :
    order.Matches other := by
  obtain ⟨qualifier, repository, -, -, name, names⟩ := proper.exists_names
  obtain ⟨other_qualifier, other_repository, -, -, other_name, other_names⟩ := own.exists_names
  rw [names, other_names] at same
  simp only [List.cons.injEq, true_and, and_true] at same
  obtain ⟨rfl, rfl, commit⟩ := same
  exact ⟨name.trans other_name.symm, commit⟩

theorem length_names : order.names.length = 4 := by
  obtain ⟨qualifier, repository, -, -, -, names⟩ := proper.exists_names
  rw [names]
  rfl

theorem matches_of_prefix (own : other.Proper) {base inner : Place}
    (within : base ++ order.names <+: inner) (other_within : base ++ other.names <+: inner) :
    order.Matches other := by
  refine proper.matches_of_names own ((List.append_right_inj base).1 ?_)
  refine (List.prefix_of_prefix_length_le within other_within ?_).eq_of_length ?_
  · simp [proper.length_names, own.length_names]
  · simp [proper.length_names, own.length_names]

end Proper

end Order

section Paths

variable (client : Client) {order : Order}

def pathOf (order : Order) : Path :=
  client.checkoutPath order.name order.commit

theorem pathOf_congr {other : Order} (same : order.Matches other) :
    client.pathOf order = client.pathOf other := by
  rw [pathOf, pathOf, same.1, same.2]

variable (proper : order.Proper)

include proper

theorem pathOf_eq : client.pathOf order =
    ⟨client.cache.anchor, client.cache.segments ++ order.names⟩ := by
  obtain ⟨qualifier, repository, isQualifier, isRepository, name, names⟩ := proper.exists_names
  rw [pathOf, checkoutPath, names]
  have split : Name.splitQualified order.name = (qualifier, repository) :=
    Prod.ext_iff.2 (by simpa [Order.names] using names)
  simp only [split, Path.div_name _ (show Path.IsName "libs" by decide),
    Path.div_name _ isQualifier, Path.div_name _ isRepository, Path.div_name _ proper.commit,
    List.append_assoc, List.cons_append, List.nil_append]

theorem parent_pathOf : (client.pathOf order).parent =
    ⟨client.cache.anchor, client.cache.segments ++ order.names.dropLast⟩ := by
  have more : order.names ≠ [] := by simp [Order.names]
  rw [client.pathOf_eq proper, Path.parent, List.dropLast_append_of_ne_nil more]

theorem pathOf_div : client.pathOf order / ".git" =
    ⟨client.cache.anchor, client.cache.segments ++ (order.names ++ [".git"])⟩ := by
  rw [Path.div_name _ (by decide), client.pathOf_eq proper, List.append_assoc]

end Paths

structure Confined (place : Place) (before after : Disk) : Prop where
  wellFormed : after.WellFormed
  current : after.current = before.current
  outside : ∀ other, ¬ place <+: other → after.node? other = before.node? other
  directory : after.node? place = some .directory ∨ after.node? place = none

theorem Confined.trans {place : Place} {before middle after : Disk}
    (first : Confined place before middle) (second : Confined place middle after) :
    Confined place before after :=
  ⟨second.wellFormed, second.current.trans first.current,
    fun other outside => (second.outside other outside).trans (first.outside other outside),
    second.directory⟩

theorem Confined.extends_of_absent {place : Place} {before after : Disk}
    (confined : Confined place before after) (wellFormed : before.WellFormed)
    (absent : before.node? place = none) : Disk.Extends before after := by
  refine ⟨confined.current, fun other node held => ?_⟩
  rw [confined.outside other fun within => ?_, held]
  rw [wellFormed.none_of_prefix absent within] at held
  cases held

section Discipline

variable (client : Client)

def cloning (order : Order) : Invocation :=
  ⟨[client.program, "clone", "--quiet", "--no-checkout", order.address,
    (client.pathOf order).toText], none⟩

def checkingOut (order : Order) : Invocation :=
  ⟨[client.program, "checkout", "--quiet", "--detach", order.commit],
    some (client.pathOf order).toText⟩

/-- Git writes in the directory of a checkout only. A clone that succeeds puts `.git` there, and a
checkout leaves it there. -/
structure Disciplined : Prop where
  clone : ∀ order : Order, order.Proper → ∀ world place, world.disk.WellFormed →
    world.disk.locate true (client.pathOf order) = .ok place → world.disk.node? place = none →
      Confined place world.disk (client.run world (client.cloning order)).2 ∧
        ((client.run world (client.cloning order)).1.Succeeds →
          ((client.run world (client.cloning order)).2.find?
            (client.pathOf order / ".git")).isSome)
  checkOut : ∀ order : Order, order.Proper → ∀ world place, world.disk.WellFormed →
    world.disk.LeadsTo (client.pathOf order) place →
      Confined place world.disk (client.run world (client.checkingOut order)).2 ∧
        ((world.disk.find? (client.pathOf order / ".git")).isSome →
          ((client.run world (client.checkingOut order)).2.find?
            (client.pathOf order / ".git")).isSome)

structure Ready (base : Place) (order : Order) (disk : Disk) : Prop where
  wellFormed : disk.WellFormed
  leads : disk.LeadsTo client.cache base
  fronts : ∀ front, front <+: order.names.dropLast →
    disk.node? (base ++ front) = some .directory
  directory : disk.node? (base ++ order.names) = some .directory ∨
    disk.node? (base ++ order.names) = none

end Discipline

namespace Ready

variable {client : Client} {base : Place} {order : Order} {disk : Disk}
  (ready : client.Ready base order disk)

include ready

theorem confined (absent : disk.node? (base ++ order.names) = none) {after : Disk}
    (change : Confined (base ++ order.names) disk after) : client.Ready base order after := by
  have extended := change.extends_of_absent ready.wellFormed absent
  exact ⟨change.wellFormed, extended.leadsTo ready.leads,
    fun front starts => extended.keeps _ _ (ready.fronts front starts), change.directory⟩

theorem opens : disk.Opens base order.names := fun front starts apart =>
  Or.inl (ready.fronts front (Order.prefix_dropLast starts apart))

variable (proper : order.Proper)

include proper

theorem located (follow : Bool) :
    disk.locate follow (client.pathOf order) = .ok (base ++ order.names) := by
  rw [client.pathOf_eq proper]
  refine ready.leads.locate_names proper.named proper.names_clean (by simp [Order.names])
    (fun front starts apart => ready.fronts front (Order.prefix_dropLast starts apart))
    fun _ target link => ?_
  rcases ready.directory with directory | absent
  · rw [directory] at link
    cases link
  · rw [absent] at link
    cases link

theorem leadsTo (directory : disk.node? (base ++ order.names) = some .directory) :
    disk.LeadsTo (client.pathOf order) (base ++ order.names) :=
  ⟨ready.located proper true, directory⟩

theorem discards : Confined (base ++ order.names) disk (discard (client.pathOf order) disk) ∧
    (discard (client.pathOf order) disk).node? (base ++ order.names) = none := by
  rcases ready.directory with directory | absent
  · have more : base ++ order.names ≠ [] := by simp [Order.names]
    have leads := ready.leadsTo proper directory
    have plain : disk.isLink (client.pathOf order) = false := by
      simp [Disk.isLink, ready.located proper, directory]
    have last : (client.pathOf order).segments =
        (client.cache.segments ++ order.names.dropLast) ++ [order.commit] := by
      rw [client.pathOf_eq proper, List.append_assoc, ← Order.names_eq]
    rw [discard, leads.isDirectory, plain, leads.removeTree last proper.commit.2]
    refine ⟨⟨ready.wellFormed.prune more, rfl, fun other outside => ?_, ?_⟩, ?_⟩
    · exact (Disk.node?_prune disk more other).trans (if_neg outside)
    · exact Or.inr ((Disk.node?_prune disk more _).trans (if_pos (List.prefix_refl _)))
    · exact (Disk.node?_prune disk more _).trans (if_pos (List.prefix_refl _))
  · have unfound : disk.isDirectory (client.pathOf order) = false := by
      simp [Disk.isDirectory, Disk.find?, ready.located proper, absent]
    rw [discard, unfound]
    simp only [Bool.false_and, Bool.false_eq_true, ↓reduceIte]
    exact ⟨⟨ready.wellFormed, rfl, fun _ _ => rfl, Or.inr absent⟩, absent⟩

end Ready

section Absent

variable {client : Client} {base : Place} {order : Order} {disk : Disk}
  (leads : disk.LeadsTo client.cache base) (proper : order.Proper)
  (opens : disk.Opens base order.names) (absent : disk.node? (base ++ order.names) = none)

include leads proper opens absent

theorem find?_of_absent : disk.find? (client.pathOf order) = none := by
  obtain ⟨left, located⟩ :=
    leads.exists_locate_append proper.names_clean (by simp [Order.names]) true
  rw [client.pathOf_eq proper, Disk.find?, located]
  rcases Disk.descendLinks_names true left proper.named opens
    (fun _ _ link => by rw [absent] at link; cases link) with ⟨ends, -⟩ | ⟨ends, -⟩
  · rw [ends]
    exact absent
  · rw [ends]

theorem find?_git_of_absent (wellFormed : disk.WellFormed) :
    disk.find? (client.pathOf order / ".git") = none := by
  have starts : order.names <+: order.names ++ [".git"] := List.prefix_append _ _
  have named : ∀ name ∈ order.names ++ [".git"], Path.IsName name := by
    intro name member
    rcases List.mem_append.1 member with inside | last
    · exact proper.named name inside
    · exact List.mem_singleton.1 last ▸ by decide
  have opens : disk.Opens base (order.names ++ [".git"]) := by
    intro front begins apart
    rcases List.prefix_concat_iff.1 begins with whole | inside
    · exact absurd whole apart
    · by_cases own : front = order.names
      · exact Or.inr (own ▸ absent)
      · exact opens front inside own
  have missing := leads.locate_missing wellFormed named
    (Disk.hasNull_append proper.names_clean (by decide)) opens starts (by simp) absent true
  rw [client.pathOf_div proper, Disk.find?, missing]

end Absent

section Call

variable (client : Client) (order : Order)

def BothSucceed (world : World) : Prop :=
  (client.answer (client.cloning order) world).Succeeds ∧
    (client.answer (client.checkingOut order)
      (client.called (client.cloning order) world)).Succeeds

def serve : Action Path :=
  client.checkOut order.address order.name order.commit

def prepare : Action Unit := do
  Action.makeDirectories (client.pathOf order).parent
  Action.note (.cloning order.address (String.ofList (order.commit.toList.take 12)))

def Fetches (world : World) : Prop :=
  world.disk.find? (client.pathOf order / ".git") = none ∧
    client.BothSucceed order ((client.prepare order).after world)

def fetchOrder : Action Unit :=
  client.fetch order.address order.commit (client.pathOf order)

variable {client order}

theorem serve_of_found {world : World}
    (found : (world.disk.find? (client.pathOf order / ".git")).isSome) :
    client.serve order world = .ok (client.pathOf order)
      { world with
        journal := world.journal ++ [.noted (.reusing (client.pathOf order).toText)] } := by
  rw [serve, checkOut, Action.disk_bind]
  change (if (world.disk.find? (client.pathOf order / ".git")).isSome then _ else _ : Action Path)
    world = _
  rw [if_pos found]
  rfl

theorem serve_of_absent {world : World}
    (absent : world.disk.find? (client.pathOf order / ".git") = none) :
    client.serve order world = (do
      client.prepare order
      undoing (client.pathOf order) (client.fetchOrder order)
      return client.pathOf order : Action Path) world := by
  rw [serve, checkOut, Action.disk_bind]
  change (if (world.disk.find? (client.pathOf order / ".git")).isSome then _ else _ : Action Path)
    world = _
  rw [if_neg (by simp [absent])]
  simp only [prepare, bind_assoc]
  rfl

variable {base : Place}

theorem fetch_cases (disciplined : client.Disciplined) (proper : order.Proper) {world : World}
    (ready : client.Ready base order world.disk)
    (absent : world.disk.node? (base ++ order.names) = none) :
    (client.BothSucceed order world ∧ ∃ reached,
        client.fetchOrder order world = .ok () reached ∧
          Confined (base ++ order.names) world.disk reached.disk ∧
            (reached.disk.find? (client.pathOf order / ".git")).isSome) ∨
      (¬ client.BothSucceed order world ∧ ∃ fault reached,
        client.fetchOrder order world = .error (.fault fault) reached ∧
          fault.cause.stage = .remote ∧
            Confined (base ++ order.names) world.disk reached.disk) := by
  have clones := client.require_cases
    ["clone", "--quiet", "--no-checkout", order.address, (client.pathOf order).toText] none
    (.gitFailed ("clone " ++ order.address) none) (fun _ => rfl) world
  obtain ⟨cloned, creates⟩ := disciplined.clone order proper
    (starting (client.cloning order) world) _ ready.wellFormed (ready.located proper true) absent
  rw [fetchOrder, fetch_eq]
  rcases clones with ⟨succeeds, ends⟩ | ⟨fails, fault, ends, remote⟩
  · have ready := ready.confined absent cloned
    have git := creates succeeds
    -- without a directory there would be no `.git`, which a clone that succeeds has made
    have directory := ready.directory.resolve_right fun absent => by
      rw [find?_git_of_absent ready.leads proper ready.opens absent ready.wellFormed] at git
      cases git
    have checks := client.require_cases ["checkout", "--quiet", "--detach", order.commit]
      (some (client.pathOf order))
      (.gitFailed ("checkout " ++ order.commit) (some (client.pathOf order).toText))
      (fun _ => rfl) (client.called (client.cloning order) world)
    obtain ⟨checked, keeps⟩ := disciplined.checkOut order proper
      (starting (client.checkingOut order) (client.called (client.cloning order) world)) _
      ready.wellFormed (ready.leadsTo proper directory)
    rw [Action.bind_ok ends]
    rcases checks with ⟨also, ends⟩ | ⟨fails, fault, ends, remote⟩
    · exact Or.inl ⟨⟨succeeds, also⟩, _, ends, cloned.trans checked, keeps git⟩
    · exact Or.inr ⟨fun both => fails both.2, fault, _, ends, remote, cloned.trans checked⟩
  · exact Or.inr ⟨fun both => fails both.1, fault, _, Action.bind_error ends, remote, cloned⟩

theorem undoing_of_ok {path : Path} {work : Action Unit} {world reached : World}
    (ends : work world = .ok () reached) : undoing path work world = .ok () reached := by
  simp only [undoing, ends]

theorem undoing_of_fault {path : Path} {work : Action Unit} {world reached : World} {fault : Fault}
    (ends : work world = .error (.fault fault) reached) :
    undoing path work world =
      .error (.fault fault) { reached with disk := discard path reached.disk } := by
  simp only [undoing, ends]

theorem undoing_cases (disciplined : client.Disciplined) (proper : order.Proper) {world : World}
    (ready : client.Ready base order world.disk)
    (absent : world.disk.node? (base ++ order.names) = none) :
    (client.BothSucceed order world ∧ ∃ reached,
        undoing (client.pathOf order) (client.fetchOrder order) world = .ok () reached ∧
          Confined (base ++ order.names) world.disk reached.disk ∧
            (reached.disk.find? (client.pathOf order / ".git")).isSome) ∨
      (¬ client.BothSucceed order world ∧ ∃ fault reached,
        undoing (client.pathOf order) (client.fetchOrder order) world =
            .error (.fault fault) reached ∧
          fault.cause.stage = .remote ∧
            Confined (base ++ order.names) world.disk reached.disk ∧
              reached.disk.node? (base ++ order.names) = none) := by
  rcases fetch_cases disciplined proper ready absent with
    ⟨both, reached, ends, confined, git⟩ | ⟨fails, fault, reached, ends, remote, confined⟩
  · exact Or.inl ⟨both, reached, undoing_of_ok ends, confined, git⟩
  · obtain ⟨discarded, gone⟩ := (ready.confined absent confined).discards proper
    exact Or.inr ⟨fails, fault, _, undoing_of_fault ends, remote, confined.trans discarded, gone⟩

end Call

end Client

end Archetype.Git
