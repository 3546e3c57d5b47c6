import Archetype.Git.Repository
import Archetype.Proofs.Completions

namespace Archetype

def World.recording (world : World) (event : Event) : World :=
  { world with journal := world.journal ++ [event] }

namespace Action

variable {α β : Type} {work : Action α} {world between reached : World}

def Ends (work : Action α) (world : World) : Except Failure α → World → Prop
  | .ok value, reached => work world = .ok value reached
  | .error failure, reached => work world = .error failure reached

theorem exists_ends (work : Action α) (world : World) :
    ∃ result reached, work.Ends world result reached := by
  cases ends : work world with
  | ok value reached => exact ⟨.ok value, reached, ends⟩
  | error failure reached => exact ⟨.error failure, reached, ends⟩

theorem ends_bind {next : α → Action β} {value : α} {result : Except Failure β}
    (first : work.Ends world (.ok value) between) (rest : (next value).Ends between result reached) :
    (work >>= next).Ends world result reached := by
  cases result with
  | ok _ => exact (bind_ok first next).trans rest
  | error _ => exact (bind_ok first next).trans rest

theorem ends_bind_error {next : α → Action β} {failure : Failure}
    (fails : work.Ends world (.error failure) reached) :
    (work >>= next).Ends world (.error failure) reached :=
  bind_error fails

theorem ends_map {result : Except Failure α} (ends : work.Ends world result reached)
    (build : α → β) :
    (work >>= fun value => return build value).Ends world (result.map build) reached := by
  cases result with
  | ok value => exact bind_ok ends _
  | error failure => exact bind_error ends

theorem ends_record (event : Event) :
    (record event).Ends world (.ok ()) (world.recording event) :=
  rfl

def explained (explain : FileError → Failure) : Failure → Failure
  | .file error => explain error
  | failure => failure

theorem explained_of_ne {explain : FileError → Failure} {failure : Failure}
    (other : ∀ error, failure ≠ .file error) : explained explain failure = failure := by
  cases failure with
  | file error => exact absurd rfl (other error)
  | _ => rfl

theorem ends_explaining (explain : FileError → Failure) {result : Except Failure α}
    (ends : work.Ends world result reached) :
    (explaining explain work).Ends world (result.mapError (explained explain)) reached := by
  cases result with
  | ok value => exact explaining_eq_ok_iff.2 ends
  | error failure =>
      have fails : work world = .error failure reached := ends
      cases failure <;> simp only [Except.mapError, explained, Ends, explaining, fails]

end Action

namespace Git

open Archetype.Action (ends_bind ends_bind_error ends_map ends_record ends_explaining)

theorem ends_ask {α : Type} {question : Question} {answer : Action α} {world reached : World}
    {reply : Except Failure α}
    (replies : answer.Ends (world.recording (.asked question)) reply reached) :
    (ask question answer).Ends world reply reached :=
  ends_bind (ends_record (.asked question)) replies

/-! ## Dialogues -/

inductive Exchange
  | address (name : String) (reply : Except Failure (Option String))
  | commit (address : String) (reference? : Option String) (reply : Except Failure (Option String))
  | checkout (address name commit : String) (reply : Except Failure Path)

def Exchange.question : Exchange → Question
  | .address name _ => .address name
  | .commit source reference? _ => .commit source reference?
  | .checkout source name wanted _ => .checkout source name wanted

def questions (world : World) : List Question :=
  world.journal.filterMap fun
    | .asked question => some question
    | _ => none

theorem questions_recording_asked (world : World) (question : Question) :
    questions (world.recording (.asked question)) = questions world ++ [question] := by
  simp [questions, World.recording]

theorem questions_recording_noted (world : World) (note : Note) :
    questions (world.recording (.noted note)) = questions world := by
  simp [questions, World.recording]

namespace Resolver

def Replies (resolver : Resolver) (world : World) : Exchange → World → Prop
  | .address name reply, reached => (resolver.address? name).Ends world reply reached
  | .commit address reference? reply, reached =>
    (resolver.commit? address reference?).Ends world reply reached
  | .checkout address name commit reply, reached =>
    (resolver.checkOut address name commit).Ends world reply reached

/-- From one world to another, the resolver is asked these questions in this order and gives these
replies; besides there are notes. -/
inductive Dialogue (resolver : Resolver) : World → List Exchange → World → Prop
  | ended (world : World) : Dialogue resolver world [] world
  | noted {world reached : World} {exchanges : List Exchange} (note : Note)
      (rest : Dialogue resolver (world.recording (.noted note)) exchanges reached) :
      Dialogue resolver world exchanges reached
  | asked {world between reached : World} {exchange : Exchange} {exchanges : List Exchange}
      (replies : resolver.Replies (world.recording (.asked exchange.question)) exchange between)
      (rest : Dialogue resolver between exchanges reached) :
      Dialogue resolver world (exchange :: exchanges) reached

def Reticent (resolver : Resolver) : Prop :=
  ∀ world exchange reached, resolver.Replies world exchange reached →
    questions reached = questions world

section Dialogues

variable {resolver : Resolver} {world between reached : World} {exchanges later : List Exchange}

theorem Dialogue.append (first : resolver.Dialogue world exchanges between)
    (rest : resolver.Dialogue between later reached) :
    resolver.Dialogue world (exchanges ++ later) reached := by
  induction first with
  | ended world => exact rest
  | noted note _ ih => exact .noted note (ih rest)
  | asked replies _ ih => exact .asked replies (ih rest)

theorem Dialogue.questions (reticent : resolver.Reticent)
    (dialogue : resolver.Dialogue world exchanges reached) :
    questions reached = questions world ++ exchanges.map Exchange.question := by
  induction dialogue with
  | ended world => simp
  | noted note _ ih => rw [ih, questions_recording_noted]
  | asked replies _ ih =>
      rw [ih, reticent _ _ _ replies, questions_recording_asked, List.map_cons, List.append_assoc,
        List.singleton_append]

end Dialogues

end Resolver

/-! ## Commits -/

def Told (exchanges : List Exchange) (reply : Except Failure (Option String)) : Prop :=
  ∃ address reference?, .commit address reference? reply ∈ exchanges

def AsksCommits (address : String) (reference? : Option String) (exchanges : List Exchange) :
    Prop :=
  ∃ reply later, exchanges = .commit address reference? reply :: later ∧
    ((reply = .ok none ∧ ∃ reference ∈ reference?, reference ≠ "") →
      ∃ again, later = [.commit address none again]) ∧
    (¬ (reply = .ok none ∧ ∃ reference ∈ reference?, reference ≠ "") → later = [])

def Faults {α : Type} (name : String) (cause : Cause) (result : Except Failure α) : Prop :=
  cause.stage = .remote ∧ result = .error (.of cause (some name))

def unresolved (address : String) (reference? : Option String) : Cause :=
  .unresolvedReference ((given? reference?).getD defaultReference) address

structure Finds (name address : String) (reference? : Option String) (exchanges : List Exchange)
    (found : Except Failure String) : Prop where
  asks : AsksCommits address reference? exchanges
  obtained : ∀ commit, found = .ok commit ↔ Told exchanges (.ok (some commit))
  raises : ∀ failure, Told exchanges (.error failure) → found = .error failure
  unresolved : (∀ commit, ¬ Told exchanges (.ok (some commit))) →
    (∀ failure, ¬ Told exchanges (.error failure)) →
      Faults name (unresolved address reference?) found

theorem given?_eq_none_iff {reference? : Option String} :
    given? reference? = none ↔ ¬ ∃ reference ∈ reference?, reference ≠ "" := by
  simp [given?, Option.filter_eq_none_iff]

def settled (missing : Failure) : Except Failure (Option String) → Except Failure String
  | .error failure => .error failure
  | .ok none => .error missing
  | .ok (some commit) => .ok commit

theorem settled_eq_ok_iff {missing : Failure} {reply : Except Failure (Option String)}
    {commit : String} : settled missing reply = .ok commit ↔ reply = .ok (some commit) := by
  rcases reply with failure | _ | told <;> simp [settled]

theorem ends_settled {work : Action (Option String)} {next : Option String → Action String}
    {missing : Failure} {reply : Except Failure (Option String)} {world reached : World}
    (ends : work.Ends world reply reached) (tells : ∀ commit, next (some commit) = return commit)
    (misses : reply = .ok none → next none = throw missing) :
    (work >>= next).Ends world (settled missing reply) reached := by
  rcases reply with failure | _ | commit
  · exact ends_bind_error ends
  · refine ends_bind ends ?_
    rw [misses rfl]
    rfl
  · refine ends_bind ends ?_
    rw [tells]
    rfl

section Commits

variable {name address : String} {reference? : Option String}

section Last

variable {asked? : Option String} {reply : Except Failure (Option String)} (vain : List Exchange)
  (empty : ∀ exchange ∈ vain, exchange = .commit address reference? (.ok none))

include empty

theorem told_concat_iff (told : Except Failure (Option String)) (news : told ≠ .ok none) :
    Told (vain ++ [.commit address asked? reply]) told ↔ reply = told := by
  constructor
  · rintro ⟨other, other?, member⟩
    rcases List.mem_append.1 member with early | last
    · cases empty _ early
      exact absurd rfl news
    · cases List.mem_singleton.1 last
      rfl
  · rintro rfl
    exact ⟨_, _, List.mem_append_right _ List.mem_cons_self⟩

theorem finds_concat
    (asks : AsksCommits address reference? (vain ++ [.commit address asked? reply])) :
    Finds name address reference? (vain ++ [.commit address asked? reply])
      (settled (.of (unresolved address reference?) (some name)) reply) where
  asks := asks
  obtained commit := by rw [told_concat_iff vain empty (.ok (some commit)) nofun, settled_eq_ok_iff]
  raises failure raised := by
    rw [(told_concat_iff vain empty (.error failure) nofun).1 raised]
    rfl
  unresolved nothing nowhere := by
    rcases reply with failure | _ | told
    · exact absurd ((told_concat_iff vain empty (.error failure) nofun).2 rfl) (nowhere failure)
    · exact ⟨rfl, rfl⟩
    · exact absurd ((told_concat_iff vain empty (.ok (some told)) nofun).2 rfl) (nothing told)

end Last

theorem Resolver.findCommit_finds (resolver : Resolver) (world : World) :
    ∃ exchanges found reached,
      (resolver.findCommit name address reference?).Ends world found reached ∧
        resolver.Dialogue world exchanges reached ∧
          Finds name address reference? exchanges found := by
  obtain ⟨reply, between, replies⟩ := (resolver.commit? address reference?).exists_ends
    (world.recording (.asked (.commit address reference?)))
  have asks : (resolver.askCommit address reference?).Ends world reply between := ends_ask replies
  have once : resolver.Dialogue world [.commit address reference? reply] between :=
    .asked replies (.ended _)
  by_cases fallback : reply = .ok none ∧ ∃ reference ∈ reference?, reference ≠ ""
  · -- there is a second question, and its reply settles what is found
    obtain ⟨rfl, given⟩ := fallback
    obtain ⟨reference, told⟩ :=
      Option.ne_none_iff_exists'.1 (mt given?_eq_none_iff.1 (not_not.2 given))
    obtain ⟨again, reached, replies⟩ := (resolver.commit? address none).exists_ends
      ((between.recording (.noted (.noReference name reference))).recording
        (.asked (.commit address none)))
    have asks_again : (resolver.askCommit address none).Ends _ again reached := ends_ask replies
    have twice : resolver.Dialogue between [.commit address none again] reached :=
      .noted _ (.asked replies (.ended _))
    refine ⟨_, _, reached, ?_, once.append twice, finds_concat [_] (by simp)
      ⟨_, _, rfl, fun _ => ⟨again, rfl⟩, fun last => absurd ⟨rfl, given⟩ last⟩⟩
    refine ends_bind asks ?_
    simp only [told, unresolved]
    exact ends_bind (ends_record _) (ends_settled asks_again (fun _ => rfl) fun _ => rfl)
  · refine ⟨_, _, between, ?_, once, finds_concat [] (List.forall_mem_nil _)
      ⟨_, _, rfl, fun again => absurd again fallback, fun _ => rfl⟩⟩
    refine ends_settled asks (fun _ => rfl) fun empty => ?_
    have told : given? reference? = none :=
      given?_eq_none_iff.2 fun given => fallback ⟨empty, given⟩
    simp only [told, unresolved]
    rfl

end Commits

/-! ## Checkouts -/

structure Conversation where
  address : Except Failure (Option String)
  commits : List Exchange := []
  checkouts : List Exchange := []

def Conversation.exchanges (conversation : Conversation) (name : String) : List Exchange :=
  .address name conversation.address :: (conversation.commits ++ conversation.checkouts)

/-- How a conversation goes on, and what comes of it. -/
structure Conforms (name : String) (reference? : Option String) (conversation : Conversation)
    (result : Except Failure (Option Checkout)) : Prop where
  absent : result = .ok none ↔ conversation.address = .ok none
  alone : (∀ address, conversation.address ≠ .ok (some address)) →
    conversation.commits = [] ∧ conversation.checkouts = []
  asks : ∀ address, conversation.address = .ok (some address) →
    AsksCommits address reference? conversation.commits
  checksOut : ∀ address commit, conversation.address = .ok (some address) →
    Told conversation.commits (.ok (some commit)) →
      ∃ reply, conversation.checkouts = [.checkout address name commit reply]
  spares : (∀ commit, ¬ Told conversation.commits (.ok (some commit))) → conversation.checkouts = []
  returns : ∀ checkout, result = .ok (some checkout) ↔
    conversation.address = .ok (some checkout.address) ∧
      Told conversation.commits (.ok (some checkout.commit)) ∧
        .checkout checkout.address name checkout.commit (.ok checkout.path) ∈ conversation.checkouts
  unresolved : ∀ address, conversation.address = .ok (some address) →
    (∀ commit, ¬ Told conversation.commits (.ok (some commit))) →
      (∀ failure, ¬ Told conversation.commits (.error failure)) →
        Faults name (unresolved address reference?) result
  notCheckedOut : ∀ address commit error,
    .checkout address name commit (.error (.file error)) ∈ conversation.checkouts →
      Faults name (.notCheckedOut address commit error) result
  raises : ∀ failure, Told conversation.commits (.error failure) →
    result = .error failure ∧ conversation.checkouts = []
  fails : ∀ failure, conversation.address = .error failure ∨
      ((∀ error, failure ≠ .file error) ∧ ∃ address commit,
        .checkout address name commit (.error failure) ∈ conversation.checkouts) →
    result = .error failure

section Conforms

variable {name address : String} {reference? : Option String}

theorem conforms_of_failed (failure : Failure) :
    Conforms name reference? ⟨.error failure, [], []⟩ (.error failure) := by
  constructor <;> simp [Told]

theorem conforms_of_absent : Conforms name reference? ⟨.ok none, [], []⟩ (.ok none) := by
  constructor <;> simp [Told]

theorem conforms_of_lost {commits : List Exchange} {failure : Failure}
    (finds : Finds name address reference? commits (.error failure)) :
    Conforms name reference? ⟨.ok (some address), commits, []⟩ (.error failure) := by
  have nothing (commit : String) : ¬ Told commits (.ok (some commit)) := fun told =>
    nomatch (finds.obtained commit).2 told
  constructor
  case absent => simp
  case alone => simp
  case asks =>
    rintro _ ⟨⟩
    exact finds.asks
  case checksOut => exact fun _ commit _ told => absurd told (nothing commit)
  case spares => exact fun _ => rfl
  case returns => simp
  case unresolved =>
    rintro _ ⟨⟩ _ nowhere
    obtain ⟨remote, fails⟩ := finds.unresolved nothing nowhere
    cases fails
    exact ⟨remote, rfl⟩
  case notCheckedOut => simp
  case raises =>
    intro failure raised
    cases finds.raises failure raised
    exact ⟨rfl, rfl⟩
  case fails => simp

def checkedOut (name address commit : String) (reply : Except Failure Path) :
    Except Failure (Option Checkout) :=
  (reply.mapError (Action.explained fun error =>
    .of (.notCheckedOut address commit error) (some name))).map fun path =>
      some ⟨address, commit, path⟩

theorem conforms_of_found {commits : List Exchange} {commit : String}
    (finds : Finds name address reference? commits (.ok commit)) (reply : Except Failure Path) :
    Conforms name reference? ⟨.ok (some address), commits, [.checkout address name commit reply]⟩
      (checkedOut name address commit reply) := by
  -- only one commit has been told, and nothing has failed on the way to it
  have told_iff (other : String) : Told commits (.ok (some other)) ↔ commit = other := by
    rw [← finds.obtained, Except.ok.injEq]
  have smooth (failure : Failure) : ¬ Told commits (.error failure) := fun raised =>
    nomatch finds.raises failure raised
  constructor
  case absent => cases reply <;> simp [checkedOut, Except.map, Except.mapError]
  case alone => simp
  case asks =>
    rintro _ ⟨⟩
    exact finds.asks
  case checksOut =>
    rintro _ _ ⟨⟩ told
    cases (told_iff _).1 told
    exact ⟨reply, rfl⟩
  case spares => exact fun nothing => absurd ((told_iff commit).2 rfl) (nothing commit)
  case returns =>
    rintro ⟨other, revision, place⟩
    constructor
    · intro same
      cases reply with
      | error failure => cases same
      | ok path =>
          cases same
          exact ⟨rfl, (told_iff commit).2 rfl, List.mem_cons_self⟩
    · rintro ⟨-, -, there⟩
      cases List.mem_singleton.1 there
      rfl
  case unresolved => exact fun _ _ nothing => absurd ((told_iff commit).2 rfl) (nothing commit)
  case notCheckedOut =>
    intro _ _ error fails
    cases List.mem_singleton.1 fails
    exact ⟨rfl, rfl⟩
  case raises => exact fun failure raised => absurd raised (smooth failure)
  case fails =>
    rintro failure (fails | ⟨other, _, _, fails⟩)
    · cases fails
    · cases List.mem_singleton.1 fails
      simp only [checkedOut, Except.mapError, Action.explained_of_ne other]
      rfl

end Conforms

namespace Resolver

section Protocol

variable (resolver : Resolver) (name : String) (reference? : Option String) (world : World)

theorem exists_conversation :
    ∃ conversation result reached,
      (resolver.checkOut? name reference?).Ends world result reached ∧
        resolver.Dialogue world (conversation.exchanges name) reached ∧
          Conforms name reference? conversation result := by
  obtain ⟨reply, told, replies⟩ :=
    (resolver.address? name).exists_ends (world.recording (.asked (.address name)))
  have asks : (ask (.address name) (resolver.address? name)).Ends world reply told :=
    ends_ask replies
  have opens : resolver.Dialogue world [.address name reply] told := .asked replies (.ended _)
  rcases reply with failure | _ | address
  · exact ⟨⟨_, [], []⟩, _, told, ends_bind_error asks, opens, conforms_of_failed failure⟩
  · exact ⟨⟨_, [], []⟩, .ok none, told, ends_bind asks rfl, opens, conforms_of_absent⟩
  · obtain ⟨commits, found, between, searches, dialogue, finds⟩ :=
      findCommit_finds resolver (told.recording (.noted (.resolving name reference?)))
    have searched : resolver.Dialogue world (.address name (.ok (some address)) :: commits) between :=
      opens.append (.noted _ dialogue)
    cases found with
    | error failure =>
        refine ⟨⟨_, commits, []⟩, .error failure, between, ?_, ?_, conforms_of_lost finds⟩
        · exact ends_bind asks (ends_bind (ends_record _) (ends_bind_error searches))
        · simpa [Conversation.exchanges] using searched
    | ok commit =>
        obtain ⟨reply, reached, replies⟩ := (resolver.checkOut address name commit).exists_ends
          (between.recording (.asked (.checkout address name commit)))
        refine ⟨⟨_, commits, [.checkout address name commit reply]⟩, _, reached, ?_, ?_,
          conforms_of_found finds reply⟩
        · refine ends_bind asks (ends_bind (ends_record _) (ends_bind searches ?_))
          exact ends_map (ends_explaining _ (ends_ask replies)) _
        · exact searched.append (.asked replies (.ended _))

/-- With every resolver, the run of a checkout is a conversation that keeps to the protocol: its
questions are put to the resolver, with its replies, and no others. If the resolver does not put
questions itself, they are those that come on record. -/
theorem checkOut?_conforms :
    ∃ conversation result reached,
      (resolver.checkOut? name reference?).Ends world result reached ∧
        resolver.Dialogue world (conversation.exchanges name) reached ∧
          Conforms name reference? conversation result ∧
            (resolver.Reticent → questions reached =
              questions world ++ (conversation.exchanges name).map Exchange.question) := by
  obtain ⟨conversation, result, reached, ends, dialogue, conforms⟩ :=
    exists_conversation resolver name reference? world
  exact ⟨conversation, result, reached, ends, dialogue, conforms, dialogue.questions⟩

end Protocol

def fallbackResolver : Resolver where
  address? _ := return some "origin"
  commit? _ reference? := return if reference? = none then some "f0" else none
  checkOut _ _ commit := return .fromRoot ["cache", commit]

theorem fallbackResolver_reticent : fallbackResolver.Reticent := by
  intro world exchange reached replies
  rcases exchange with ⟨_, _ | _⟩ | ⟨_, _, _ | _⟩ | ⟨_, _, _, _ | _⟩
  all_goals cases replies <;> rfl

theorem checkOut?_conforms_fallback :
    ∃ conversation reached,
      (fallbackResolver.checkOut? "jane" (some "v9")).Ends ⟨⟨∅, [], []⟩, []⟩
          (.ok (some ⟨"origin", "f0", .fromRoot ["cache", "f0"]⟩)) reached ∧
        Conforms "jane" (some "v9") conversation
            (.ok (some ⟨"origin", "f0", .fromRoot ["cache", "f0"]⟩)) ∧
          (conversation.exchanges "jane").map Exchange.question =
            [.address "jane", .commit "origin" (some "v9"), .commit "origin" none,
              .checkout "origin" "jane" "f0"] := by
  obtain ⟨conversation, result, reached, ends, -, conforms, asked⟩ :=
    checkOut?_conforms fallbackResolver "jane" (some "v9") ⟨⟨∅, [], []⟩, []⟩
  have asked := asked fallbackResolver_reticent
  cases result with
  | error failure => cases ends
  | ok checkout? =>
      cases ends
      exact ⟨conversation, _, rfl, conforms, asked.symm⟩

end Resolver

end Git

end Archetype
