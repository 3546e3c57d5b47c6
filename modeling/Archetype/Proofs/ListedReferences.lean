import Archetype.Proofs.Fetching
import Archetype.Proofs.Tables

namespace Archetype.Git

/-- The line has a first tab with something before and after it; without blanks at their ends these are
a commit and a name. -/
def Gives (line name commit : String) : Prop :=
  ∃ before after : String, before ≠ "" ∧ after ≠ "" ∧ '\t' ∉ before.toList ∧
    line = before ++ "\t" ++ after ∧ name = Text.strip after ∧ commit = Text.strip before

def LastGives (lines : List String) (name commit : String) : Prop :=
  ∃ earlier line later, lines = earlier ++ line :: later ∧ Gives line name commit ∧
    ∀ other ∈ later, ∀ another, ¬ Gives other name another

def FirstGives (names lines : List String) (commit : String) : Prop :=
  ∃ sooner name later, names = sooner ++ name :: later ∧ LastGives lines name commit ∧
    ∀ other ∈ sooner, ∀ line ∈ lines, ∀ another, ¬ Gives line other another

def Distinct (lines : List String) : Prop :=
  lines.Pairwise fun first second =>
    ∀ name commit another, Gives first name commit → ¬ Gives second name another

theorem parseLine_eq_some_iff {line name commit : String} :
    parseLine line = some (name, commit) ↔ Gives line name commit := by
  unfold parseLine
  constructor
  · intro parses
    split at parses
    · rename_i before after cut
      obtain ⟨free, made⟩ := Text.cutFirst_eq_some_iff.1 cut
      split at parses
      · cases parses
      · rename_i more
        simp only [Bool.or_eq_true, List.isEmpty_iff, not_or] at more
        cases parses
        refine ⟨.ofList before, .ofList after, ?_, ?_, by simpa using free, ?_, rfl, rfl⟩
        · simpa using more.1
        · simpa using more.2
        · rw [← String.toList_inj, made]
          simp
    · cases parses
  · rintro ⟨before, after, more, more_after, free, rfl, rfl, rfl⟩
    have characters : (before ++ "\t" ++ after).toList = before.toList ++ '\t' :: after.toList := by
      simp
    rw [characters, Text.cutFirst_append free]
    simp [more, more_after]

def commitFor? (name line : String) : Option String :=
  (parseLine line).bind fun entry => if entry.1 = name then some entry.2 else none

theorem commitFor?_eq_some_iff {name line commit : String} :
    commitFor? name line = some commit ↔ Gives line name commit := by
  rw [← parseLine_eq_some_iff, commitFor?, Option.bind_eq_some_iff]
  constructor
  · rintro ⟨⟨other, given⟩, parses, same⟩
    rw [Option.ite_none_right_eq_some] at same
    obtain ⟨rfl, same⟩ := same
    cases same
    exact parses
  · exact fun parses => ⟨_, parses, if_pos rfl⟩

theorem commitFor?_eq_none_iff {name line : String} :
    commitFor? name line = none ↔ ∀ commit, ¬ Gives line name commit := by
  simp only [Option.eq_none_iff_forall_ne_some, ne_eq, commitFor?_eq_some_iff]

theorem get?_parseListing (listing name : String) : (parseListing listing).get? name =
    (Text.lines listing).reverse.findSome? (commitFor? name) := by
  rw [parseListing, Table.ofList, Table.get?_insertAll, Table.get?_empty, Option.or_none,
    ← List.filterMap_reverse]
  generalize (Text.lines listing).reverse = lines
  induction lines with
  | nil => rfl
  | cons line rest ih =>
      rw [List.findSome?_cons, commitFor?, List.filterMap_cons]
      cases parseLine line with
      | none => exact ih
      | some entry =>
          by_cases here : entry.1 = name
          · simp [here]
          · simpa [here] using ih

theorem get?_parseListing_eq_some_iff {listing name commit : String} :
    (parseListing listing).get? name = some commit ↔ LastGives (Text.lines listing) name commit := by
  rw [get?_parseListing, List.findSome?_eq_some_iff]
  constructor
  · rintro ⟨later, line, earlier, reversed, gives, none⟩
    refine ⟨earlier.reverse, line, later.reverse, ?_, commitFor?_eq_some_iff.1 gives,
      fun other member => commitFor?_eq_none_iff.1 (none other (List.mem_reverse.1 member))⟩
    rw [← List.reverse_reverse (Text.lines listing), reversed]
    simp
  · rintro ⟨earlier, line, later, lines, gives, none⟩
    refine ⟨later.reverse, line, earlier.reverse, by simp [lines], commitFor?_eq_some_iff.2 gives,
      fun other member => commitFor?_eq_none_iff.2 (none other (List.mem_reverse.1 member))⟩

theorem get?_parseListing_eq_none_iff {listing name : String} :
    (parseListing listing).get? name = none ↔
      ∀ line ∈ Text.lines listing, ∀ commit, ¬ Gives line name commit := by
  simp only [get?_parseListing, List.findSome?_eq_none_iff, List.mem_reverse, commitFor?_eq_none_iff]

theorem commitIn?_eq_some_iff {listing commit : String} {reference? : Option String} :
    commitIn? listing reference? = some commit ↔
      FirstGives (candidates reference?) (Text.lines listing) commit := by
  simp only [commitIn?, FirstGives, List.findSome?_eq_some_iff, get?_parseListing_eq_some_iff,
    get?_parseListing_eq_none_iff]

theorem commitIn?_ne_none_iff {listing : String} {reference? : Option String} :
    commitIn? listing reference? ≠ none ↔ ∃ line ∈ Text.lines listing,
      ∃ name ∈ candidates reference?, ∃ commit, Gives line name commit := by
  simp only [commitIn?, ne_eq, List.findSome?_eq_none_iff, get?_parseListing_eq_none_iff, not_forall,
    not_not, exists_prop]
  exact ⟨fun ⟨name, listed, line, member, gives⟩ => ⟨line, member, name, listed, gives⟩,
    fun ⟨line, member, name, listed, gives⟩ => ⟨name, listed, line, member, gives⟩⟩

theorem Distinct.perm {lines other : List String} (distinct : Distinct lines)
    (perm : other.Perm lines) : Distinct other :=
  (perm.pairwise_iff fun apart name commit another gives gives_other =>
    apart name another commit gives_other gives).2 distinct

theorem Distinct.lastGives_iff {lines : List String} (distinct : Distinct lines)
    {name commit : String} :
    LastGives lines name commit ↔ ∃ line ∈ lines, Gives line name commit := by
  constructor
  · rintro ⟨earlier, line, later, rfl, gives, -⟩
    exact ⟨line, by simp, gives⟩
  · rintro ⟨line, member, gives⟩
    obtain ⟨earlier, later, rfl⟩ := List.append_of_mem member
    have apart := (List.pairwise_cons.1 (List.pairwise_append.1 distinct).2.1).1
    exact ⟨earlier, line, later, rfl, gives, fun other inside another =>
      apart other inside name commit another gives⟩

theorem FirstGives.perm {names lines other : List String} {commit : String}
    (distinct : Distinct lines) (perm : other.Perm lines) :
    FirstGives names other commit ↔ FirstGives names lines commit := by
  simp only [FirstGives, (distinct.perm perm).lastGives_iff, distinct.lastGives_iff, perm.mem_iff]

theorem given?_of_ne {reference? : Option String}
    (given : ∀ reference ∈ reference?, reference ≠ "") : given? reference? = reference? := by
  cases reference? with
  | none => rfl
  | some reference =>
      have kept : (!reference.isEmpty) = true := by simp [given reference rfl]
      exact if_pos kept

theorem candidates_of_ne {reference? : Option String}
    (given : ∀ reference ∈ reference?, reference ≠ "") :
    let asked := reference?.getD "HEAD"
    candidates reference? = if asked = "HEAD" then ["HEAD"]
      else ["refs/tags/" ++ asked ++ "^\x7b\x7d", "refs/tags/" ++ asked, "refs/heads/" ++ asked,
        asked] := by
  rw [candidates, given?_of_ne given]
  cases reference? <;> rfl

namespace Client

variable (client : Client) (address : String) (reference? : Option String) (world : World)

def listing : Invocation :=
  ⟨[client.program, "ls-remote", address, reference?.getD "HEAD"], none⟩

def Lists (listing : String) : Prop :=
  ∃ errors, client.answer (client.listing address reference?) world = .finished 0 listing errors

variable {client address reference? world}

theorem commit?_of_lists (given : ∀ reference ∈ reference?, reference ≠ "" ∧ isCommit reference = false)
    {listing : String} (lists : client.Lists address reference? world listing) :
    client.commit? address reference? world = .ok (commitIn? listing reference?)
      (client.called (client.listing address reference?) world) := by
  obtain ⟨errors, answers⟩ := lists
  have searched : isCommit (reference?.getD "HEAD") = false := by
    cases reference? with
    | none => decide
    | some reference => exact (given reference rfl).2
  have calls : client.call ["ls-remote", address, reference?.getD "HEAD"] none world =
      .ok (0, listing, errors) (client.called (client.listing address reference?) world) := by
    unfold Client.listing at answers ⊢
    simp only [client.call_eq, Option.map_none, answers]
  rw [commit?, given?_of_ne fun reference there => (given reference there).1, defaultReference,
    searched]
  exact Action.bind_ok calls _

/-- Git is called once. The answer is the commit that the last line gives the first of the names that
the reference can stand for, if a line gives one of them a commit, and none otherwise; lines that give
different names can come in any order. -/
theorem commit?_first (client : Client) (address : String) (reference? : Option String)
    (world : World) (listing : String)
    (given : ∀ reference ∈ reference?, reference ≠ "" ∧ isCommit reference = false)
    (lists : client.Lists address reference? world listing) :
    let asked := reference?.getD "HEAD"
    let invocation : Invocation := ⟨[client.program, "ls-remote", address, asked], none⟩
    let names := if asked = "HEAD" then ["HEAD"]
      else ["refs/tags/" ++ asked ++ "^\x7b\x7d", "refs/tags/" ++ asked, "refs/heads/" ++ asked,
        asked]
    ∃ commit? reached, client.commit? address reference? world = .ok commit? reached ∧
      reached.journal = world.journal ++
        [.noted (.running (" ".intercalate invocation.arguments)), .ran invocation] ∧
      (∀ commit, commit? = some commit ↔ FirstGives names (Text.lines listing) commit) ∧
      (commit? ≠ none ↔ ∃ line ∈ Text.lines listing, ∃ name ∈ names, ∃ commit,
        Gives line name commit) ∧
      ∀ (other : Client) (place : String) (elsewhere : World) (permuted : String),
        other.Lists place reference? elsewhere permuted →
        (Text.lines permuted).Perm (Text.lines listing) → Distinct (Text.lines listing) →
        ∃ reached, other.commit? place reference? elsewhere = .ok commit? reached := by
  intro asked invocation names
  have named : candidates reference? = names :=
    candidates_of_ne fun reference there => (given reference there).1
  refine ⟨_, _, commit?_of_lists given lists, ?_, fun commit => ?_, ?_, ?_⟩
  · exact List.append_assoc _ _ _
  · rw [commitIn?_eq_some_iff, named]
  · rw [commitIn?_ne_none_iff, named]
  · intro other place elsewhere permuted permutes perm distinct
    have same : commitIn? permuted reference? = commitIn? listing reference? := by
      refine Option.ext fun commit => ?_
      rw [commitIn?_eq_some_iff, commitIn?_eq_some_iff, FirstGives.perm distinct perm]
    exact ⟨_, same ▸ commit?_of_lists given permutes⟩

def tagListing : String :=
  "1a\trefs/heads/v1\n2b\trefs/tags/x/v1\nno tab\n3c\trefs/tags/v1\n4d\trefs/tags/v1^\x7b\x7d\n"

def tagClient : Client where
  cache := .fromRoot ["cache"]
  run world _ := (.finished 0 tagListing "", world.disk)

theorem commit?_first_peeled :
    ∃ reached, tagClient.commit? "origin" (some "v1") ⟨⟨∅, [], []⟩, []⟩ = .ok (some "4d") reached ∧
      FirstGives ["refs/tags/v1^\x7b\x7d", "refs/tags/v1", "refs/heads/v1", "v1"]
        (Text.lines tagListing) "4d" := by
  have given : ∀ reference ∈ some "v1", reference ≠ "" ∧ isCommit reference = false := by
    rintro _ ⟨⟩
    decide
  have lists : tagClient.Lists "origin" (some "v1") ⟨⟨∅, [], []⟩, []⟩ tagListing := ⟨"", rfl⟩
  have read : commitIn? tagListing (some "v1") = some "4d" := by decide
  obtain ⟨commit?, reached, ends, -, first, -⟩ := commit?_first _ _ _ _ _ given lists
  have told := commit?_of_lists given lists
  rw [read, ends] at told
  cases told
  exact ⟨_, ends, (first "4d").1 rfl⟩

end Client

end Archetype.Git
