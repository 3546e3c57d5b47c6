import Archetype.Hook.Application
import Archetype.Proofs.Completions

namespace Archetype.Hook

def moduleOf (reference : String) : String :=
  String.ofList (splitReference reference.toList).1

/-- The reference is neither registered nor offered by a package: a module is imported for it. -/
structure Registry.Seeks (registry : Registry) (reference : String) : Prop where
  unregistered : registry.hooks.get? reference = none
  uninstalled : registry.library.installed registry.group reference = none
  module : (splitReference reference.toList).1 ≠ []
  member : (splitReference reference.toList).2 ≠ []

def Reported (reference : String) (failure : Failure) : Prop :=
  ∃ cause : Cause, cause.stage = .hook ∧ failure = .of cause (some reference)

theorem Reported.belongs {reference : String} {failure : Failure}
    (reported : Reported reference failure) :
    ∃ fault, failure = .fault fault ∧ fault.cause.stage = .hook := by
  obtain ⟨cause, stage, same⟩ := reported
  exact ⟨_, same, stage⟩

theorem Problem.stage_toFailure (role : HookRole) (reference : String) (problem : Problem) :
    ∃ fault, problem.toFailure role reference = .fault fault ∧ fault.cause.stage = .hook := by
  cases problem with
  | own stage? text subject? => exact ⟨_, rfl, rfl⟩
  | other text violations => exact ⟨_, rfl, rfl⟩

namespace Registry

variable {registry : Registry} {reference : String} {failure : Failure}

theorem fails_of_unresolved {α : Type} {cause : Cause} (stage : cause.stage = .hook)
    (fails : (unresolved reference cause : Except Failure α) = .error failure) :
    Reported reference failure := by
  cases fails
  exact ⟨cause, stage, rfl⟩

theorem fails_of_callable {target : Target}
    (fails : callable reference target = .error failure) : Reported reference failure := by
  unfold callable at fails
  split at fails
  · cases fails
  · exact fails_of_unresolved rfl fails

theorem fails_of_find {library : Library} {name : String}
    (fails : library.find reference name = .error failure) :
    Reported reference failure ∨
      name.toList.head? = some '.' ∧ failure = .relativeModule name ∨
      library.modules name = .error (.raised failure) := by
  unfold Library.find at fails
  split at fails
  · rename_i relative
    cases fails
    exact Or.inr (Or.inl ⟨relative, rfl⟩)
  · split at fails
    · cases fails
    · exact Or.inl (fails_of_unresolved rfl fails)
    · rename_i raised
      cases fails
      exact Or.inr (Or.inr raised)

theorem fails_of_member {library : Library}
    (fails : library.member reference = .error failure) :
    Reported reference failure ∨
      ((splitReference reference.toList).1 ≠ [] ∧ (splitReference reference.toList).2 ≠ []) ∧
        ((moduleOf reference).toList.head? = some '.' ∧
            failure = .relativeModule (moduleOf reference) ∨
          library.modules (moduleOf reference) = .error (.raised failure)) := by
  unfold Library.member at fails
  simp only at fails
  split at fails
  · exact Or.inl (fails_of_unresolved rfl fails)
  · rename_i named
    simp only [Bool.or_eq_true, List.isEmpty_iff, not_or] at named
    cases found : library.find reference (moduleOf reference) with
    | error problem =>
        rw [moduleOf] at found
        simp only [found, bind, Except.bind] at fails
        cases fails
        exact (fails_of_find found).imp_right fun way => ⟨named, way⟩
    | ok module =>
        rw [moduleOf] at found
        simp only [found, bind, Except.bind] at fails
        split at fails
        · cases fails
        · exact Or.inl (fails_of_unresolved rfl fails)

theorem fails_of_resolve (fails : registry.resolve reference = .error failure) :
    Reported reference failure ∨
      registry.Seeks reference ∧
        ((moduleOf reference).toList.head? = some '.' ∧
            failure = .relativeModule (moduleOf reference) ∨
          registry.library.modules (moduleOf reference) = .error (.raised failure)) := by
  unfold resolve at fails
  split at fails
  · cases fails
  · rename_i unregistered
    split at fails
    · exact Or.inl (fails_of_callable fails)
    · exact Or.inl (fails_of_unresolved rfl fails)
    · rename_i uninstalled
      cases member : registry.library.member reference with
      | error problem =>
          simp only [member, bind, Except.bind] at fails
          cases fails
          exact (fails_of_member member).imp_right fun ⟨⟨module, named⟩, way⟩ =>
            ⟨⟨unregistered, uninstalled, module, named⟩, way⟩
      | ok target =>
          simp only [member, bind, Except.bind] at fails
          exact Or.inl (fails_of_callable fails)

def afterCall (role : HookRole) (reference : String) (arguments : List Argument)
    (function : Function) (world : World) : World where
  disk := (function.run arguments world.disk).2
  journal := world.journal ++ [.noted (.calling role reference)] ++
    [.called ⟨role, reference, function.name, arguments⟩]

theorem invoke_eq (registry : Registry) (role : HookRole) (reference : String)
    (arguments : List Argument) (world : World) :
    registry.invoke role reference arguments world =
      match registry.resolve reference with
      | .error failure => .error failure world
      | .ok (.value value) => .error ((Problem.other (notFunction value) []).toFailure role reference)
          { world with journal := world.journal ++ [.noted (.calling role reference)] }
      | .ok (.function function) =>
        match (function.run arguments world.disk).1 with
        | .ok answer => .ok answer (afterCall role reference arguments function world)
        | .error problem => .error (problem.toFailure role reference)
            (afterCall role reference arguments function world) := by
  unfold invoke
  cases registry.resolve reference with
  | error failure => rfl
  | ok target =>
      cases target with
      | value value => rfl
      | function function =>
          have calls : Action.ofExcept (Except.ok (Target.function function)) world =
              .ok (.function function) world := rfl
          have notes : Action.note (.calling role reference) world = .ok () { world with
              journal := world.journal ++ [.noted (.calling role reference)] } := rfl
          have records : Action.record (.called ⟨role, reference, function.name, arguments⟩)
              { world with journal := world.journal ++ [.noted (.calling role reference)] } =
                .ok () { world with
                  journal := world.journal ++ [.noted (.calling role reference)] ++
                    [.called ⟨role, reference, function.name, arguments⟩] } := rfl
          rw [Action.bind_ok calls, Action.bind_ok notes]
          dsimp only
          rw [Action.bind_ok records, Action.disk_bind]
          unfold afterCall
          dsimp only
          cases (function.run arguments world.disk).1 with
          | ok answer => rfl
          | error problem => rfl

end Registry

end Archetype.Hook
