import Archetype.Proofs.HookCalls

namespace Archetype.Hook

namespace Registry

def Settles (registry : Registry) (reference : String) : Prop :=
  match registry.resolve reference with
  | .ok target => target.isFunction = true
  | .error failure => Reported reference failure

/-- A failure of the module that is imported for a reference: the module is relative to nothing, or
its own code fails. -/
inductive LetsThrough (registry : Registry) (reference : String) : Failure → Prop
  | relative (seeks : registry.Seeks reference)
      (named : (moduleOf reference).toList.head? = some '.') :
      LetsThrough registry reference (.relativeModule (moduleOf reference))
  | raised {failure : Failure} (seeks : registry.Seeks reference)
      (named : (moduleOf reference).toList.head? ≠ some '.')
      (raises : registry.library.modules (moduleOf reference) = .error (.raised failure)) :
      LetsThrough registry reference failure

variable {registry : Registry} {reference : String} {failure : Failure}

theorem find_of_seeks (seeks : registry.Seeks reference) :
    registry.resolve reference = (do
      let found ← registry.library.find reference (moduleOf reference)
      match found (Text.split '.' (String.ofList (splitReference reference.toList).2)) with
      | some target => callable reference target
      | none => unresolved reference (.noAttribute (moduleOf reference)
          (String.ofList (splitReference reference.toList).2))) := by
  have named : ((splitReference reference.toList).1.isEmpty ||
      (splitReference reference.toList).2.isEmpty) = false := by
    simp [seeks.module, seeks.member]
  unfold Registry.resolve Library.member moduleOf
  rw [seeks.unregistered]
  simp only [seeks.uninstalled, named, Bool.false_eq_true, if_false]
  cases registry.library.find reference
      (String.ofList (splitReference reference.toList).1) with
  | error problem => rfl
  | ok found =>
      simp only [bind, Except.bind]
      cases found (Text.split '.' (String.ofList (splitReference reference.toList).2)) <;> rfl

theorem LetsThrough.resolve_eq (lets : registry.LetsThrough reference failure) :
    registry.resolve reference = .error failure := by
  cases lets with
  | relative seeks named =>
      rw [find_of_seeks seeks, Library.find, if_pos named]
      rfl
  | raised seeks named raises =>
      rw [find_of_seeks seeks, Library.find, if_neg named, raises]
      rfl

theorem reported_or_letsThrough (fails : registry.resolve reference = .error failure) :
    Reported reference failure ∨ registry.LetsThrough reference failure := by
  rcases fails_of_resolve fails with reported | ⟨seeks, ⟨named, rfl⟩ | raises⟩
  · exact Or.inl reported
  · exact Or.inr (.relative seeks named)
  · by_cases named : (moduleOf reference).toList.head? = some '.'
    · -- such a module is not asked for, so the failure is that of its name
      have relative := LetsThrough.relative seeks named
      have same : failure = .relativeModule (moduleOf reference) := by
        simpa [fails] using relative.resolve_eq
      exact Or.inr (same ▸ relative)
    · exact Or.inr (.raised seeks named raises)

theorem isFunction_of_callable {target found : Target}
    (calls : callable reference found = .ok target) : target.isFunction = true := by
  unfold callable at calls
  split at calls
  · rename_i function
    cases calls
    exact function
  · cases calls

theorem registered_or_isFunction {target : Target}
    (resolves : registry.resolve reference = .ok target) :
    registry.hooks.get? reference = some target ∨ target.isFunction = true := by
  unfold resolve at resolves
  split at resolves
  · rename_i registered
    cases resolves
    exact Or.inl registered
  · split at resolves
    · exact Or.inr (isFunction_of_callable resolves)
    · cases resolves
    · cases member : registry.library.member reference with
      | error problem => simp [member, bind, Except.bind] at resolves
      | ok found =>
          simp only [member, bind, Except.bind] at resolves
          exact Or.inr (isFunction_of_callable resolves)

theorem resolve_of_registered {target : Target}
    (registered : registry.hooks.get? reference = some target) :
    registry.resolve reference = .ok target := by
  unfold resolve
  rw [registered]

/-- The failures that are let through end the search, and a reference is settled exactly if each of
them is a fault of hooks that names it and what is registered under it, if anything, is a
function. -/
theorem resolve_settles_iff (registry : Registry) (reference : String) :
    (∀ failure, registry.LetsThrough reference failure →
      registry.resolve reference = .error failure) ∧
    (registry.Settles reference ↔
      (∀ target, registry.hooks.get? reference = some target → target.isFunction = true) ∧
      ∀ failure, registry.LetsThrough reference failure → Reported reference failure) := by
  refine ⟨fun failure lets => lets.resolve_eq, ?_⟩
  unfold Settles
  constructor
  · intro settles
    constructor
    · intro target registered
      rw [resolve_of_registered registered] at settles
      exact settles
    · intro failure lets
      rw [lets.resolve_eq] at settles
      exact settles
  · rintro ⟨functions, reports⟩
    cases resolves : registry.resolve reference with
    | ok target => exact (registered_or_isFunction resolves).elim (functions target) id
    | error failure => exact (reported_or_letsThrough resolves).elim id (reports failure)

theorem letsThrough_relative :
    ({} : Registry).LetsThrough ".foo:bar" (.relativeModule ".foo") :=
  .relative ⟨rfl, rfl, by decide, by decide⟩ (by decide)

theorem resolve_settles_unknown :
    ({} : Registry).Settles "foo:bar" ∧
      ({} : Registry).resolve ".foo:bar" = .error (.relativeModule ".foo") := by
  refine ⟨(resolve_settles_iff {} "foo:bar").2.2 ⟨nofun, ?_⟩,
    (resolve_settles_iff {} ".foo:bar").1 _ letsThrough_relative⟩
  rintro failure (⟨-, named⟩ | ⟨-, -, raises⟩)
  · exact absurd named (by decide)
  · cases raises

/-- A module that is named relative to nothing ends the search for a hook in a failure that is no
fault of hooks. -/
theorem resolve_relative :
    ({} : Registry).resolve ".foo:bar" = .error (.relativeModule ".foo") ∧
      ¬ ({} : Registry).Settles ".foo:bar" := by
  have fails := letsThrough_relative.resolve_eq
  refine ⟨fails, fun settles => ?_⟩
  rw [Settles, fails] at settles
  obtain ⟨cause, -, ⟨⟩⟩ := settles

end Registry

end Archetype.Hook
