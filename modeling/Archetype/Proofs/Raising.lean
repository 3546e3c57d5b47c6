import Archetype.Proofs.Conduct

namespace Archetype

def Failure.fault? : Failure → Option Fault
  | .fault found => some found
  | _ => none

namespace Action

variable {α β : Type} {allowed weaker : Fault → Prop}

def Raises (allowed : Fault → Prop) (work : Action α) : Prop :=
  ∀ world fault reached, work world = .error (.fault fault) reached → allowed fault

abbrev Faultless (work : Action α) : Prop :=
  work.Raises fun _ => False

theorem Raises.mono {work : Action α} (raises : work.Raises allowed)
    (implies : ∀ fault, allowed fault → weaker fault) : work.Raises weaker :=
  fun world fault reached ends => implies fault (raises world fault reached ends)

theorem Raises.of_faultless {work : Action α} (faultless : work.Faultless) :
    work.Raises allowed :=
  faultless.mono fun _ => False.elim

theorem raises_bind {work : Action α} {next : α → Action β} (first : work.Raises allowed)
    (rest : ∀ value, (next value).Raises allowed) : (work >>= next).Raises allowed := by
  intro world fault reached ends
  cases works : work world with
  | ok value between =>
      rw [bind_ok works] at ends
      exact rest value between fault reached ends
  | error failure between =>
      rw [bind_error works] at ends
      cases ends
      exact first world fault reached works

theorem raises_pure (value : α) : (pure value : Action α).Raises allowed := by
  rintro world fault reached ⟨⟩

theorem composes_raises (allowed : Fault → Prop) : Composes fun work => work.Raises allowed :=
  ⟨raises_pure, raises_bind⟩

theorem raises_throw {failure : Failure}
    (permitted : ∀ fault, failure.fault? = some fault → allowed fault) :
    (throw failure : Action α).Raises allowed := by
  rintro world fault reached ⟨⟩
  exact permitted fault rfl

theorem faultless_throw {failure : Failure} (other : failure.fault? = none) :
    (throw failure : Action α).Faultless :=
  raises_throw fun fault same => by rw [other] at same; cases same

theorem raises_fault {cause : Cause} {subject? : Option String}
    (permitted : allowed ⟨cause, subject?⟩) :
    (fault cause subject? : Action α).Raises allowed := by
  rintro world fault reached ⟨⟩
  exact permitted

theorem raises_record (event : Event) : (record event).Raises allowed := by
  rintro world fault reached ⟨⟩

theorem raises_disk : disk.Raises allowed := by
  rintro world fault reached ⟨⟩

theorem raises_granted (shown : String) (result : Except Refusal α) :
    (granted shown result).Raises allowed := by
  cases result with
  | ok value => exact raises_pure value
  | error refused => cases refused <;> exact (faultless_throw rfl).of_faultless

theorem raises_ofExcept {result : Except Failure α}
    (permitted : ∀ fault, result = .error (.fault fault) → allowed fault) :
    (ofExcept result).Raises allowed := by
  cases result with
  | ok value => exact raises_pure value
  | error failure =>
      refine raises_throw fun fault same => permitted fault ?_
      cases failure <;> cases same
      rfl

theorem raises_explaining {explain : FileError → Failure} {work : Action α}
    (raises : work.Raises allowed)
    (permitted : ∀ error fault, explain error = .fault fault → allowed fault) :
    (explaining explain work).Raises allowed := by
  intro world fault reached ends
  unfold explaining at ends
  cases works : work world with
  | ok value between => rw [works] at ends; cases ends
  | error failure between =>
      rw [works] at ends
      cases failure with
      | file error =>
          simp only [EStateM.Result.error.injEq] at ends
          exact permitted error fault ends.1
      | _ => cases ends <;> exact raises world fault reached works

theorem Fails.raises {permitted : Failure → Prop} {work : Action α} (fails : work.Fails permitted)
    (implies : ∀ fault, permitted (.fault fault) → allowed fault) : work.Raises allowed :=
  fun _ fault _ ends => implies fault (fails ends)

theorem faultless_readFile (name : FileName) : (readFile name).Faultless :=
  raises_bind raises_disk fun disk => raises_granted _ (disk.read name)

end Action

namespace Template

open Archetype.Action (raises_bind raises_pure raises_disk raises_record)

abbrev OfTransform (fault : Fault) : Prop :=
  fault.cause.stage = .transform

theorem Descriptor.raises_copyFiles (copier : Copier) (descriptor : Descriptor)
    (template target : Path) (replacements : Replacements) :
    (descriptor.copyFiles copier template target replacements).Raises OfTransform :=
  (descriptor.observes_copyFiles copier template target replacements).failure.raises
    fun fault copying => by cases copying with | fault stage => exact stage

abbrev OfDescriptor (fault : Fault) : Prop :=
  fault.cause.stage = .descriptor

namespace Descriptor

theorem stage_of_readDescriptorFile {path : Path} {content : ByteArray} {fault : Fault}
    (fails : readDescriptorFile path content = .error (.fault fault)) : OfDescriptor fault := by
  unfold readDescriptorFile at fails
  split at fails
  · cases fails
  · split at fails <;> cases fails
    rfl

theorem stage_of_ofFileValue {path : Path} {value : Value} {fault : Fault}
    (fails : ofFileValue path value = .error (.fault fault)) : OfDescriptor fault := by
  unfold ofFileValue at fails
  split at fails
  · cases fails
  · split at fails <;> cases fails
    rfl
  · cases fails
    rfl

theorem raises_load (path : Path) : (Descriptor.load path).Raises OfDescriptor := by
  refine raises_bind ?_ fun (content, executable) => Action.raises_ofExcept fun fault fails => ?_
  · exact Action.raises_explaining (Action.faultless_readFile _).of_faultless
      fun error fault same => by cases same; rfl
  · cases reads : readDescriptorFile path content with
    | error failure =>
        rw [reads] at fails
        cases fails
        exact stage_of_readDescriptorFile reads
    | ok value =>
        rw [reads] at fails
        exact stage_of_ofFileValue fails

end Descriptor

theorem raises_locate (resources : List Path) (roots : List FileName) (template : String) :
    (locate resources roots template).Raises fun fault => fault.cause.stage = .location := by
  refine raises_bind raises_disk fun disk => ?_
  split
  · exact raises_bind (raises_record _) fun _ => raises_pure _
  · exact Action.raises_fault rfl

end Template

namespace Hook

open Archetype.Action (raises_bind raises_pure raises_disk raises_record)
open Archetype.Template (Descriptor)

/-- The fault belongs to hooks, or the code of a module ends in it that is imported for a hook. -/
def Registry.OfHooks (registry : Registry) (fault : Fault) : Prop :=
  fault.cause.stage = .hook ∨
    ∃ name, registry.library.modules name = .error (.raised (.fault fault))

variable (registry : Registry)

theorem ofHooks_of_stage {failure : Failure}
    (belongs : ∃ fault, failure = .fault fault ∧ fault.cause.stage = .hook) {fault : Fault}
    (same : failure = .fault fault) : registry.OfHooks fault := by
  obtain ⟨_, rfl, stage⟩ := belongs
  cases same
  exact Or.inl stage

theorem raises_invoke (role : HookRole) (reference : String) (arguments : List Argument) :
    (registry.invoke role reference arguments).Raises registry.OfHooks := by
  intro world fault reached ends
  rw [Registry.invoke_eq] at ends
  cases resolved : registry.resolve reference with
  | error failure =>
      rw [resolved] at ends
      cases ends
      rcases Registry.fails_of_resolve resolved with reported | ⟨-, relative | raised⟩
      · exact ofHooks_of_stage registry reported.belongs rfl
      · cases relative.2
      · exact Or.inr ⟨_, raised⟩
  | ok target =>
      rw [resolved] at ends
      cases target with
      | value value =>
          simp only [EStateM.Result.error.injEq] at ends
          exact ofHooks_of_stage registry (Problem.stage_toFailure role reference _) ends.1
      | function function =>
          simp only at ends
          split at ends
          · cases ends
          · simp only [EStateM.Result.error.injEq] at ends
            exact ofHooks_of_stage registry (Problem.stage_toFailure role reference _) ends.1

theorem raises_extendData (descriptor : Descriptor) (data : Data) :
    (extendData registry descriptor data).Raises registry.OfHooks := by
  unfold extendData
  split
  · exact raises_pure data
  · refine raises_bind (raises_invoke registry _ _ _) fun answer => ?_
    split
    · exact raises_pure _
    · exact raises_pure _
    · exact Action.raises_fault (Or.inl rfl)
    · exact Action.raises_fault (Or.inl rfl)

theorem raises_replaceDescriptor (descriptor : Descriptor) (data : Data) :
    (replaceDescriptor registry descriptor data).Raises registry.OfHooks := by
  unfold replaceDescriptor
  split
  · exact raises_pure descriptor
  · refine raises_bind (raises_invoke registry _ _ _) fun answer => ?_
    split
    · exact raises_pure _
    · refine Action.raises_ofExcept fun fault fails => Or.inl ?_
      unfold ofReplacement at fails
      split at fails <;> cases fails
      rfl
    · exact Action.raises_fault (Or.inl rfl)

theorem raises_apply (template : String) (data : Data) (descriptor : Descriptor) :
    (apply registry template data descriptor).Raises registry.OfHooks :=
  raises_bind (raises_extendData registry descriptor _) fun extended =>
    raises_bind (raises_replaceDescriptor registry descriptor extended) fun _ => raises_pure _

theorem raises_finish (data : Data) (descriptor : Descriptor) :
    (finish registry data descriptor).Raises fun fault =>
      ∃ name, registry.library.modules name = .error (.raised (.fault fault)) := by
  unfold finish
  split
  · exact raises_pure none
  · rename_i reference _
    intro world fault reached ends
    have raises := raises_bind (raises_invoke registry .post reference
      [.data data, .descriptor descriptor]) fun _ => raises_pure ()
    unfold noting at ends
    split at ends
    · cases ends
    · rename_i found between works
      split at ends
      · cases ends
      · rename_i stage
        cases ends
        exact (raises _ _ _ works).resolve_left stage
    · rename_i failure between other works
      cases ends
      exact absurd rfl (other fault)

end Hook

end Archetype
