import TargetCatalog.Definitions.Basic
import TargetCatalog.Proofs.Machine.Catalogue

/-!
# Runs of a builder that have to succeed

A run of declarations of one kind goes through when each of them is in order by itself and no name
comes twice, among those registered before and those of the run. That depends on no order.
-/

namespace TargetCatalog.RegistryBuilder

open MachineVariant

structure WellFormed (b : RegistryBuilder) : Prop where
  archs : b.archs.WellFormed
  machines : b.machines.WellFormed

theorem wellFormed_empty : empty.WellFormed :=
  ⟨ArchCatalogue.wellFormed_empty, MachineCatalogue.wellFormed_empty⟩

theorem run_attempt_arch (b : RegistryBuilder) (d : ArchDef) :
    (attempt (.arch d)).run b =
      match (ArchCatalogue.register d).run b.archs with
      | .ok i archs => .ok (.arch i) { b with archs := archs }
      | .error e archs => .error e { b with archs := archs } := by
  rw [attempt, EStateM.run_bind, EStateM.run, registerArch]
  cases (ArchCatalogue.register d).run b.archs <;> rfl

theorem run_attempt_machine (b : RegistryBuilder) (name : String) (entries : List String) :
    (attempt (.machine name entries)).run b =
      match (MachineCatalogue.register b.archs name entries).run b.machines with
      | .ok new machines => .ok (.machines new) { b with machines := machines }
      | .error e machines => .error e { b with machines := machines } := by
  rw [attempt, EStateM.run_bind, EStateM.run, registerMachine]
  cases (MachineCatalogue.register b.archs name entries).run b.machines <;> rfl

theorem attempt_arch_eq_ok_iff (b after : RegistryBuilder) (d : ArchDef) (added : Added) :
    (attempt (.arch d)).run b = .ok added after ↔ ∃ i archs,
      (ArchCatalogue.register d).run b.archs = .ok i archs ∧ added = .arch i ∧
        after = { b with archs := archs } := by
  rw [run_attempt_arch]
  cases (ArchCatalogue.register d).run b.archs with
  | error e archs => simp
  | ok i archs => simp [eq_comm]

theorem attempt_machine_eq_ok_iff (b after : RegistryBuilder) (name : String)
    (entries : List String) (added : Added) :
    (attempt (.machine name entries)).run b = .ok added after ↔ ∃ new machines,
      (MachineCatalogue.register b.archs name entries).run b.machines = .ok new machines ∧
        added = .machines new ∧ after = { b with machines := machines } := by
  rw [run_attempt_machine]
  cases (MachineCatalogue.register b.archs name entries).run b.machines with
  | error e machines => simp
  | ok new machines => simp [eq_comm]

theorem eq_of_attempt_eq_error {b after : RegistryBuilder} {s : BuildStep} {e : RegistryError}
    (h : (attempt s).run b = .error e after) : after = b := by
  cases s with
  | arch d =>
    rw [run_attempt_arch] at h
    split at h
    · cases h
    · rename_i hRegister
      cases h
      rw [ArchCatalogue.eq_of_register_eq_error hRegister]
  | machine name entries =>
    rw [run_attempt_machine] at h
    split at h
    · cases h
    · rename_i hRegister
      cases h
      rw [MachineCatalogue.eq_of_register_eq_error hRegister]

theorem WellFormed.attempt {b after : RegistryBuilder} (h : b.WellFormed) {s : BuildStep}
    {added : Added} (hAttempt : (RegistryBuilder.attempt s).run b = .ok added after) :
    after.WellFormed := by
  cases s with
  | arch d =>
    obtain ⟨i, archs, hRegister, -, rfl⟩ := (attempt_arch_eq_ok_iff ..).mp hAttempt
    exact ⟨h.archs.register hRegister, h.machines⟩
  | machine name entries =>
    obtain ⟨new, machines, hRegister, -, rfl⟩ := (attempt_machine_eq_ok_iff ..).mp hAttempt
    exact ⟨h.archs, h.machines.register hRegister⟩

/-- A run of architectures fails for their declarations alone, and leaves the machines as they
are. -/
theorem appendsNames_arch (machines : MachineCatalogue) :
    AppendsNames (fun d => attempt (.arch d)) (fun b => b.WellFormed ∧ b.machines = machines)
      (fun b => b.archs.names) (fun d => [Text.trim d.name]) ArchDef.Valid where
  nodup b h := h.1.archs.agrees.nodup
  succeeds b d h := by
    rw [← h.1.archs.exists_register_iff]
    constructor
    · rintro ⟨added, after, hAttempt⟩
      obtain ⟨i, archs, hRegister, -⟩ := (attempt_arch_eq_ok_iff ..).mp hAttempt
      exact ⟨i, archs, hRegister⟩
    · rintro ⟨i, archs, hRegister⟩
      exact ⟨_, _, (attempt_arch_eq_ok_iff b _ d _).mpr ⟨i, archs, hRegister, rfl, rfl⟩⟩
  next b d added after h hAttempt := by
    have hAfter := h.1.attempt hAttempt
    obtain ⟨i, archs, hRegister, -, rfl⟩ := (attempt_arch_eq_ok_iff ..).mp hAttempt
    exact ⟨⟨hAfter, h.2⟩, ArchCatalogue.names_of_register hRegister⟩

theorem appendsNames_machine (archs : ArchCatalogue) :
    AppendsNames (fun m : MachineDef => attempt (.machine m.name m.archs.entries))
      (fun b => b.WellFormed ∧ b.archs = archs) (fun b => b.machines.names)
      (fun m => (expand m.name m.archs.entries).map (·.name))
      (fun m => ∀ v ∈ expand m.name m.archs.entries, v.firstUnknown? archs = none) where
  nodup b h := h.1.machines.agrees.nodup
  succeeds b m h := by
    rw [and_comm, ← h.2, ← h.1.machines.exists_register_iff]
    constructor
    · rintro ⟨added, after, hAttempt⟩
      obtain ⟨new, machines, hRegister, -⟩ := (attempt_machine_eq_ok_iff ..).mp hAttempt
      exact ⟨new, machines, hRegister⟩
    · rintro ⟨new, machines, hRegister⟩
      exact ⟨_, _, (attempt_machine_eq_ok_iff b _ m.name m.archs.entries _).mpr
        ⟨new, machines, hRegister, rfl, rfl⟩⟩
  next b m added after h hAttempt := by
    have hAfter := h.1.attempt hAttempt
    obtain ⟨new, machines, hRegister, -, rfl⟩ := (attempt_machine_eq_ok_iff ..).mp hAttempt
    exact ⟨⟨hAfter, h.2⟩, MachineCatalogue.names_of_register hRegister⟩

theorem runAll_append_eq_ok_iff (b last : RegistryBuilder) (first second : List BuildStep) :
    (runAll (first ++ second)).run b = .ok () last ↔
      ∃ middle, (runAll first).run b = .ok () middle ∧
        (runAll second).run middle = .ok () last := by
  rw [runAll, List.forM_eq_forM, List.forM_append, run_bind_eq_ok_iff]
  constructor
  · rintro ⟨⟨⟩, middle, hFirst, hSecond⟩
    exact ⟨middle, hFirst, hSecond⟩
  · rintro ⟨middle, hFirst, hSecond⟩
    exact ⟨⟨⟩, middle, hFirst, hSecond⟩

section Runs

variable {b : RegistryBuilder}

theorem WellFormed.runAll_archs (h : b.WellFormed) {ds : List ArchDef} {after : RegistryBuilder}
    (hRun : (runAll (ds.map .arch)).run b = .ok () after) :
    after.WellFormed ∧ after.machines = b.machines ∧
      after.archs.names = b.archs.names ++ ds.map fun d => Text.trim d.name := by
  rw [runAll, List.forM_eq_forM, List.forM_map] at hRun
  obtain ⟨⟨hAfter, hMachines⟩, hNames⟩ :=
    (appendsNames_arch b.machines).forM_eq_ok ⟨h, rfl⟩ hRun
  exact ⟨hAfter, hMachines, by rw [hNames, List.map_eq_flatMap]⟩

theorem WellFormed.exists_runAll_archs_iff (h : b.WellFormed) (ds : List ArchDef) :
    (∃ after, (runAll (ds.map .arch)).run b = .ok () after) ↔
      (∀ d ∈ ds, d.Valid) ∧ (b.archs.names ++ ds.map fun d => Text.trim d.name).Nodup := by
  rw [runAll, List.forM_eq_forM, List.forM_map, List.map_eq_flatMap]
  exact (appendsNames_arch b.machines).exists_forM_iff ⟨h, rfl⟩ ds

theorem WellFormed.exists_runAll_machines_iff (h : b.WellFormed) (ms : List MachineDef) :
    (∃ after, (runAll (ms.map fun m => .machine m.name m.archs.entries)).run b =
        .ok () after) ↔
      (∀ m ∈ ms, ∀ v ∈ expand m.name m.archs.entries, v.firstUnknown? b.archs = none) ∧
        (b.machines.names ++
          ms.flatMap fun m => (expand m.name m.archs.entries).map (·.name)).Nodup := by
  rw [runAll, List.forM_eq_forM, List.forM_map]
  exact (appendsNames_machine b.archs).exists_forM_iff ⟨h, rfl⟩ ms

end Runs

end TargetCatalog.RegistryBuilder
