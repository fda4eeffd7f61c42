import TargetCatalog.Proofs.Definitions.Admissible
import TargetCatalog.Proofs.Machine.Members
import TargetCatalog.Query

/-!
# What a registry is built of

The registry of some definitions holds the architectures that they declare, and the machines that
all their variants describe against these. Positions are nowhere needed to say what it answers.
-/

namespace TargetCatalog

namespace MachineVariant

variable (v : MachineVariant) (archs : ArchCatalogue)

theorem filterMap_get?_resolved :
    (v.resolved archs).members.filterMap archs.get? = v.archs.filterMap archs.find? :=
  List.filterMap_filterMap

theorem alignment_resolved : (v.resolved archs).alignment =
    ((v.archs.filterMap archs.find?).map (·.alignment)).max?.getD 1 := by
  rw [← filterMap_get?_resolved]
  rfl

end MachineVariant

namespace Definitions

/-- The architectures that the declarations describe; those that are not in order give none. -/
def architectures (d : Definitions) : List Architecture :=
  d.archs.flatMap fun a => a.validate.toOption.toList

theorem mem_architectures_iff (d : Definitions) (a : Architecture) :
    a ∈ d.architectures ↔ ∃ declaration ∈ d.archs, declaration.validate = .ok a := by
  simp only [architectures, List.mem_flatMap, Option.mem_toList, toOption_eq_some_iff]

/-- The variants of all declared machines. -/
def variants (d : Definitions) : List MachineVariant :=
  d.machines.flatMap fun m => expand m.name m.archs.entries

/-- The registry holds what the definitions declare, in order. -/
structure Describes (d : Definitions) (r : Registry) : Prop where
  archs_wellFormed : r.archs.WellFormed
  machines_wellFormed : r.machines.WellFormed
  archs : r.archs.archs = d.architectures
  machines : r.machines.machines = d.variants.map (MachineVariant.resolved r.archs)

end Definitions

namespace RegistryBuilder.WellFormed

variable {b after : RegistryBuilder}

theorem archs_of_runAll (h : b.WellFormed) {ds : List ArchDef}
    (hRun : (runAll (ds.map .arch)).run b = .ok () after) :
    (after.WellFormed ∧ after.machines = b.machines) ∧
      after.archs.archs = b.archs.archs ++ ds.flatMap fun d => d.validate.toOption.toList := by
  rw [runAll, List.forM_eq_forM, List.forM_map] at hRun
  refine forM_eq_ok_append (fun c => c.WellFormed ∧ c.machines = b.machines)
    (fun c => c.archs.archs) ?_ ⟨h, rfl⟩ hRun
  intro c d added next hc hAttempt
  have hNext := hc.1.attempt hAttempt
  obtain ⟨i, archs, hRegister, -, rfl⟩ := (attempt_arch_eq_ok_iff ..).mp hAttempt
  obtain ⟨arch, hValid, -, -, rfl⟩ := (ArchCatalogue.register_eq_ok_iff ..).mp hRegister
  refine ⟨⟨hNext, hc.2⟩, ?_⟩
  rw [hValid]
  rfl

theorem machines_of_runAll (h : b.WellFormed) {ms : List MachineDef}
    (hRun : (runAll (ms.map fun m => .machine m.name m.archs.entries)).run b = .ok () after) :
    (after.WellFormed ∧ after.archs = b.archs) ∧
      after.machines.machines = b.machines.machines ++ ms.flatMap fun m =>
        (expand m.name m.archs.entries).map (MachineVariant.resolved b.archs) := by
  rw [runAll, List.forM_eq_forM, List.forM_map] at hRun
  refine forM_eq_ok_append (fun c => c.WellFormed ∧ c.archs = b.archs)
    (fun c => c.machines.machines) ?_ ⟨h, rfl⟩ hRun
  intro c m added next hc hAttempt
  have hNext := hc.1.attempt hAttempt
  obtain ⟨new, machines, hRegister, -, rfl⟩ := (attempt_machine_eq_ok_iff ..).mp hAttempt
  refine ⟨⟨hNext, hc.2⟩, ?_⟩
  have hNew := ((MachineCatalogue.register_eq_ok_iff ..).mp hRegister).2.1
  rw [← hc.2, ← hNew]
  exact MachineCatalogue.machines_of_register hRegister

end RegistryBuilder.WellFormed

namespace Definitions

theorem describes_of_toRegistry {d : Definitions} {r : Registry} (h : d.toRegistry = .ok r) :
    d.Describes r := by
  obtain ⟨middle, hArchs, last, hMachines, rfl⟩ := (toRegistry_eq_ok_iff d r).mp h
  obtain ⟨⟨hMiddle, hNone⟩, hDeclared⟩ := RegistryBuilder.wellFormed_empty.archs_of_runAll hArchs
  obtain ⟨⟨hLast, hSame⟩, hVariants⟩ := hMiddle.machines_of_runAll hMachines
  refine ⟨hLast.archs, hLast.machines, ?_, ?_⟩
  · calc
      last.archs.archs = middle.archs.archs := by rw [hSame]
      _ = d.architectures := hDeclared
  · have hEmpty : middle.machines.machines = [] := hNone ▸ rfl
    calc
      last.machines.machines = d.machines.flatMap fun m =>
          (expand m.name m.archs.entries).map (MachineVariant.resolved middle.archs) := by
        rw [hVariants, hEmpty, List.nil_append]
      _ = d.variants.map (MachineVariant.resolved last.archs) := by
        rw [variants, List.map_flatMap, hSame]

namespace Describes

variable {d : Definitions} {r : Registry}

theorem arch?_eq_some_iff (h : d.Describes r) (name : String) (a : Architecture) :
    r.arch? name = some a ↔ a ∈ d.architectures ∧ a.name = name := by
  rw [← h.archs]
  exact h.archs_wellFormed.find?_eq_some_iff name a

theorem machine?_eq_some_iff (h : d.Describes r) (name : String) (m : Machine) :
    r.machine? name = some m ↔ ∃ v ∈ d.variants, v.name = name ∧ v.resolved r.archs = m := by
  rw [Registry.machine?, h.machines_wellFormed.find?_eq_some_iff, h.machines, List.mem_map]
  constructor
  · rintro ⟨⟨v, hv, rfl⟩, hName⟩
    exact ⟨v, hv, hName, rfl⟩
  · rintro ⟨v, hv, hName, rfl⟩
    exact ⟨⟨v, hv, rfl⟩, hName⟩

theorem members?_of_machine? {name : String} {v : MachineVariant}
    (hMachine : r.machine? name = some (v.resolved r.archs)) :
    r.members? name = some (v.archs.filterMap r.arch?) := by
  rw [Registry.members?, hMachine, Option.map_some, v.filterMap_get?_resolved]
  rfl

theorem archFlags_eq (h : d.Describes r) (compiler : CompilerId) :
    r.archFlags compiler = (d.architectures.filter (·.supports compiler)).map fun a =>
      ⟨a.name, a.flags compiler⟩ := by
  rw [Registry.archFlags, h.archs]

theorem machinesMatching_eq (h : d.Describes r) (available : ArchSet) :
    r.machinesMatching available =
      (d.variants.filter fun v => v.archs.all available.contains).map (·.name) := by
  rw [Registry.machinesMatching, h.machines, List.filter_map, List.map_map]
  rfl

end Describes

end Definitions

end TargetCatalog
