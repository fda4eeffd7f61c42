import TargetCatalog.Proofs.Registry.Builder

/-!
# Definitions that make a registry

Whether a registry can be built from definitions is a matter of what they declare: architectures in
order and with different names, machines whose every choice is one of them, and different names for
all variants. The builder finds that out in one pass with two catalogues.
-/

namespace TargetCatalog.Definitions

open MachineVariant

structure Admissible (d : Definitions) : Prop where
  archs_valid : ∀ a ∈ d.archs, a.Valid
  arch_names_nodup : (d.archs.map fun a => Text.trim a.name).Nodup
  members_declared : ∀ m ∈ d.machines, ∀ entry ∈ m.archs.entries, ∀ piece ∈ slotPieces entry,
    piece ≠ "" → ∃ a ∈ d.archs, Text.trim a.name = piece
  variant_names_nodup :
    (d.machines.flatMap fun m => (expand m.name m.archs.entries).map (·.name)).Nodup

theorem forall_known_iff {archs : ArchCatalogue} (h : archs.WellFormed) (name : String)
    (entries : List String) :
    (∀ v ∈ expand name entries, v.firstUnknown? archs = none) ↔
      ∀ entry ∈ entries, ∀ piece ∈ slotPieces entry, piece ≠ "" → piece ∈ archs.names := by
  simp only [firstUnknown?_eq_none_iff, h.lookup_ne_none_iff]
  constructor
  · intro hKnown entry hEntry piece hPiece hNe
    obtain ⟨v, hv, hMember⟩ := (exists_mem_expand_iff name entries piece).mpr
      ⟨hNe, entry, hEntry, hPiece⟩
    exact hKnown v hv piece hMember
  · intro hDeclared v hv arch hArch
    obtain ⟨hNe, entry, hEntry, hPiece⟩ := (exists_mem_expand_iff name entries arch).mp
      ⟨v, hv, hArch⟩
    exact hDeclared entry hEntry arch hPiece hNe

theorem toRegistry_eq_ok_iff (d : Definitions) (r : Registry) :
    d.toRegistry = .ok r ↔ ∃ middle,
      (RegistryBuilder.runAll (d.archs.map .arch)).run .empty = .ok () middle ∧ ∃ last,
        (RegistryBuilder.runAll (d.machines.map fun m => .machine m.name m.archs.entries)).run
          middle = .ok () last ∧ r = last.finish := by
  have hRun : d.toRegistry = .ok r ↔
      ∃ last, (RegistryBuilder.runAll d.steps).run .empty = .ok () last ∧ r = last.finish := by
    rw [toRegistry]
    cases (RegistryBuilder.runAll d.steps).run .empty <;> simp [eq_comm]
  rw [hRun, steps]
  simp only [RegistryBuilder.runAll_append_eq_ok_iff]
  constructor
  · rintro ⟨last, ⟨middle, hArchs, hMachines⟩, hLast⟩
    exact ⟨middle, hArchs, last, hMachines, hLast⟩
  · rintro ⟨middle, hArchs, last, hMachines, hLast⟩
    exact ⟨last, ⟨middle, hArchs, hMachines⟩, hLast⟩

theorem exists_toRegistry_iff (d : Definitions) :
    (∃ r, d.toRegistry = .ok r) ↔ ∃ middle,
      (RegistryBuilder.runAll (d.archs.map .arch)).run .empty = .ok () middle ∧ ∃ last,
        (RegistryBuilder.runAll (d.machines.map fun m => .machine m.name m.archs.entries)).run
          middle = .ok () last := by
  simp only [toRegistry_eq_ok_iff]
  constructor
  · rintro ⟨r, middle, hArchs, last, hMachines, -⟩
    exact ⟨middle, hArchs, last, hMachines⟩
  · rintro ⟨middle, hArchs, last, hMachines⟩
    exact ⟨last.finish, middle, hArchs, last, hMachines, rfl⟩

theorem exists_runAll_archs_iff (d : Definitions) :
    (∃ middle, (RegistryBuilder.runAll (d.archs.map .arch)).run .empty = .ok () middle) ↔
      (∀ a ∈ d.archs, a.Valid) ∧ (d.archs.map fun a => Text.trim a.name).Nodup :=
  RegistryBuilder.wellFormed_empty.exists_runAll_archs_iff d.archs

/-- The machines only see the names of the architectures, which are those of the definitions. -/
theorem exists_runAll_machines_iff (d : Definitions) {middle : RegistryBuilder}
    (hRun : (RegistryBuilder.runAll (d.archs.map .arch)).run .empty = .ok () middle) :
    (∃ last, (RegistryBuilder.runAll
        (d.machines.map fun m => .machine m.name m.archs.entries)).run middle = .ok () last) ↔
      (∀ m ∈ d.machines, ∀ entry ∈ m.archs.entries, ∀ piece ∈ slotPieces entry,
        piece ≠ "" → ∃ a ∈ d.archs, Text.trim a.name = piece) ∧
      (d.machines.flatMap fun m => (expand m.name m.archs.entries).map (·.name)).Nodup := by
  obtain ⟨hMiddle, hMachines, hNames⟩ := RegistryBuilder.wellFormed_empty.runAll_archs hRun
  have hNoMachines : middle.machines.names = [] := hMachines ▸ rfl
  have hDeclared : middle.archs.names = d.archs.map fun a => Text.trim a.name := hNames
  rw [hMiddle.exists_runAll_machines_iff, hNoMachines, List.nil_append]
  simp only [forall_known_iff hMiddle.archs, hDeclared, List.mem_map]

/-- Building succeeds for exactly the admissible definitions. -/
theorem toRegistry_isOk_iff_admissible (d : Definitions) :
    (∃ r, d.toRegistry = .ok r) ↔ d.Admissible := by
  rw [exists_toRegistry_iff]
  constructor
  · rintro ⟨middle, hRun, hRest⟩
    obtain ⟨hValid, hNodup⟩ := (exists_runAll_archs_iff d).mp ⟨middle, hRun⟩
    obtain ⟨hDeclared, hVariants⟩ := (exists_runAll_machines_iff d hRun).mp hRest
    exact ⟨hValid, hNodup, hDeclared, hVariants⟩
  · rintro ⟨hValid, hNodup, hDeclared, hVariants⟩
    obtain ⟨middle, hRun⟩ := (exists_runAll_archs_iff d).mpr ⟨hValid, hNodup⟩
    exact ⟨middle, hRun, (exists_runAll_machines_iff d hRun).mpr ⟨hDeclared, hVariants⟩⟩

end TargetCatalog.Definitions
