import TargetCatalog.Proofs.Arch.Redeclaration
import TargetCatalog.Proofs.Registry.Phases

/-!
# Declaring a registry again

What a builder holds can be declared to a fresh one, entry by entry: every architecture in order is
its own declaration, and every machine expands to itself, since its members are no slots. The fresh
builder takes all of it and ends up the same, positions and indices included.
-/

namespace TargetCatalog

/-- Member names are neither opened nor trimmed nor dropped. -/
theorem expand_of_isMemberName (name : String) {archs : List String}
    (h : ∀ arch ∈ archs, IsMemberName arch) : expand name archs = [⟨name, archs⟩] := by
  have hTrim : archs.map Text.trim = archs :=
    (List.map_congr_left fun arch hArch => (h arch hArch).trim_eq).trans (List.map_id archs)
  have hFixed : ∀ arch ∈ archs, isSlot arch = false := by
    intro arch hArch
    simpa [isSlot] using (h arch hArch).no_bar
  have hKept : archs.filter (· ≠ "") = archs :=
    List.filter_eq_self.mpr fun arch hArch => decide_eq_true (h arch hArch).ne_empty
  rw [expand, hTrim, expandInto_of_noSlot name hFixed, hKept]

namespace Registry

/-- The declarations of everything in the registry, in the order of the catalogues, and what each
of them has to add. -/
def declarations (r : Registry) : List (BuildStep × Added) :=
  (r.archs.archs.zipIdx.map fun (a, i) => (.arch a.toDef, .arch ⟨i⟩)) ++
    r.machines.machines.map fun m => (.machine m.name m.archs, .machines [m])

end Registry

namespace RegistryBuilder

/-- Every entry can be declared again as it is stored, and the catalogues hold no trace of how they
came to have their entries. -/
structure Reproducible (b : RegistryBuilder) : Prop where
  wellFormed : b.WellFormed
  archs_valid : ∀ a ∈ b.archs.archs, a.toDef.validate = .ok a
  archs_pushed : b.archs = b.archs.archs.foldl ArchCatalogue.push .empty
  machines_known : ∀ m ∈ b.machines.machines, m.variant.firstUnknown? b.archs = none
  machines_resolved : ∀ m ∈ b.machines.machines, m.variant.resolved b.archs = m
  machines_pushed : b.machines = b.machines.machines.foldl MachineCatalogue.push .empty

theorem reproducible_empty : empty.Reproducible where
  wellFormed := wellFormed_empty
  archs_valid a ha := by cases ha
  archs_pushed := rfl
  machines_known m hm := by cases hm
  machines_resolved m hm := by cases hm
  machines_pushed := rfl

section Attempt

variable {b : RegistryBuilder}

theorem Reproducible.arch (h : b.Reproducible) {d : ArchDef} {i : ArchIndex}
    {archs : ArchCatalogue} (hRegister : (ArchCatalogue.register d).run b.archs = .ok i archs) :
    Reproducible { b with archs := archs } := by
  have hWell : archs.WellFormed := h.wellFormed.archs.register hRegister
  have hLater : archs.Extends b.archs := ArchCatalogue.extends_of_register hRegister
  obtain ⟨a, hValid, -, -, hPush⟩ := (ArchCatalogue.register_eq_ok_iff ..).mp hRegister
  have hArchs : archs.archs = b.archs.archs ++ [a] := by rw [hPush, ArchCatalogue.push]
  refine ⟨⟨hWell, h.wellFormed.machines⟩, ?_, ?_, ?_, ?_, h.machines_pushed⟩
  · intro other hOther
    rcases List.mem_append.mp (hArchs ▸ hOther) with hOld | hNew
    · exact h.archs_valid other hOld
    · cases List.mem_singleton.mp hNew
      exact Architecture.validate_toDef_of_validate hValid
  · change archs = archs.archs.foldl ArchCatalogue.push .empty
    rw [hArchs, List.foldl_append, ← h.archs_pushed, hPush]
    rfl
  · intro m hm
    exact MachineVariant.firstUnknown?_of_extends h.wellFormed.archs hWell hLater
      (h.machines_known m hm)
  · intro m hm
    rw [MachineVariant.resolved_of_extends h.wellFormed.archs hWell hLater
      (h.machines_known m hm)]
    exact h.machines_resolved m hm

theorem Reproducible.machine (h : b.Reproducible) {name : String} {entries : List String}
    {new : List Machine} {machines : MachineCatalogue}
    (hRegister : (MachineCatalogue.register b.archs name entries).run b.machines =
      .ok new machines) : Reproducible { b with machines := machines } := by
  have hMachines := MachineCatalogue.machines_of_register hRegister
  have hWell : machines.WellFormed := h.wellFormed.machines.register hRegister
  obtain ⟨hBatch, hNew, hPush⟩ := (MachineCatalogue.register_eq_ok_iff ..).mp hRegister
  have hEach : ∀ m ∈ new, m.variant.firstUnknown? b.archs = none ∧
      m.variant.resolved b.archs = m := by
    intro m hm
    obtain ⟨v, hv, rfl⟩ := List.mem_map.mp (hNew ▸ hm)
    exact ⟨hBatch.known v hv, rfl⟩
  refine ⟨⟨h.wellFormed.archs, hWell⟩, h.archs_valid, h.archs_pushed, ?_, ?_, ?_⟩
  · intro m hm
    rcases List.mem_append.mp (hMachines ▸ hm) with hOld | hAdded
    · exact h.machines_known m hOld
    · exact (hEach m hAdded).1
  · intro m hm
    rcases List.mem_append.mp (hMachines ▸ hm) with hOld | hAdded
    · exact h.machines_resolved m hOld
    · exact (hEach m hAdded).2
  · change machines = machines.machines.foldl MachineCatalogue.push .empty
    rw [hMachines, List.foldl_append, ← h.machines_pushed, hPush]

theorem Reproducible.attempt (h : b.Reproducible) {s : BuildStep} {added : Added}
    {after : RegistryBuilder} (hAttempt : (RegistryBuilder.attempt s).run b = .ok added after) :
    after.Reproducible := by
  cases s with
  | arch d =>
    obtain ⟨i, archs, hRegister, -, rfl⟩ := (attempt_arch_eq_ok_iff ..).mp hAttempt
    exact h.arch hRegister
  | machine name entries =>
    obtain ⟨new, machines, hRegister, -, rfl⟩ := (attempt_machine_eq_ok_iff ..).mp hAttempt
    exact h.machine hRegister

end Attempt

section Replay

variable {b : RegistryBuilder}

theorem step_arch_toDef (h : b.archs.WellFormed) {a : Architecture}
    (hValid : a.toDef.validate = .ok a) (hNew : a.name ∉ b.archs.names) :
    b.step (.arch a.toDef) =
      (.ok (.arch ⟨b.archs.size⟩), { b with archs := b.archs.push a }) := by
  have hFree : b.archs.index.find? a.name = none := (h.agrees.find?_eq_none_iff a.name).mpr hNew
  have hRegister : (ArchCatalogue.register a.toDef).run b.archs =
      .ok ⟨b.archs.size⟩ (b.archs.push a) :=
    (ArchCatalogue.register_eq_ok_iff ..).mpr ⟨a, hValid, hFree, rfl, rfl⟩
  exact step_eq_ok_iff.mpr
    ((attempt_arch_eq_ok_iff ..).mpr ⟨_, _, hRegister, rfl, rfl⟩)

/-- The architectures are numbered on from those that are there. -/
theorem accepts_archs_toDef (h : b.archs.WellFormed) {archs : List Architecture}
    (hValid : ∀ a ∈ archs, a.toDef.validate = .ok a)
    (hNodup : (b.archs.names ++ archs.map (·.name)).Nodup) :
    b.Accepts ((archs.zipIdx b.archs.size).map fun (a, i) => (.arch a.toDef, .arch ⟨i⟩))
      { b with archs := archs.foldl ArchCatalogue.push b.archs } := by
  induction archs generalizing b with
  | nil => exact accepts_nil_iff.mpr rfl
  | cons a archs ih =>
    obtain ⟨hHead, hTail⟩ := List.forall_mem_cons.mp hValid
    have hNew : a.name ∉ b.archs.names := by
      intro hMem
      exact (List.nodup_append.mp hNodup).2.2 a.name hMem a.name List.mem_cons_self rfl
    have hInOrder : a.InOrder := Architecture.inOrder_of_validate hHead
    have hNames : (b.archs.push a).names ++ archs.map (·.name) =
        b.archs.names ++ (a :: archs).map (·.name) := by
      simp [ArchCatalogue.names, ArchCatalogue.push]
    have hSize : (b.archs.push a).size = b.archs.size + 1 := by
      simp [ArchCatalogue.size, ArchCatalogue.push]
    have hRest := @ih { b with archs := b.archs.push a } (h.push hInOrder hNew) hTail
      (hNames ▸ hNodup)
    rw [List.zipIdx_cons, List.map_cons]
    exact accepts_cons_iff.mpr ⟨_, step_arch_toDef h hHead hNew, hSize ▸ hRest⟩

theorem step_machine_variant (h : b.machines.WellFormed) {m : Machine}
    (hMembers : ∀ arch ∈ m.archs, IsMemberName arch)
    (hKnown : m.variant.firstUnknown? b.archs = none)
    (hResolved : m.variant.resolved b.archs = m) (hNew : m.name ∉ b.machines.names) :
    b.step (.machine m.name m.archs) =
      (.ok (.machines [m]), { b with machines := b.machines.push m }) := by
  have hExpand : expand m.name m.archs = [m.variant] := expand_of_isMemberName m.name hMembers
  have hFree : b.machines.index.find? m.name = none :=
    (h.agrees.find?_eq_none_iff m.name).mpr hNew
  have hBatch : MachineVariant.Registrable b.archs b.machines.index [] [m.variant] :=
    (MachineVariant.registrable_cons_iff m.variant []).mpr
      ⟨⟨hFree, List.not_mem_nil, hKnown⟩, MachineVariant.registrable_nil⟩
  have hRegister : (MachineCatalogue.register b.archs m.name m.archs).run b.machines =
      .ok [m] (b.machines.push m) := by
    rw [MachineCatalogue.register_eq_ok_iff, hExpand, List.map_singleton, hResolved]
    exact ⟨hBatch, rfl, rfl⟩
  exact step_eq_ok_iff.mpr
    ((attempt_machine_eq_ok_iff ..).mpr ⟨_, _, hRegister, rfl, rfl⟩)

theorem accepts_machines_variant (h : b.machines.WellFormed) {machines : List Machine}
    (hMembers : ∀ m ∈ machines, ∀ arch ∈ m.archs, IsMemberName arch)
    (hKnown : ∀ m ∈ machines, m.variant.firstUnknown? b.archs = none)
    (hResolved : ∀ m ∈ machines, m.variant.resolved b.archs = m)
    (hNodup : (b.machines.names ++ machines.map (·.name)).Nodup) :
    b.Accepts (machines.map fun m => (.machine m.name m.archs, .machines [m]))
      { b with machines := machines.foldl MachineCatalogue.push b.machines } := by
  induction machines generalizing b with
  | nil => exact accepts_nil_iff.mpr rfl
  | cons m machines ih =>
    obtain ⟨hHeadMembers, hMembers⟩ := List.forall_mem_cons.mp hMembers
    obtain ⟨hHeadKnown, hKnown⟩ := List.forall_mem_cons.mp hKnown
    obtain ⟨hHeadResolved, hResolved⟩ := List.forall_mem_cons.mp hResolved
    have hNew : m.name ∉ b.machines.names := by
      intro hMem
      exact (List.nodup_append.mp hNodup).2.2 m.name hMem m.name List.mem_cons_self rfl
    have hNames : (b.machines.push m).names ++ machines.map (·.name) =
        b.machines.names ++ (m :: machines).map (·.name) := by
      rw [MachineCatalogue.names_push, List.append_assoc, List.map_cons, List.singleton_append]
    have hStep := step_machine_variant h hHeadMembers hHeadKnown hHeadResolved hNew
    exact accepts_cons_iff.mpr ⟨_, hStep, @ih { b with machines := b.machines.push m }
      (h.push hHeadMembers hNew) hMembers hKnown hResolved (hNames ▸ hNodup)⟩

theorem Reproducible.accepts_declarations (h : b.Reproducible) :
    empty.Accepts b.finish.declarations b := by
  have hArchs : empty.Accepts _ ⟨b.archs.archs.foldl ArchCatalogue.push .empty, .empty⟩ :=
    @accepts_archs_toDef empty ArchCatalogue.wellFormed_empty b.archs.archs h.archs_valid
      h.wellFormed.archs.agrees.nodup
  have hMachines : (⟨b.archs, .empty⟩ : RegistryBuilder).Accepts _
      ⟨b.archs, b.machines.machines.foldl MachineCatalogue.push .empty⟩ :=
    @accepts_machines_variant ⟨b.archs, .empty⟩ MachineCatalogue.wellFormed_empty
      b.machines.machines h.wellFormed.machines.members h.machines_known h.machines_resolved
      h.wellFormed.machines.agrees.nodup
  rw [← h.archs_pushed] at hArchs
  rw [← h.machines_pushed] at hMachines
  exact accepts_append_iff.mpr ⟨⟨b.archs, .empty⟩, hArchs, hMachines⟩

end Replay

/-- A fresh builder takes all declarations of a registry that any run has built: each architecture
gets its position again, each machine is its only variant, and the builder is the same. -/
theorem run_own_declarations (steps : List BuildStep) :
    let built := (empty.run steps).2
    let r := built.finish
    empty.run (r.declarations.map (·.1)) = (r.declarations.map fun p => .ok p.2, built) ∧
      (r.machines.machines.map fun m => expand m.name m.archs) =
        r.machines.machines.map fun m => [⟨m.name, m.archs⟩] := by
  intro built r
  have h : built.Reproducible :=
    run_invariant (fun _ _ _ _ h hAttempt => h.attempt hAttempt) reproducible_empty steps
  refine ⟨h.accepts_declarations, List.map_congr_left fun m hm => ?_⟩
  exact expand_of_isMemberName m.name (h.wellFormed.machines.members m hm)

end RegistryBuilder

end TargetCatalog
