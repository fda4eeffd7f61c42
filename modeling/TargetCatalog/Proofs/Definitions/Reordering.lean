import Mathlib.Data.List.Perm.Basic
import TargetCatalog.Proofs.Definitions.Build

/-!
# The order of definitions

Architectures and machines may be declared in any order. That moves the positions in the registry,
but no question by name has another answer for it, and the lists that are answered only change their
order.
-/

namespace TargetCatalog.Definitions

/-- The same declarations of either kind, in any order. -/
structure Reorders (d' d : Definitions) : Prop where
  archs : d'.archs.Perm d.archs
  machines : d'.machines.Perm d.machines

namespace Reorders

variable {d d' : Definitions}

theorem architectures_perm (h : d'.Reorders d) : d'.architectures.Perm d.architectures :=
  h.archs.flatMap_right _

theorem variants_perm (h : d'.Reorders d) : d'.variants.Perm d.variants :=
  h.machines.flatMap_right _

/-- Both phases of building ask for no order. -/
theorem exists_toRegistry (h : d'.Reorders d) {r : Registry} (hBuilt : d.toRegistry = .ok r) :
    ∃ r', d'.toRegistry = .ok r' := by
  obtain ⟨middle, hRun, hLast⟩ := (exists_toRegistry_iff d).mp ⟨r, hBuilt⟩
  obtain ⟨hValid, hNodup⟩ := (exists_runAll_archs_iff d).mp ⟨middle, hRun⟩
  obtain ⟨hDeclared, hVariants⟩ := (exists_runAll_machines_iff d hRun).mp hLast
  have hNodup' : (d'.archs.map fun a => Text.trim a.name).Nodup :=
    (h.archs.map _).nodup_iff.mpr hNodup
  obtain ⟨middle', hRun'⟩ := (exists_runAll_archs_iff d').mpr
    ⟨fun a ha => hValid a (h.archs.mem_iff.mp ha), hNodup'⟩
  refine (exists_toRegistry_iff d').mpr
    ⟨middle', hRun', (exists_runAll_machines_iff d' hRun').mpr ⟨?_, ?_⟩⟩
  · intro m hm entry hEntry piece hPiece hNe
    obtain ⟨a, ha, hName⟩ := hDeclared m (h.machines.mem_iff.mp hm) entry hEntry piece hPiece hNe
    exact ⟨a, h.archs.mem_iff.mpr ha, hName⟩
  · exact (h.machines.flatMap_right _).nodup_iff.mpr hVariants

section Answers

variable {r r' : Registry}

theorem arch?_eq (h : d'.Reorders d) (hr : d.Describes r) (hr' : d'.Describes r') :
    r'.arch? = r.arch? := by
  funext name
  ext a
  rw [hr'.arch?_eq_some_iff, hr.arch?_eq_some_iff, h.architectures_perm.mem_iff]

/-- The two registries know the same machines, each as its own architectures resolve them. -/
theorem machine?_eq (h : d'.Reorders d) (hr : d.Describes r) (hr' : d'.Describes r')
    (name : String) :
    (r'.machine? name = none ∧ r.machine? name = none) ∨
      ∃ v : MachineVariant, r'.machine? name = some (v.resolved r'.archs) ∧
        r.machine? name = some (v.resolved r.archs) := by
  have hSame : ∀ v, v ∈ d'.variants ↔ v ∈ d.variants := fun v => h.variants_perm.mem_iff
  cases hMachine : r.machine? name with
  | some m =>
    obtain ⟨v, hv, hName, rfl⟩ := (hr.machine?_eq_some_iff name m).mp hMachine
    exact .inr ⟨v, (hr'.machine?_eq_some_iff name _).mpr ⟨v, (hSame v).mpr hv, hName, rfl⟩, rfl⟩
  | none =>
    refine .inl ⟨?_, rfl⟩
    rw [Option.eq_none_iff_forall_ne_some]
    intro m hm
    obtain ⟨v, hv, hName, rfl⟩ := (hr'.machine?_eq_some_iff name m).mp hm
    rw [(hr.machine?_eq_some_iff name _).mpr ⟨v, (hSame v).mp hv, hName, rfl⟩] at hMachine
    cases hMachine

theorem members?_eq (h : d'.Reorders d) (hr : d.Describes r) (hr' : d'.Describes r')
    (name : String) : r'.members? name = r.members? name := by
  obtain ⟨hNone', hNone⟩ | ⟨v, hSome', hSome⟩ := h.machine?_eq hr hr' name
  · rw [Registry.members?, Registry.members?, hNone', hNone]
    rfl
  · rw [Describes.members?_of_machine? hSome', Describes.members?_of_machine? hSome,
      h.arch?_eq hr hr']

theorem alignment_resolved_eq (h : d'.Reorders d) (hr : d.Describes r) (hr' : d'.Describes r')
    (v : MachineVariant) : (v.resolved r'.archs).alignment = (v.resolved r.archs).alignment := by
  have hFind : r'.archs.find? = r.archs.find? := h.arch?_eq hr hr'
  rw [v.alignment_resolved, v.alignment_resolved, hFind]

theorem archFlags_perm (h : d'.Reorders d) (hr : d.Describes r) (hr' : d'.Describes r')
    (compiler : CompilerId) : (r'.archFlags compiler).Perm (r.archFlags compiler) := by
  rw [hr'.archFlags_eq, hr.archFlags_eq]
  exact (h.architectures_perm.filter _).map _

theorem machinesMatching_perm (h : d'.Reorders d) (hr : d.Describes r) (hr' : d'.Describes r')
    (available : ArchSet) :
    (r'.machinesMatching available).Perm (r.machinesMatching available) := by
  rw [hr'.machinesMatching_eq, hr.machinesMatching_eq]
  exact (h.variants_perm.filter _).map _

end Answers

end Reorders

/-- Definitions that build a registry build one in every other order of their declarations. It
answers every question by name alike, though its positions differ, and lists the same
architectures and machines in another order. -/
theorem toRegistry_of_reordered {d d' : Definitions} {r : Registry}
    (hBuilt : d.toRegistry = .ok r) (hArchs : d'.archs.Perm d.archs)
    (hMachines : d'.machines.Perm d.machines) :
    ∃ r', d'.toRegistry = .ok r' ∧
      (∀ name, r'.arch? name = r.arch? name) ∧
      (∀ name, (r'.machine? name).map (fun m => (m.archs, m.alignment)) =
        (r.machine? name).map fun m => (m.archs, m.alignment)) ∧
      (∀ name, r'.members? name = r.members? name) ∧
      (∀ compiler name, r'.machineFlags compiler name = r.machineFlags compiler name) ∧
      (∀ compiler, (r'.archFlags compiler).Perm (r.archFlags compiler)) ∧
      ∀ available, (r'.machinesMatching available).Perm (r.machinesMatching available) := by
  have h : d'.Reorders d := ⟨hArchs, hMachines⟩
  obtain ⟨r', hBuilt'⟩ := h.exists_toRegistry hBuilt
  have hr := describes_of_toRegistry hBuilt
  have hr' := describes_of_toRegistry hBuilt'
  have hMembers := h.members?_eq hr hr'
  refine ⟨r', hBuilt', congrFun (h.arch?_eq hr hr'), ?_, hMembers, ?_, h.archFlags_perm hr hr',
    h.machinesMatching_perm hr hr'⟩
  · intro name
    obtain ⟨hNone', hNone⟩ | ⟨v, hSome', hSome⟩ := h.machine?_eq hr hr' name
    · rw [hNone', hNone]
    · rw [hSome', hSome, Option.map_some, Option.map_some, h.alignment_resolved_eq hr hr']
      rfl
  · intro compiler name
    rw [Registry.machineFlags, Registry.machineFlags, hMembers]

theorem toRegistry_of_reversed :
    let d : Definitions := {
      archs := [(ArchDef.named "sse").withAlignment 16, (ArchDef.named "avx").withAlignment 32]
      machines := [⟨"m", .words "sse|avx"⟩, ⟨"n", .list ["avx", "sse"]⟩]
    }
    let d' : Definitions := ⟨d.archs.reverse, d.machines.reverse⟩
    let r := (RegistryBuilder.empty.run d.steps).2.finish
    let r' := (RegistryBuilder.empty.run d'.steps).2.finish
    d.toRegistry = .ok r ∧ d'.toRegistry = .ok r' ∧ r'.machine? "n" ≠ r.machine? "n" ∧
      ∀ name, r'.members? name = r.members? name := by
  intro d d' r r'
  have hr : d.toRegistry = .ok r := by decide +kernel
  have hr' : d'.toRegistry = .ok r' := by decide +kernel
  have hPositions : r'.machine? "n" ≠ r.machine? "n" := by decide +kernel
  obtain ⟨other, hOther, -, -, hMembers, -⟩ := @toRegistry_of_reordered d d' r hr
    (List.reverse_perm d.archs) (List.reverse_perm d.machines)
  cases hr'.symm.trans hOther
  exact ⟨hr, hr', hPositions, hMembers⟩

end TargetCatalog.Definitions
