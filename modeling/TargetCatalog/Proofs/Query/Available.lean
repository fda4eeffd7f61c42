import TargetCatalog.Proofs.Query.Matching

/-!
# Machines for sets of architectures

Which machines a registry finds depends on the set of available architectures as a condition on
members does: machines come in catalogue order and once each, more architectures find no fewer of
them, and those for an intersection are the ones found for both sets. The query looks at the member
names that are stored; following the stored positions comes to the same.
-/

namespace TargetCatalog

namespace Registry

variable {r : Registry} {s t u : ArchSet}

theorem machinesMatching_sublist_names (r : Registry) (s : ArchSet) :
    (r.machinesMatching s).Sublist r.machines.names :=
  List.filter_sublist.map _

theorem nodup_machinesMatching (h : r.machines.WellFormed) : (r.machinesMatching s).Nodup :=
  h.agrees.nodup.sublist (machinesMatching_sublist_names r s)

theorem machinesMatching_sublist (r : Registry)
    (h : ∀ n, s.contains n = true → t.contains n = true) :
    (r.machinesMatching s).Sublist (r.machinesMatching t) := by
  refine List.Sublist.map _ (List.monotone_filter_right _ ?_)
  intro m hm
  rw [List.all_eq_true] at hm ⊢
  exact fun n hn => h n (hm n hn)

/-- The machines for an intersection are those for one set that are found for the other. -/
theorem machinesMatching_of_inter (h : r.machines.WellFormed)
    (hInter : ∀ n, u.contains n = true ↔ s.contains n = true ∧ t.contains n = true) :
    r.machinesMatching u =
      (r.machinesMatching s).filter fun n => decide (n ∈ r.machinesMatching t) := by
  have hAll : ∀ m ∈ r.machines.machines, m.archs.all u.contains =
      (decide (m.name ∈ r.machinesMatching t) && m.archs.all s.contains) := by
    intro m hm
    rw [Bool.eq_iff_iff, Bool.and_eq_true, decide_eq_true_iff, name_mem_machinesMatching_iff h hm]
    simp only [List.all_eq_true, hInter]
    exact ⟨fun hBoth => ⟨fun n hn => (hBoth n hn).2, fun n hn => (hBoth n hn).1⟩,
      fun hBoth n hn => ⟨hBoth.2 n hn, hBoth.1 n hn⟩⟩
  calc
    r.machinesMatching u = ((r.machines.machines.filter fun m => m.archs.all s.contains).filter
        fun m => decide (m.name ∈ r.machinesMatching t)).map (·.name) := by
      rw [machinesMatching, List.filter_filter, List.filter_congr hAll]
    _ = (r.machinesMatching s).filter fun n => decide (n ∈ r.machinesMatching t) := by
      rw [machinesMatching.eq_def r s, List.filter_map]
      rfl

end Registry

theorem Machine.HasMembers.all_contains_iff {m : Machine} {archs : ArchCatalogue}
    {members : List Architecture} (h : m.HasMembers archs members) (s : ArchSet) :
    m.archs.all s.contains = true ↔ ∀ a ∈ members, s.contains a.name = true := by
  rw [← h.names, List.all_eq_true, List.forall_mem_map]

/-- A name is found when it leads to members that are all available. -/
theorem RegistryBuilder.Consistent.mem_machinesMatching_iff {b : RegistryBuilder}
    (h : b.Consistent) (s : ArchSet) (name : String) :
    name ∈ b.finish.machinesMatching s ↔ ∃ members,
      b.finish.members? name = some members ∧ ∀ a ∈ members, s.contains a.name = true := by
  constructor
  · intro hFound
    obtain ⟨m, hm, hName⟩ := List.mem_map.mp hFound
    obtain ⟨hMem, hAvailable⟩ := List.mem_filter.mp hm
    obtain ⟨members, hMembers, hSome⟩ :=
      h.exists_members? (h.machine?_eq_some_iff.mpr ⟨hMem, hName⟩)
    exact ⟨members, hSome, (hMembers.all_contains_iff s).mp hAvailable⟩
  · rintro ⟨members, hSome, hAvailable⟩
    obtain ⟨m, hMachine, -⟩ := Option.map_eq_some_iff.mp hSome
    obtain ⟨others, hMembers, hOthers⟩ := h.exists_members? hMachine
    cases hSome.symm.trans hOthers
    obtain ⟨hMem, hName⟩ := h.machine?_eq_some_iff.mp hMachine
    rw [← hName, Registry.name_mem_machinesMatching_iff h.wellFormed.machines hMem]
    exact (hMembers.all_contains_iff s).mpr hAvailable

/-- In every registry, what is found for a set of architectures is settled name by name: no name
comes twice, the order is that of the catalogue, and a name is found when its machine has only
available members. So a larger set finds these names among others, and an intersection finds the
names that both sets find. -/
theorem Registry.machinesMatching_of_sets (steps : List BuildStep) (s t : ArchSet) :
    let r := (RegistryBuilder.empty.run steps).2.finish
    (r.machinesMatching s).Nodup ∧
    (r.machinesMatching s).Sublist r.machines.names ∧
    (∀ name, name ∈ r.machinesMatching s ↔ ∃ members, r.members? name = some members ∧
      ∀ a ∈ members, s.contains a.name = true) ∧
    ((∀ n, s.contains n = true → t.contains n = true) →
      (r.machinesMatching s).Sublist (r.machinesMatching t)) ∧
    ∀ u : ArchSet, (∀ n, u.contains n = true ↔ s.contains n = true ∧ t.contains n = true) →
      r.machinesMatching u =
        (r.machinesMatching s).filter fun n => decide (n ∈ r.machinesMatching t) := by
  intro r
  have h : (RegistryBuilder.empty.run steps).2.Consistent :=
    RegistryBuilder.consistent_empty.run steps
  have hMachines : r.machines.WellFormed := h.wellFormed.machines
  refine ⟨nodup_machinesMatching hMachines, machinesMatching_sublist_names r s,
    h.mem_machinesMatching_iff s, machinesMatching_sublist r, ?_⟩
  intro u hInter
  exact machinesMatching_of_inter hMachines hInter

theorem Registry.machinesMatching_of_overlapping_sets :
    let steps : List BuildStep := [.arch (.named "sse"), .arch (.named "avx"),
      .machine "m" ["sse|avx|", "sse"], .machine "avx" ["avx", "avx"]]
    let r := (RegistryBuilder.empty.run steps).2.finish
    let old := ArchSet.ofNames ["sse"]
    let new := ArchSet.ofNames ["avx", "sse"]
    let other := ArchSet.ofNames ["neon", "avx"]
    let common := ArchSet.ofNames ["avx"]
    (∀ n, old.contains n = true → new.contains n = true) ∧
    (∀ n, common.contains n = true ↔ new.contains n = true ∧ other.contains n = true) ∧
    r.machinesMatching old = ["m_sse", "m"] ∧
    r.machinesMatching new = ["m_sse", "m_avx", "m", "avx"] ∧
    (r.machinesMatching old).Sublist (r.machinesMatching new) ∧
    r.machinesMatching common =
      (r.machinesMatching new).filter fun n => decide (n ∈ r.machinesMatching other) := by
  intro steps r old new other common
  have hMore : ∀ n, old.contains n = true → new.contains n = true := by
    intro n hn
    rw [ArchSet.contains_ofNames] at hn ⊢
    exact List.mem_cons_of_mem _ hn
  have hCommon : ∀ n, common.contains n = true ↔
      new.contains n = true ∧ other.contains n = true := by
    intro n
    simp only [common, new, other, ArchSet.contains_ofNames, List.mem_cons, List.not_mem_nil,
      or_false]
    constructor
    · rintro rfl
      exact ⟨.inl rfl, .inr rfl⟩
    · rintro ⟨rfl | rfl, hOther⟩
      · rfl
      · revert hOther
        decide
  have hOld : r.machinesMatching old = ["m_sse", "m"] := by decide +kernel
  have hNew : r.machinesMatching new = ["m_sse", "m_avx", "m", "avx"] := by decide +kernel
  obtain ⟨-, -, -, hSublist, -⟩ := machinesMatching_of_sets steps old new
  obtain ⟨-, -, -, -, hInter⟩ := machinesMatching_of_sets steps new other
  exact ⟨hMore, hCommon, hOld, hNew, hSublist hMore, hInter common hCommon⟩

end TargetCatalog
