import TargetCatalog.Proofs.Registry.Run
import TargetCatalog.Query

/-!
# Flags of a machine

The flags of a machine are reached through the positions of its members. They are those that the
architectures of its member names are listed with: no position is lost on the way, and an
architecture that is not listed, because the compiler does not support it, has no flags.
-/

namespace TargetCatalog

/-- The flags that an architecture is listed with; none if it is not listed. -/
def flagsOf (records : List ArchFlags) (arch : String) : List String :=
  ((records.find? (·.arch = arch)).map (·.flags)).getD []

theorem Architecture.flags_of_not_supports {a : Architecture} {compiler : CompilerId}
    (h : a.supports compiler = false) : a.flags compiler = [] := by
  simp only [supports, Bool.or_eq_false_iff, FlagTable.contains, Option.isSome_eq_false_iff,
    Option.isNone_iff_eq_none] at h
  rw [flags, h.2, Option.getD_none]

namespace Registry

theorem mem_archFlags_iff (r : Registry) (compiler : CompilerId) (record : ArchFlags) :
    record ∈ r.archFlags compiler ↔
      ∃ a ∈ r.archs.archs, a.supports compiler = true ∧ record = ⟨a.name, a.flags compiler⟩ := by
  simp only [archFlags, List.mem_map, List.mem_filter, and_assoc, eq_comm]

theorem flagsOf_archFlags {r : Registry} (h : r.archs.WellFormed) (compiler : CompilerId)
    {a : Architecture} (ha : a ∈ r.archs.archs) :
    flagsOf (r.archFlags compiler) a.name = a.flags compiler := by
  cases hRecord : (r.archFlags compiler).find? (·.arch = a.name) with
  | some record =>
    have hName : record.arch = a.name := by simpa using List.find?_some hRecord
    obtain ⟨other, hOther, -, rfl⟩ :=
      (mem_archFlags_iff r compiler record).mp (List.mem_of_find?_eq_some hRecord)
    rw [flagsOf, hRecord, h.agrees.eq_of_name_eq hOther ha hName]
    rfl
  | none =>
    have hNot : a.supports compiler = false := by
      rw [← Bool.not_eq_true]
      intro hSupports
      have hListed : ⟨a.name, a.flags compiler⟩ ∈ r.archFlags compiler :=
        (mem_archFlags_iff r compiler _).mpr ⟨a, ha, hSupports, rfl⟩
      simpa using List.find?_eq_none.mp hRecord _ hListed
    rw [flagsOf, hRecord, Architecture.flags_of_not_supports hNot]
    rfl

theorem nodup_archFlags {r : Registry} (h : r.archs.WellFormed) (compiler : CompilerId) :
    ((r.archFlags compiler).map (·.arch)).Nodup := by
  have hNames : (r.archs.archs.map (·.name)).Nodup := h.agrees.nodup
  rw [archFlags, List.map_map]
  exact hNames.sublist (List.filter_sublist.map _)

theorem exists_machineFlags_iff {r : Registry} (h : r.machines.WellFormed) (compiler : CompilerId)
    (name : String) : (∃ flags, r.machineFlags compiler name = .ok flags) ↔
      ∃ m ∈ r.machines.machines, m.name = name := by
  constructor
  · rintro ⟨flags, hFlags⟩
    rw [machineFlags, members?] at hFlags
    cases hMachine : r.machine? name with
    | none =>
      rw [hMachine] at hFlags
      cases hFlags
    | some m => exact ⟨m, (h.find?_eq_some_iff name m).mp hMachine⟩
  · rintro ⟨m, hm⟩
    have hMachine : r.machine? name = some m := (h.find?_eq_some_iff name m).mpr hm
    rw [machineFlags, members?, hMachine]
    exact ⟨_, rfl⟩

end Registry

namespace RegistryBuilder.Consistent

variable {b : RegistryBuilder} {m : Machine} {name : String}

theorem machine?_eq_some_iff (h : b.Consistent) :
    b.finish.machine? name = some m ↔ m ∈ b.machines.machines ∧ m.name = name :=
  h.wellFormed.machines.find?_eq_some_iff name m

theorem exists_members? (h : b.Consistent) (hm : b.finish.machine? name = some m) :
    ∃ members, m.HasMembers b.archs members ∧ b.finish.members? name = some members := by
  obtain ⟨members, hMembers⟩ := h.members m (h.machine?_eq_some_iff.mp hm).1
  refine ⟨members, hMembers, ?_⟩
  rw [Registry.members?, hm, Option.map_some]
  exact congrArg some hMembers.filterMap_get?

theorem machineFlags_eq_error_iff (h : b.Consistent) (compiler : CompilerId) :
    b.finish.machineFlags compiler name = .error (.machineNotFound name) ↔
      ∀ m ∈ b.machines.machines, m.name ≠ name := by
  cases hMachine : b.finish.machine? name with
  | none =>
    rw [Registry.machineFlags, Registry.members?, hMachine]
    refine iff_of_true rfl fun m hm hName => ?_
    rw [h.machine?_eq_some_iff.mpr ⟨hm, hName⟩] at hMachine
    cases hMachine
  | some m =>
    rw [Registry.machineFlags, Registry.members?, hMachine]
    refine iff_of_false (fun hError => by cases hError) fun hNone => ?_
    obtain ⟨hMem, hName⟩ := h.machine?_eq_some_iff.mp hMachine
    exact hNone m hMem hName

theorem machineFlags_of_hasMembers (h : b.Consistent) (compiler : CompilerId)
    {members : List Architecture} (hMembers : m.HasMembers b.archs members)
    (hSome : b.finish.members? name = some members) :
    b.finish.machineFlags compiler name =
      .ok (m.archs.flatMap (flagsOf (b.finish.archFlags compiler))) := by
  rw [Registry.machineFlags, hSome, ← hMembers.names, List.flatMap_map]
  refine congrArg Except.ok (List.flatMap_congr fun a ha => ?_)
  exact (Registry.flagsOf_archFlags h.wellFormed.archs compiler (hMembers.mem ha)).symm

end RegistryBuilder.Consistent

/-- A machine that is in the catalogue has exactly one architecture for each of its member names,
and its flags are those that these names are listed with, name after name; there is no answer for
any other name. -/
theorem Registry.machineFlags_eq_listed_flags (steps : List BuildStep) (compiler : CompilerId)
    (name : String) :
    let r := (RegistryBuilder.empty.run steps).2.finish
    (r.machineFlags compiler name = .error (.machineNotFound name) ↔
      ∀ m ∈ r.machines.machines, m.name ≠ name) ∧
    ((r.archFlags compiler).map (·.arch)).Nodup ∧
    ∀ m ∈ r.machines.machines, m.name = name →
      r.machine? name = some m ∧
      (∃ members, r.members? name = some members ∧ members.map (·.name) = m.archs ∧
        ∀ a ∈ members, r.arch? a.name = some a) ∧
      r.machineFlags compiler name =
        .ok (m.archs.flatMap (flagsOf (r.archFlags compiler))) := by
  intro r
  have h : (RegistryBuilder.empty.run steps).2.Consistent :=
    RegistryBuilder.consistent_empty.run steps
  have hArchs : r.archs.WellFormed := h.wellFormed.archs
  refine ⟨h.machineFlags_eq_error_iff compiler, nodup_archFlags hArchs compiler, ?_⟩
  intro m hm hName
  have hMachine : r.machine? name = some m := h.machine?_eq_some_iff.mpr ⟨hm, hName⟩
  obtain ⟨members, hMembers, hSome⟩ := h.exists_members? hMachine
  have hArch : ∀ a ∈ members, r.arch? a.name = some a := fun a ha =>
    (hArchs.find?_eq_some_iff a.name a).mpr ⟨hMembers.mem ha, rfl⟩
  exact ⟨hMachine, ⟨members, hSome, hMembers.names, hArch⟩,
    h.machineFlags_of_hasMembers compiler hMembers hSome⟩

theorem Registry.machineFlags_eq_listed_flags_of_unsupported :
    let steps : List BuildStep := [.arch ((ArchDef.named "sse").withFlags "GCC" ["-msse"]),
      .arch ((ArchDef.named "neon").withFlags "msvc" ["/neon"]), .machine "m" ["neon", "sse"]]
    let r := (RegistryBuilder.empty.run steps).2.finish
    let gcc := CompilerId.ofString "gcc"
    let m : Machine := ⟨"m", ["neon", "sse"], [⟨1⟩, ⟨0⟩], 1⟩
    m ∈ r.machines.machines ∧ r.archFlags gcc = [⟨"sse", ["-msse"]⟩] ∧
      r.machineFlags gcc m.name = .ok (m.archs.flatMap (flagsOf (r.archFlags gcc))) := by
  intro steps r gcc m
  have hm : m ∈ r.machines.machines := by decide +kernel
  have hListed : r.archFlags gcc = [⟨"sse", ["-msse"]⟩] := by decide +kernel
  exact ⟨hm, hListed, ((machineFlags_eq_listed_flags steps gcc m.name).2.2 m hm rfl).2.2⟩

end TargetCatalog
