import TargetCatalog.Proofs.Query.LineFormat
import TargetCatalog.Proofs.Query.MachineFlags

/-!
# What answers hold

An answer is made of names and flags of the registry that gives it, and its line of nothing else but
separators. So what holds of all strings of a registry holds of those of its answers, and a
character other than a separator stands in a line only if it stands in one of them.
-/

namespace TargetCatalog

open Text

/-- The names and flags in an answer. -/
def Answer.strings : Answer → List String
  | archFlags records => records.flatMap ArchFlags.fields
  | machines names => names
  | flags names => names

theorem Answer.mem_text_iff (a : Answer) {c : Char} (hList : c ≠ ';') (hField : c ≠ ',')
    (hFlag : c ≠ ' ') : c ∈ a.text.toList ↔ ∃ s ∈ a.strings, c ∈ s.toList := by
  cases a with
  | archFlags records =>
    rw [text, mem_join_iff (by simpa [listSeparator] using hList)]
    simp only [strings, List.mem_map, List.mem_flatMap, exists_exists_and_eq_and,
      ArchFlags.mem_text_iff _ hField]
    constructor
    · rintro ⟨record, hRecord, field, hMem, hc⟩
      exact ⟨field, ⟨record, hRecord, hMem⟩, hc⟩
    · rintro ⟨field, ⟨record, hRecord, hMem⟩, hc⟩
      exact ⟨record, hRecord, field, hMem, hc⟩
  | machines names => exact mem_join_iff (by simpa [listSeparator] using hList) names
  | flags names => exact mem_join_iff (by simpa [flagSeparator] using hFlag) names

/-- All names and all flags in the registry satisfy the condition. -/
structure Registry.Holds (r : Registry) (condition : String → Prop) : Prop where
  arch_name : ∀ a ∈ r.archs.archs, condition a.name
  arch_flags : ∀ a ∈ r.archs.archs, ∀ compiler, ∀ flag ∈ a.flags compiler, condition flag
  machine_name : ∀ m ∈ r.machines.machines, condition m.name

namespace Registry.Holds

variable {r : Registry} {condition : String → Prop}

theorem archFlags (h : r.Holds condition) (compiler : CompilerId) :
    ∀ s ∈ (Answer.archFlags (r.archFlags compiler)).strings, condition s := by
  intro s hs
  obtain ⟨record, hRecord, hField⟩ := List.mem_flatMap.mp hs
  obtain ⟨a, ha, -, rfl⟩ := (mem_archFlags_iff r compiler record).mp hRecord
  rcases List.mem_cons.mp hField with rfl | hFlag
  · exact h.arch_name a ha
  · exact h.arch_flags a ha compiler s hFlag

theorem machinesMatching (h : r.Holds condition) (available : ArchSet) :
    ∀ s ∈ r.machinesMatching available, condition s := by
  intro s hs
  obtain ⟨m, hm, rfl⟩ := List.mem_map.mp hs
  exact h.machine_name m (List.mem_of_mem_filter hm)

theorem machineFlags (h : r.Holds condition) {compiler : CompilerId} {machine : String}
    {flags : List String} (hFlags : r.machineFlags compiler machine = .ok flags) :
    ∀ s ∈ flags, condition s := by
  intro s hs
  rw [Registry.machineFlags, members?] at hFlags
  cases hMachine : r.machine? machine with
  | none =>
    rw [hMachine] at hFlags
    cases hFlags
  | some m =>
    rw [hMachine] at hFlags
    cases hFlags
    obtain ⟨a, ha, hFlag⟩ := List.mem_flatMap.mp hs
    obtain ⟨i, -, hGet⟩ := List.mem_filterMap.mp ha
    exact h.arch_flags a (List.mem_of_getElem? hGet) compiler s hFlag

end Registry.Holds

end TargetCatalog
