import TargetCatalog.Proofs.Machine.Catalogue

/-!
# Members of registered machines

A machine keeps its members by name and by position, and the alignment drawn from them. The three
are computed once, against the catalogue of that moment. They describe the same architectures in it
and in every later catalogue, and a later one would have given the same machine.
-/

namespace TargetCatalog

instance lawfulOrderMax : Std.LawfulOrderMax UInt32 where
  max_eq_or a b := by
    change (if a ≤ b then b else a) = a ∨ (if a ≤ b then b else a) = b
    split
    · exact .inr rfl
    · exact .inl rfl
  max_le_iff a b c := by
    change (if a ≤ b then b else a) ≤ c ↔ a ≤ c ∧ b ≤ c
    split
    · rename_i hLe
      exact ⟨fun h => ⟨UInt32.le_trans hLe h, h⟩, And.right⟩
    · rename_i hNot
      have hLe : b ≤ a := (UInt32.le_total b a).resolve_right hNot
      exact ⟨fun h => ⟨h, UInt32.le_trans hLe h⟩, And.left⟩

/-- The alignment is the largest that one of the architectures asks for, and one if there is
none. -/
def IsLargestAlignment (alignment : UInt32) (archs : List Architecture) : Prop :=
  if archs = [] then alignment = 1
  else (∃ a ∈ archs, a.alignment = alignment) ∧ ∀ a ∈ archs, a.alignment ≤ alignment

theorem isLargestAlignment_max? (archs : List Architecture) :
    IsLargestAlignment ((archs.map (·.alignment)).max?.getD 1) archs := by
  cases hMax : (archs.map (·.alignment)).max? with
  | none =>
    rw [List.max?_eq_none_iff, List.map_eq_nil_iff] at hMax
    simp [IsLargestAlignment, hMax]
  | some largest =>
    obtain ⟨hMem, hLe⟩ := List.max?_eq_some_iff.mp hMax
    have hSome : archs ≠ [] := by
      rintro rfl
      cases hMem
    rw [IsLargestAlignment, if_neg hSome]
    exact ⟨List.mem_map.mp hMem, fun a ha => hLe a.alignment (List.mem_map_of_mem ha)⟩

theorem filterMap_eq_of_map_eq {α β : Type} {f : α → Option β} {xs : List α} {ys : List β}
    (h : xs.map f = ys.map some) : xs.filterMap f = ys := by
  calc
    xs.filterMap f = (xs.map f).filterMap id := by rw [List.filterMap_map, Function.id_comp]
    _ = (ys.map some).filterMap id := by rw [h]
    _ = ys := by simp

namespace Machine

/-- The architectures are those at the stored positions of the machine, in order; they have the
stored names, and the stored alignment is the largest of theirs. -/
structure HasMembers (m : Machine) (archs : ArchCatalogue) (members : List Architecture) :
    Prop where
  positions : m.members.map archs.get? = members.map some
  names : members.map (·.name) = m.archs
  alignment : IsLargestAlignment m.alignment members

namespace HasMembers

variable {m : Machine} {archs : ArchCatalogue} {members : List Architecture}

theorem filterMap_get? (h : m.HasMembers archs members) :
    m.members.filterMap archs.get? = members :=
  filterMap_eq_of_map_eq h.positions

theorem length_eq (h : m.HasMembers archs members) : m.members.length = m.archs.length := by
  have hPositions := congrArg List.length h.positions
  have hNames := congrArg List.length h.names
  simp only [List.length_map] at hPositions hNames
  exact hPositions.trans hNames

theorem exists_get? (h : m.HasMembers archs members) {p : Nat} {name : String}
    (hName : m.archs[p]? = some name) :
    ∃ i arch, m.members[p]? = some i ∧ archs.get? i = some arch ∧ arch.name = name := by
  rw [← h.names, List.getElem?_map, Option.map_eq_some_iff] at hName
  obtain ⟨arch, hArch, hName⟩ := hName
  have hPosition : (m.members.map archs.get?)[p]? = some (some arch) := by
    rw [h.positions, List.getElem?_map, hArch, Option.map_some]
  rw [List.getElem?_map, Option.map_eq_some_iff] at hPosition
  obtain ⟨i, hi, hGet⟩ := hPosition
  exact ⟨i, arch, hi, hGet, hName⟩

theorem mem (h : m.HasMembers archs members) {arch : Architecture} (hArch : arch ∈ members) :
    arch ∈ archs.archs := by
  have hSome : some arch ∈ m.members.map archs.get? :=
    h.positions ▸ List.mem_map_of_mem hArch
  obtain ⟨i, -, hGet⟩ := List.mem_map.mp hSome
  exact List.mem_of_getElem? hGet

theorem of_extends (h : m.HasMembers archs members) {later : ArchCatalogue}
    (hLater : later.Extends archs) : m.HasMembers later members := by
  refine ⟨?_, h.names, h.alignment⟩
  rw [← h.positions]
  apply List.map_congr_left
  intro i hi
  have hFound : archs.get? i ∈ members.map some := h.positions ▸ List.mem_map_of_mem hi
  obtain ⟨arch, -, hGet⟩ := List.mem_map.mp hFound
  rw [← hGet, hLater.get?_eq_some hGet.symm]

end HasMembers

/-- The variant that the machine was resolved from. -/
def variant (m : Machine) : MachineVariant :=
  ⟨m.name, m.archs⟩

end Machine

namespace MachineVariant

variable {archs later : ArchCatalogue} {v : MachineVariant}

theorem map_get?_filterMap_lookup (h : archs.WellFormed) {names : List String}
    (hKnown : ∀ name ∈ names, archs.lookup name ≠ none) :
    (names.filterMap archs.lookup).map archs.get? = (names.filterMap archs.find?).map some ∧
      (names.filterMap archs.find?).map (·.name) = names := by
  induction names with
  | nil => exact ⟨rfl, rfl⟩
  | cons name names ih =>
    obtain ⟨hHead, hTail⟩ := List.forall_mem_cons.mp hKnown
    obtain ⟨hPositions, hNames⟩ := ih hTail
    obtain ⟨i, hFound⟩ := Option.ne_none_iff_exists'.mp hHead
    obtain ⟨arch, hGet, hName, hFind⟩ := h.find?_of_lookup hFound
    rw [List.filterMap_cons_some hFound, List.filterMap_cons_some hFind, List.map_cons,
      List.map_cons, List.map_cons, hPositions, hNames, hGet, hName]
    exact ⟨rfl, rfl⟩

theorem hasMembers_resolved (h : archs.WellFormed) (hKnown : v.firstUnknown? archs = none) :
    (v.resolved archs).HasMembers archs (v.archs.filterMap archs.find?) := by
  obtain ⟨hPositions, hNames⟩ :=
    map_get?_filterMap_lookup h ((v.firstUnknown?_eq_none_iff).mp hKnown)
  refine ⟨hPositions, hNames, ?_⟩
  rw [resolved, filterMap_eq_of_map_eq hPositions]
  exact isLargestAlignment_max? _

section Later

variable (h : archs.WellFormed) (hWell : later.WellFormed) (hLater : later.Extends archs)
  (hKnown : v.firstUnknown? archs = none)

include h hWell hLater hKnown

theorem lookup_eq_of_known : ∀ name ∈ v.archs, later.lookup name = archs.lookup name := by
  intro name hName
  obtain ⟨i, hFound⟩ :=
    Option.ne_none_iff_exists'.mp ((v.firstUnknown?_eq_none_iff).mp hKnown name hName)
  rw [hFound, hLater.lookup_eq_some h hWell hFound]

theorem firstUnknown?_of_extends : v.firstUnknown? later = none := by
  rw [firstUnknown?_eq_none_iff]
  intro name hName
  rw [lookup_eq_of_known h hWell hLater hKnown name hName]
  exact (v.firstUnknown?_eq_none_iff).mp hKnown name hName

/-- A known variant describes the same machine in a later catalogue. -/
theorem resolved_of_extends : v.resolved later = v.resolved archs := by
  have hPositions : v.archs.filterMap later.lookup = v.archs.filterMap archs.lookup :=
    List.filterMap_congr (lookup_eq_of_known h hWell hLater hKnown)
  have hMembers := hasMembers_resolved h hKnown
  have hSame : (v.archs.filterMap archs.lookup).filterMap later.get? =
      (v.archs.filterMap archs.lookup).filterMap archs.get? :=
    (hMembers.of_extends hLater).filterMap_get?.trans hMembers.filterMap_get?.symm
  rw [resolved, resolved, hPositions, hSame]

end Later

end MachineVariant

namespace MachineCatalogue

/-- The catalogue begins with all machines of an earlier one. -/
def Extends (later c : MachineCatalogue) : Prop :=
  c.machines <+: later.machines

theorem Extends.refl (c : MachineCatalogue) : c.Extends c :=
  List.prefix_rfl

theorem Extends.trans {last later c : MachineCatalogue} (h : last.Extends later)
    (h' : later.Extends c) : last.Extends c :=
  List.IsPrefix.trans h' h

variable {c after : MachineCatalogue} {archs : ArchCatalogue} {name : String}
  {entries : List String} {added : List Machine}

theorem machines_of_register (h : (register archs name entries).run c = .ok added after) :
    after.machines = c.machines ++ added := by
  obtain ⟨-, -, rfl⟩ := (register_eq_ok_iff c archs name entries added after).mp h
  exact machines_foldl_push c added

theorem map_variant_of_register (h : (register archs name entries).run c = .ok added after) :
    added.map Machine.variant = expand name entries := by
  obtain ⟨-, rfl, -⟩ := (register_eq_ok_iff c archs name entries added after).mp h
  rw [List.map_map]
  exact List.map_id _

theorem extends_of_register (h : (register archs name entries).run c = .ok added after) :
    after.Extends c := by
  rw [Extends, machines_of_register h]
  exact List.prefix_append c.machines added

theorem exists_hasMembers_of_register (hArchs : archs.WellFormed)
    (h : (register archs name entries).run c = .ok added after) {m : Machine} (hm : m ∈ added) :
    ∃ members, m.HasMembers archs members := by
  obtain ⟨hBatch, rfl, -⟩ := (register_eq_ok_iff c archs name entries added after).mp h
  obtain ⟨v, hv, rfl⟩ := List.mem_map.mp hm
  exact ⟨_, MachineVariant.hasMembers_resolved hArchs (hBatch.known v hv)⟩

/-- A declaration that is accepted is accepted with the same outcome when more architectures are
known. -/
theorem register_of_extends {later : ArchCatalogue} (hArchs : archs.WellFormed)
    (hWell : later.WellFormed) (hLater : later.Extends archs)
    (h : (register archs name entries).run c = .ok added after) :
    (register later name entries).run c = .ok added after := by
  obtain ⟨hBatch, rfl, rfl⟩ := (register_eq_ok_iff c archs name entries added after).mp h
  refine (register_eq_ok_iff c later name entries _ _).mpr
    ⟨⟨hBatch.free, hBatch.nodup, ?_⟩, ?_, rfl⟩
  · intro v hv
    exact MachineVariant.firstUnknown?_of_extends hArchs hWell hLater (hBatch.known v hv)
  · apply List.map_congr_left
    intro v hv
    exact (MachineVariant.resolved_of_extends hArchs hWell hLater (hBatch.known v hv)).symm

end MachineCatalogue

end TargetCatalog
