import TargetCatalog.Proofs.Arch.Catalogue
import TargetCatalog.Proofs.Machine.Resolution
import TargetCatalog.Proofs.Machine.Selection

/-!
# Registered machines

A declaration is registered as a whole. Its variants are appended in order if none is at fault, and
the first one at fault decides the error otherwise; in both cases the index of the catalogue agrees
with the names of its machines.
-/

namespace TargetCatalog

structure IsMemberName (arch : String) : Prop where
  ne_empty : arch ≠ ""
  trim_eq : Text.trim arch = arch
  no_bar : choiceDelimiter ∉ arch.toList

theorem isMemberName_of_mem_expand {name : String} {entries : List String} {v : MachineVariant}
    (hv : v ∈ expand name entries) {arch : String} (hArch : arch ∈ v.archs) :
    IsMemberName arch := by
  obtain ⟨hNe, entry, -, hPiece⟩ := (exists_mem_expand_iff name entries arch).mp ⟨v, hv, hArch⟩
  refine ⟨hNe, trim_of_mem_slotPieces hPiece, ?_⟩
  simpa [isSlot] using isSlot_eq_false_of_mem_slotPieces hPiece

namespace MachineCatalogue

structure WellFormed (c : MachineCatalogue) : Prop where
  members : ∀ m ∈ c.machines, ∀ arch ∈ m.archs, IsMemberName arch
  agrees : c.index.Agrees c.names

theorem wellFormed_empty : empty.WellFormed :=
  ⟨by simp [empty], NameIndex.agrees_empty⟩

@[simp] theorem names_push (c : MachineCatalogue) (m : Machine) :
    (c.push m).names = c.names ++ [m.name] := by
  simp [names, push]

@[simp] theorem machines_foldl_push (c : MachineCatalogue) (batch : List Machine) :
    (batch.foldl push c).machines = c.machines ++ batch := by
  induction batch generalizing c with
  | nil => simp
  | cons m batch ih => simp [ih, push]

@[simp] theorem names_foldl_push (c : MachineCatalogue) (batch : List Machine) :
    (batch.foldl push c).names = c.names ++ batch.map (·.name) := by
  simp [names]

theorem WellFormed.push {c : MachineCatalogue} (h : c.WellFormed) {m : Machine}
    (hMembers : ∀ arch ∈ m.archs, IsMemberName arch) (hNew : m.name ∉ c.names) :
    (c.push m).WellFormed := by
  constructor
  · intro n hn
    rcases List.mem_append.mp hn with hn | hn
    · exact h.members n hn
    · exact List.mem_singleton.mp hn ▸ hMembers
  · rw [names_push]
    simpa [names, MachineCatalogue.push, size] using h.agrees.insert hNew

theorem WellFormed.foldl_push {c : MachineCatalogue} (h : c.WellFormed) {batch : List Machine}
    (hMembers : ∀ m ∈ batch, ∀ arch ∈ m.archs, IsMemberName arch)
    (hNew : ∀ m ∈ batch, m.name ∉ c.names) (hNodup : (batch.map (·.name)).Nodup) :
    (batch.foldl MachineCatalogue.push c).WellFormed := by
  induction batch generalizing c with
  | nil => exact h
  | cons m batch ih =>
    obtain ⟨hHead, hMembers⟩ := List.forall_mem_cons.mp hMembers
    obtain ⟨hHeadNew, hNew⟩ := List.forall_mem_cons.mp hNew
    obtain ⟨hDifferent, hNodup⟩ := List.nodup_cons.mp hNodup
    refine ih (h.push hHead hHeadNew) hMembers (fun n hn => ?_) hNodup
    rw [names_push, List.mem_append, List.mem_singleton, not_or]
    exact ⟨hNew n hn, fun hEq => hDifferent (List.mem_map.mpr ⟨n, hn, hEq⟩)⟩

theorem WellFormed.find?_eq_some_iff {c : MachineCatalogue} (h : c.WellFormed) (name : String)
    (m : Machine) : c.find? name = some m ↔ m ∈ c.machines ∧ m.name = name :=
  h.agrees.find?_bind_eq_some_iff name m

open MachineVariant

theorem run_forM_push (c : MachineCatalogue) (batch : List Machine) :
    (forM batch fun m => modify (·.push m) : Registration MachineCatalogue Unit).run c =
      .ok () (batch.foldl push c) := by
  induction batch generalizing c with
  | nil => rfl
  | cons m batch ih => exact ih (c.push m)

/-- Nothing is appended before all variants are resolved. -/
theorem run_register (c : MachineCatalogue) (archs : ArchCatalogue) (name : String)
    (entries : List String) :
    (register archs name entries).run c =
      match resolveAll archs c.index [] (expand name entries) with
      | .error e => .error e c
      | .ok batch => .ok batch (batch.foldl push c) := by
  rw [register]
  simp only [EStateM.run_bind, EStateM.run_get, run_ofExcept]
  cases resolveAll archs c.index [] (expand name entries) with
  | error e => rfl
  | ok batch => simp [run_forM_push, size]

theorem register_eq_ok_iff (c : MachineCatalogue) (archs : ArchCatalogue) (name : String)
    (entries : List String) (added : List Machine) (after : MachineCatalogue) :
    (register archs name entries).run c = .ok added after ↔
      Registrable archs c.index [] (expand name entries) ∧
        added = (expand name entries).map (resolved archs) ∧ after = added.foldl push c := by
  rw [run_register]
  constructor
  · intro h
    split at h
    · cases h
    · rename_i batch hBatch
      cases h
      obtain ⟨hRegistrable, rfl⟩ := (resolveAll_eq_ok_iff _ _).mp hBatch
      exact ⟨hRegistrable, rfl, rfl⟩
  · rintro ⟨hRegistrable, rfl, rfl⟩
    rw [(resolveAll_eq_ok_iff _ _).mpr ⟨hRegistrable, rfl⟩]

theorem eq_of_register_eq_error {c after : MachineCatalogue} {archs : ArchCatalogue}
    {name : String} {entries : List String} {e : RegistryError}
    (h : (register archs name entries).run c = .error e after) : after = c := by
  rw [run_register] at h
  split at h
  · cases h
    rfl
  · cases h

theorem WellFormed.registrable_iff {c : MachineCatalogue} (h : c.WellFormed)
    (archs : ArchCatalogue) (vs : List MachineVariant) :
    Registrable archs c.index [] vs ↔
      (c.names ++ vs.map (·.name)).Nodup ∧ ∀ v ∈ vs, v.firstUnknown? archs = none := by
  rw [List.nodup_append]
  constructor
  · rintro ⟨hFree, hNodup, hKnown⟩
    refine ⟨⟨h.agrees.nodup, hNodup, ?_⟩, hKnown⟩
    rintro name hName other hOther rfl
    obtain ⟨v, hv, rfl⟩ := List.mem_map.mp hOther
    exact (h.agrees.find?_eq_none_iff v.name).mp (hFree v hv).1 hName
  · rintro ⟨⟨-, hNodup, hApart⟩, hKnown⟩
    refine ⟨fun v hv => ⟨?_, List.not_mem_nil⟩, hNodup, hKnown⟩
    rw [h.agrees.find?_eq_none_iff]
    exact fun hMem => hApart v.name hMem v.name (List.mem_map_of_mem hv) rfl

theorem WellFormed.register {c after : MachineCatalogue} (h : c.WellFormed)
    {archs : ArchCatalogue} {name : String} {entries : List String} {added : List Machine}
    (hRegister : (MachineCatalogue.register archs name entries).run c = .ok added after) :
    after.WellFormed := by
  obtain ⟨hBatch, rfl, rfl⟩ := (register_eq_ok_iff c archs name entries added after).mp hRegister
  apply h.foldl_push
  · intro m hm
    obtain ⟨v, hv, rfl⟩ := List.mem_map.mp hm
    exact fun arch => isMemberName_of_mem_expand hv
  · intro m hm
    obtain ⟨v, hv, rfl⟩ := List.mem_map.mp hm
    exact (h.agrees.find?_eq_none_iff v.name).mp (hBatch.free v hv).1
  · rw [List.map_map]
    exact hBatch.nodup

theorem names_of_register {c after : MachineCatalogue} {archs : ArchCatalogue} {name : String}
    {entries : List String} {added : List Machine}
    (h : (register archs name entries).run c = .ok added after) :
    after.names = c.names ++ (expand name entries).map (·.name) := by
  obtain ⟨-, rfl, rfl⟩ := (register_eq_ok_iff c archs name entries added after).mp h
  rw [names_foldl_push, List.map_map]
  rfl

theorem WellFormed.exists_register_iff {c : MachineCatalogue} (h : c.WellFormed)
    (archs : ArchCatalogue) (name : String) (entries : List String) :
    (∃ added after, (MachineCatalogue.register archs name entries).run c = .ok added after) ↔
      (c.names ++ (expand name entries).map (·.name)).Nodup ∧
        ∀ v ∈ expand name entries, v.firstUnknown? archs = none := by
  rw [← h.registrable_iff]
  constructor
  · rintro ⟨added, after, hRegister⟩
    exact ((register_eq_ok_iff c archs name entries added after).mp hRegister).1
  · intro hBatch
    exact ⟨_, _, (register_eq_ok_iff c archs name entries _ _).mpr ⟨hBatch, rfl, rfl⟩⟩

/-- Variant number `i` has the name of a registered machine, or of an earlier variant. -/
def Collides (c : MachineCatalogue) (vs : List MachineVariant) (i : Nat) : Prop :=
  ∃ v, vs[i]? = some v ∧ (v.name ∈ c.names ∨ v.name ∈ (vs.take i).map (·.name))

/-- Variant number `i` names an architecture that is not registered. -/
def Unresolved (archs : ArchCatalogue) (vs : List MachineVariant) (i : Nat) : Prop :=
  ∃ v, vs[i]? = some v ∧ ∃ arch ∈ v.archs, archs.lookup arch = none

theorem WellFormed.registrable_take {c : MachineCatalogue} (h : c.WellFormed)
    {archs : ArchCatalogue} {vs : List MachineVariant} {n : Nat}
    (hGood : ∀ i < n, ¬ c.Collides vs i ∧ ¬ Unresolved archs vs i) :
    Registrable archs c.index [] (vs.take n) := by
  constructor
  · intro v hv
    obtain ⟨i, hi, rfl⟩ := List.mem_take_iff_getElem.mp hv
    refine ⟨(h.agrees.find?_eq_none_iff _).mpr fun hMem => ?_, List.not_mem_nil⟩
    exact (hGood i (by omega)).1 ⟨_, List.getElem?_eq_getElem (by omega), .inl hMem⟩
  · rw [List.Nodup, List.pairwise_map, List.pairwise_iff_getElem]
    intro i j hi hj hij hEq
    rw [List.length_take] at hi hj
    rw [List.getElem_take, List.getElem_take] at hEq
    have hEarlier : vs[i] ∈ vs.take j := List.mem_take_iff_getElem.mpr ⟨i, by omega, rfl⟩
    exact (hGood j (by omega)).1 ⟨_, List.getElem?_eq_getElem (by omega),
      .inr (List.mem_map.mpr ⟨_, hEarlier, hEq⟩)⟩
  · intro v hv
    obtain ⟨i, hi, rfl⟩ := List.mem_take_iff_getElem.mp hv
    rw [firstUnknown?_eq_none_iff]
    intro arch hArch hLookup
    exact (hGood i (by omega)).2 ⟨_, List.getElem?_eq_getElem (by omega), arch, hArch, hLookup⟩

theorem split_at_getElem? {vs : List MachineVariant} {i : Nat} {v : MachineVariant}
    (h : vs[i]? = some v) : vs = vs.take i ++ v :: vs.drop (i + 1) := by
  obtain ⟨hi, rfl⟩ := List.getElem?_eq_some_iff.mp h
  simp

section FirstFault

variable {c : MachineCatalogue} {archs : ArchCatalogue} {name : String} {entries : List String}
  {vs : List MachineVariant} {i : Nat} {v : MachineVariant}

theorem WellFormed.register_eq_duplicate (h : c.WellFormed) (hExpand : expand name entries = vs)
    (hv : vs[i]? = some v) (hGood : ∀ j < i, ¬ c.Collides vs j ∧ ¬ Unresolved archs vs j)
    (hFault : c.Collides vs i) :
    (MachineCatalogue.register archs name entries).run c =
      .error (.duplicateMachine v.name) c := by
  obtain ⟨u, hu, hTaken⟩ := hFault
  cases hv.symm.trans hu
  rw [← h.agrees.contains_iff] at hTaken
  rw [run_register, hExpand, split_at_getElem? hv,
    resolveAll_eq_duplicate (h.registrable_take hGood) hTaken]

theorem WellFormed.register_eq_unknown (h : c.WellFormed) (hExpand : expand name entries = vs)
    (hv : vs[i]? = some v) (hGood : ∀ j < i, ¬ c.Collides vs j ∧ ¬ Unresolved archs vs j)
    (hFree : ¬ c.Collides vs i) {missing : String}
    (hMissing : v.firstUnknown? archs = some missing) :
    (MachineCatalogue.register archs name entries).run c =
      .error (.unknownArch v.name missing) c := by
  have hNew : v.name ∉ c.names := fun hMem => hFree ⟨v, hv, .inl hMem⟩
  have hBefore : v.name ∉ (vs.take i).map (·.name) := fun hMem => hFree ⟨v, hv, .inr hMem⟩
  rw [run_register, hExpand, split_at_getElem? hv,
    resolveAll_eq_unknown (h.registrable_take hGood)
      ((h.agrees.find?_eq_none_iff _).mpr hNew) hBefore hMissing]

end FirstFault

/-- A declaration whose variants have different names can only collide with registered
machines. -/
theorem WellFormed.mem_names_of_register_eq_duplicate {c after : MachineCatalogue}
    (h : c.WellFormed) {archs : ArchCatalogue} {name taken : String} {entries : List String}
    (hNodup : ((expand name entries).map (·.name)).Nodup)
    (hRegister : (MachineCatalogue.register archs name entries).run c =
      .error (.duplicateMachine taken) after) : taken ∈ c.names := by
  rw [run_register] at hRegister
  split at hRegister
  · rename_i e hBatch
    cases hRegister
    obtain ⟨-, hTaken⟩ := taken_of_resolveAll hNodup hBatch
    exact (h.agrees.contains_iff taken).mp (hTaken.resolve_right List.not_mem_nil)
  · cases hRegister

theorem WellFormed.exists_register_of_good {c : MachineCatalogue} (h : c.WellFormed)
    {archs : ArchCatalogue} {name : String} {entries : List String}
    (hGood : ∀ i, ¬ c.Collides (expand name entries) i ∧
      ¬ Unresolved archs (expand name entries) i) :
    ∃ added after, (MachineCatalogue.register archs name entries).run c = .ok added after := by
  have hAll := h.registrable_take (n := (expand name entries).length) fun i _ => hGood i
  rw [List.take_length, h.registrable_iff] at hAll
  exact (h.exists_register_iff archs name entries).mpr hAll

end MachineCatalogue

end TargetCatalog
