import TargetCatalog.Machine.Catalogue
import TargetCatalog.Proofs.Outcome

/-!
# Resolving a batch of variants

The variants of a declaration are resolved in order, and the first one that cannot be decides the
error. A batch goes through when its names are free and different and all its architectures are
known, which does not depend on the order.
-/

namespace TargetCatalog.MachineVariant

variable {archs : ArchCatalogue} {index : NameIndex} {batch : List String}

def firstUnknown? (v : MachineVariant) (archs : ArchCatalogue) : Option String :=
  v.archs.find? fun arch => (archs.lookup arch).isNone

/-- The machine that a variant describes when all its architectures are known. -/
def resolved (archs : ArchCatalogue) (v : MachineVariant) : Machine where
  name := v.name
  archs := v.archs
  members := v.archs.filterMap archs.lookup
  alignment :=
    ((((v.archs.filterMap archs.lookup).filterMap archs.get?).map (·.alignment)).max?).getD 1

theorem resolveMembers_eq (machine : String) (names : List String) :
    resolveMembers machine archs names =
      match names.find? fun name => (archs.lookup name).isNone with
      | some missing => .error (.unknownArch machine missing)
      | none => .ok (names.filterMap archs.lookup) := by
  induction names with
  | nil => rfl
  | cons name rest ih =>
    cases hLookup : archs.lookup name with
    | none =>
      rw [List.find?_cons_of_pos (by simp [hLookup])]
      simp [resolveMembers, hLookup]
    | some i =>
      rw [List.find?_cons_of_neg (by simp [hLookup]), resolveMembers, ih,
        List.filterMap_cons_some hLookup]
      cases rest.find? fun name => (archs.lookup name).isNone <;> simp [hLookup, Except.map]

theorem resolve_of_unknown {v : MachineVariant} {missing : String}
    (h : v.firstUnknown? archs = some missing) :
    v.resolve archs = .error (.unknownArch v.name missing) := by
  rw [firstUnknown?] at h
  rw [resolve, resolveMembers_eq, h]
  rfl

theorem resolve_of_known {v : MachineVariant} (h : v.firstUnknown? archs = none) :
    v.resolve archs = .ok (v.resolved archs) := by
  rw [firstUnknown?] at h
  rw [resolve, resolveMembers_eq, h]
  rfl

theorem firstUnknown?_eq_none_iff (v : MachineVariant) :
    v.firstUnknown? archs = none ↔ ∀ arch ∈ v.archs, archs.lookup arch ≠ none := by
  simp [firstUnknown?, Option.isNone_iff_eq_none]

/-- A batch can be registered whatever the order of its variants. -/
structure Registrable (archs : ArchCatalogue) (index : NameIndex) (batch : List String)
    (vs : List MachineVariant) : Prop where
  free : ∀ v ∈ vs, index.find? v.name = none ∧ v.name ∉ batch
  nodup : (vs.map (·.name)).Nodup
  known : ∀ v ∈ vs, v.firstUnknown? archs = none

theorem registrable_nil : Registrable archs index batch [] :=
  ⟨by simp, .nil, by simp⟩

theorem registrable_cons_iff (v : MachineVariant) (rest : List MachineVariant) :
    Registrable archs index batch (v :: rest) ↔
      (index.find? v.name = none ∧ v.name ∉ batch ∧ v.firstUnknown? archs = none) ∧
        Registrable archs index (v.name :: batch) rest := by
  constructor
  · rintro ⟨hFree, hNodup, hKnown⟩
    obtain ⟨hNew, hNodup⟩ := List.nodup_cons.mp hNodup
    obtain ⟨hHead, hFree⟩ := List.forall_mem_cons.mp hFree
    obtain ⟨hHeadKnown, hKnown⟩ := List.forall_mem_cons.mp hKnown
    refine ⟨⟨hHead.1, hHead.2, hHeadKnown⟩, fun u hu => ⟨(hFree u hu).1, ?_⟩, hNodup, hKnown⟩
    rw [List.mem_cons, not_or]
    exact ⟨fun hEq => hNew (List.mem_map.mpr ⟨u, hu, hEq⟩), (hFree u hu).2⟩
  · rintro ⟨⟨hIndex, hBatch, hHeadKnown⟩, hFree, hNodup, hKnown⟩
    refine ⟨List.forall_mem_cons.mpr ⟨⟨hIndex, hBatch⟩, fun u hu => ⟨(hFree u hu).1, ?_⟩⟩,
      List.nodup_cons.mpr ⟨?_, hNodup⟩, List.forall_mem_cons.mpr ⟨hHeadKnown, hKnown⟩⟩
    · exact fun hu' => (hFree u hu).2 (List.mem_cons_of_mem _ hu')
    · intro hMem
      obtain ⟨u, hu, hEq⟩ := List.mem_map.mp hMem
      exact (hFree u hu).2 (hEq ▸ List.mem_cons_self)

theorem resolveAll_cons_of_taken {v : MachineVariant}
    (h : index.contains v.name = true ∨ v.name ∈ batch) (rest : List MachineVariant) :
    resolveAll archs index batch (v :: rest) = .error (.duplicateMachine v.name) := by
  rw [resolveAll, if_pos]
  simpa using h

theorem resolveAll_cons_of_free {v : MachineVariant} (hIndex : index.find? v.name = none)
    (hBatch : v.name ∉ batch) (rest : List MachineVariant) :
    resolveAll archs index batch (v :: rest) = v.resolve archs >>= fun machine =>
      (resolveAll archs index (v.name :: batch) rest).map (machine :: ·) := by
  rw [resolveAll, if_neg]
  · rfl
  · simp [hIndex, hBatch, NameIndex.contains]

/-- Variants that can be registered are resolved before the others are looked at. -/
theorem resolveAll_append {before : List MachineVariant}
    (h : Registrable archs index batch before) (rest : List MachineVariant) :
    resolveAll archs index batch (before ++ rest) =
      (resolveAll archs index ((before.map (·.name)).reverse ++ batch) rest).map
        (before.map (resolved archs) ++ ·) := by
  induction before generalizing batch with
  | nil =>
    cases hRest : resolveAll archs index batch rest <;> simp [hRest, Except.map]
  | cons v before ih =>
    obtain ⟨⟨hIndex, hBatch, hKnown⟩, hBefore⟩ := (registrable_cons_iff v before).mp h
    rw [List.cons_append, resolveAll_cons_of_free hIndex hBatch, resolve_of_known hKnown,
      ih hBefore]
    have hTaken : ((v :: before).map (·.name)).reverse ++ batch =
        (before.map (·.name)).reverse ++ v.name :: batch := by simp
    rw [hTaken]
    cases resolveAll archs index ((before.map (·.name)).reverse ++ v.name :: batch) rest <;> rfl

theorem resolveAll_eq_ok_iff (vs : List MachineVariant) (machines : List Machine) :
    resolveAll archs index batch vs = .ok machines ↔
      Registrable archs index batch vs ∧ machines = vs.map (resolved archs) := by
  induction vs generalizing batch machines with
  | nil => simp [resolveAll, registrable_nil, eq_comm]
  | cons v rest ih =>
    rw [registrable_cons_iff]
    constructor
    · intro h
      rw [resolveAll] at h
      split at h
      · cases h
      · rename_i hFree
        simp only [Bool.or_eq_true, not_or, Bool.not_eq_true, List.contains_eq_mem,
          decide_eq_false_iff_not] at hFree
        obtain ⟨machine, hMachine, h⟩ := bind_eq_ok_iff.mp h
        obtain ⟨tail, hTail, hTotal⟩ := bind_eq_ok_iff.mp h
        obtain ⟨hRest, rfl⟩ := (ih tail).mp hTail
        cases hKnown : v.firstUnknown? archs with
        | some missing =>
          rw [resolve_of_unknown hKnown] at hMachine
          cases hMachine
        | none =>
          rw [resolve_of_known hKnown] at hMachine
          cases hMachine
          cases hTotal
          have hIndex : index.find? v.name = none := by simpa [NameIndex.contains] using hFree.1
          exact ⟨⟨⟨hIndex, hFree.2, rfl⟩, hRest⟩, rfl⟩
    · rintro ⟨⟨⟨hIndex, hBatch, hKnown⟩, hRest⟩, rfl⟩
      rw [resolveAll_cons_of_free hIndex hBatch, resolve_of_known hKnown,
        (ih (rest.map (resolved archs))).mpr ⟨hRest, rfl⟩]
      rfl

/-- A name that is reported as taken was taken before the batch if its variants have different
names. -/
theorem taken_of_resolveAll {vs : List MachineVariant} {name : String}
    (hNodup : (vs.map (·.name)).Nodup)
    (h : resolveAll archs index batch vs = .error (.duplicateMachine name)) :
    name ∈ vs.map (·.name) ∧ (index.contains name = true ∨ name ∈ batch) := by
  induction vs generalizing batch with
  | nil => cases h
  | cons v rest ih =>
    obtain ⟨hNew, hNodup⟩ := List.nodup_cons.mp hNodup
    rw [resolveAll] at h
    split at h
    · rename_i hTaken
      cases h
      exact ⟨List.mem_cons_self, by simpa using hTaken⟩
    · cases hKnown : v.firstUnknown? archs with
      | some missing =>
        rw [resolve_of_unknown hKnown] at h
        cases h
      | none =>
        rw [resolve_of_known hKnown] at h
        have hRest : resolveAll archs index (v.name :: batch) rest =
            .error (.duplicateMachine name) := by
          cases hResult : resolveAll archs index (v.name :: batch) rest with
          | error e => simpa [hResult, bind, Except.bind] using h
          | ok machines => simp [hResult, bind, Except.bind, pure, Except.pure] at h
        obtain ⟨hMem, hTaken⟩ := ih hNodup hRest
        refine ⟨List.mem_cons_of_mem _ hMem, hTaken.imp_right fun hBatch => ?_⟩
        rcases List.mem_cons.mp hBatch with rfl | hBatch
        · exact absurd hMem hNew
        · exact hBatch

theorem resolveAll_eq_duplicate {before : List MachineVariant}
    (h : Registrable archs index [] before) {v : MachineVariant}
    (hTaken : index.contains v.name = true ∨ v.name ∈ before.map (·.name))
    (after : List MachineVariant) :
    resolveAll archs index [] (before ++ v :: after) = .error (.duplicateMachine v.name) := by
  rw [resolveAll_append h, resolveAll_cons_of_taken]
  · rfl
  · simpa using hTaken

theorem resolveAll_eq_unknown {before : List MachineVariant}
    (h : Registrable archs index [] before) {v : MachineVariant} {missing : String}
    (hIndex : index.find? v.name = none) (hBefore : v.name ∉ before.map (·.name))
    (hMissing : v.firstUnknown? archs = some missing) (after : List MachineVariant) :
    resolveAll archs index [] (before ++ v :: after) = .error (.unknownArch v.name missing) := by
  rw [resolveAll_append h, resolveAll_cons_of_free hIndex (by simpa using hBefore),
    resolve_of_unknown hMissing]
  rfl

end TargetCatalog.MachineVariant
