import TargetCatalog.Arch.Catalogue
import TargetCatalog.Proofs.FlagTable
import TargetCatalog.Proofs.NameIndex
import TargetCatalog.Proofs.Outcome
import TargetCatalog.Proofs.Text.Padding

/-!
# Registered architectures

A declaration is accepted when it has a name and an alignment and no compiler is listed twice. Every
catalogue that registration builds holds only architectures in order, and its index agrees with the
names of its architectures. Registration only appends, so a later catalogue begins with every
earlier one: what a position or a name meant in the earlier one, it means in all later ones.
-/

namespace TargetCatalog

theorem normalizeFlags_isOk_iff (arch : String) (entries : List (String × List String))
    (table : FlagTable) :
    (∃ t, normalizeFlags arch entries table = .ok t) ↔
      (entries.map fun e => CompilerId.ofString e.1).Nodup ∧
        ∀ e ∈ entries, table.find? (CompilerId.ofString e.1).text = none := by
  induction entries generalizing table with
  | nil => simp [normalizeFlags]
  | cons entry rest ih =>
    obtain ⟨key, flags⟩ := entry
    cases hFound : table.find? (CompilerId.ofString key).text with
    | some old => simp [normalizeFlags, FlagTable.contains, hFound]
    | none =>
      have hInsert : ∀ e : String × List String,
          (table.insert (CompilerId.ofString key).text flags).find? (CompilerId.ofString e.1).text =
            none ↔ CompilerId.ofString key ≠ CompilerId.ofString e.1 ∧
              table.find? (CompilerId.ofString e.1).text = none := by
        intro e
        simp only [FlagTable.find?_insert, CompilerId.text_inj]
        by_cases hKey : CompilerId.ofString e.1 = CompilerId.ofString key
        · simp [hKey]
        · simp [hKey, Ne.symm hKey]
      simp only [normalizeFlags, FlagTable.contains, hFound, Option.isSome_none,
        Bool.false_eq_true, if_false, ih, hInsert]
      simp only [List.map_cons, List.nodup_cons, List.mem_map, List.forall_mem_cons, hFound]
      constructor
      · rintro ⟨hNodup, hRest⟩
        refine ⟨⟨?_, hNodup⟩, trivial, fun e he => (hRest e he).2⟩
        rintro ⟨e, he, hEq⟩
        exact (hRest e he).1 hEq.symm
      · rintro ⟨⟨hNew, hNodup⟩, -, hRest⟩
        exact ⟨hNodup, fun e he => ⟨fun hEq => hNew ⟨e, he, hEq.symm⟩, hRest e he⟩⟩

/-- An entry under the identifier of its compiler. -/
def normalEntry (e : String × List String) : String × List String :=
  ((CompilerId.ofString e.1).text, e.2)

theorem normalEntry_eq_iff (e : String × List String) (compiler : CompilerId)
    (flags : List String) :
    normalEntry e = (compiler.text, flags) ↔ CompilerId.ofString e.1 = compiler ∧ e.2 = flags := by
  rw [normalEntry, Prod.mk.injEq, CompilerId.text_inj]

/-- What is filed is moved at most: no entry is lost, and no two are merged. -/
theorem perm_of_normalizeFlags {arch : String} {entries : List (String × List String)}
    {table result : FlagTable}
    (h : normalizeFlags arch entries table = .ok result) :
    result.entries.Perm (table.entries ++ entries.map normalEntry) := by
  induction entries generalizing table with
  | nil =>
    cases h
    simp
  | cons entry rest ih =>
    obtain ⟨key, flags⟩ := entry
    simp only [normalizeFlags] at h
    split at h
    · cases h
    · rename_i hFree
      have hNew : table.find? (CompilerId.ofString key).text = none := by
        simpa [FlagTable.contains] using hFree
      have hFiled := (FlagTable.perm_entries_insert hNew flags).append_right (rest.map normalEntry)
      exact ((ih h).trans hFiled).trans List.perm_middle.symm

namespace ArchDef

/-- The declaration can be registered if its name is not taken. -/
structure Valid (d : ArchDef) : Prop where
  name_ne_empty : Text.trim d.name ≠ ""
  alignment_ne_zero : d.alignment ≠ 0
  compilers_nodup : (d.flags.entries.map fun e => CompilerId.ofString e.1).Nodup

theorem validate_eq_ok_iff (d : ArchDef) (a : Architecture) :
    d.validate = .ok a ↔ Text.trim d.name ≠ "" ∧ d.alignment ≠ 0 ∧
      ∃ table, normalizeFlags (Text.trim d.name) d.flags.entries .empty = .ok table ∧
        a = ⟨Text.trim d.name, d.environment, d.header, d.alignment, d.checks, table⟩ := by
  by_cases hName : Text.trim d.name = ""
  · simp [validate, hName]
  · by_cases hAlign : d.alignment = 0
    · simp [validate, hName, hAlign]
    · simp only [validate, hName, hAlign, if_false, bind_eq_ok_iff, pure_eq_ok_iff, ne_eq,
        not_false_eq_true, true_and]
      exact exists_congr fun table => and_congr_right fun _ => eq_comm

theorem validate_isOk_iff (d : ArchDef) : (∃ a, d.validate = .ok a) ↔ d.Valid := by
  have hFlags := normalizeFlags_isOk_iff (Text.trim d.name) d.flags.entries .empty
  constructor
  · rintro ⟨a, h⟩
    obtain ⟨hName, hAlign, table, hTable, -⟩ := (validate_eq_ok_iff d a).mp h
    exact ⟨hName, hAlign, (hFlags.mp ⟨table, hTable⟩).1⟩
  · rintro ⟨hName, hAlign, hNodup⟩
    obtain ⟨table, hTable⟩ := hFlags.mpr ⟨hNodup, fun e _ => rfl⟩
    exact ⟨_, (validate_eq_ok_iff d _).mpr ⟨hName, hAlign, table, hTable, rfl⟩⟩

end ArchDef

structure Architecture.InOrder (a : Architecture) : Prop where
  name_ne_empty : a.name ≠ ""
  trim_name : Text.trim a.name = a.name
  one_le_alignment : 1 ≤ a.alignment

theorem Architecture.inOrder_of_validate {d : ArchDef} {a : Architecture}
    (h : d.validate = .ok a) : a.InOrder := by
  obtain ⟨hName, hAlign, table, -, rfl⟩ := (ArchDef.validate_eq_ok_iff d a).mp h
  refine ⟨hName, Text.trim_trim d.name, ?_⟩
  rw [UInt32.le_iff_toNat_le]
  exact Nat.one_le_iff_ne_zero.mpr fun hZero => hAlign (UInt32.toNat_inj.mp hZero)

namespace ArchCatalogue

structure WellFormed (c : ArchCatalogue) : Prop where
  inOrder : ∀ arch ∈ c.archs, arch.InOrder
  agrees : c.index.Agrees c.names

theorem wellFormed_empty : empty.WellFormed :=
  ⟨by simp [empty], NameIndex.agrees_empty⟩

theorem WellFormed.push {c : ArchCatalogue} (h : c.WellFormed) {arch : Architecture}
    (hOrder : arch.InOrder) (hNew : arch.name ∉ c.names) : (c.push arch).WellFormed := by
  constructor
  · intro a ha
    rcases List.mem_append.mp ha with ha | ha
    · exact h.inOrder a ha
    · exact List.mem_singleton.mp ha ▸ hOrder
  · have hAgrees := h.agrees.insert hNew
    simpa [names, ArchCatalogue.push, size] using hAgrees

/-- Registration reads the catalogue once, and changes it by `push` or not at all. -/
theorem run_register (c : ArchCatalogue) (d : ArchDef) :
    (register d).run c =
      match d.validate with
      | .error e => .error e c
      | .ok arch =>
        if c.index.contains arch.name then .error (.duplicateArch arch.name) c
        else .ok ⟨c.size⟩ (c.push arch) := by
  rw [register, EStateM.run_bind, run_ofExcept]
  cases d.validate with
  | error e => rfl
  | ok arch =>
    simp only [EStateM.run_bind, EStateM.run_get]
    split <;> rfl

theorem register_eq_ok_iff (c : ArchCatalogue) (d : ArchDef) (i : ArchIndex)
    (after : ArchCatalogue) :
    (register d).run c = .ok i after ↔ ∃ arch, d.validate = .ok arch ∧
      c.index.find? arch.name = none ∧ i = ⟨c.size⟩ ∧ after = c.push arch := by
  rw [run_register]
  cases hValid : d.validate with
  | error e => simp
  | ok arch =>
    cases hFound : c.index.find? arch.name with
    | some i => simp [NameIndex.contains, hFound]
    | none => simp [NameIndex.contains, hFound, eq_comm]

theorem eq_of_register_eq_error {c after : ArchCatalogue} {d : ArchDef} {e : RegistryError}
    (h : (register d).run c = .error e after) : after = c := by
  rw [run_register] at h
  cases hValid : d.validate with
  | error e =>
    rw [hValid] at h
    cases h
    rfl
  | ok arch =>
    simp only [hValid] at h
    split at h
    · cases h
      rfl
    · cases h

theorem WellFormed.register {c after : ArchCatalogue} (h : c.WellFormed) {d : ArchDef}
    {i : ArchIndex} (hRegister : (ArchCatalogue.register d).run c = .ok i after) :
    after.WellFormed := by
  obtain ⟨arch, hValid, hNew, -, rfl⟩ := (register_eq_ok_iff c d i after).mp hRegister
  exact h.push (Architecture.inOrder_of_validate hValid) ((h.agrees.find?_eq_none_iff _).mp hNew)

theorem names_of_register {c after : ArchCatalogue} {d : ArchDef} {i : ArchIndex}
    (h : (register d).run c = .ok i after) : after.names = c.names ++ [Text.trim d.name] := by
  obtain ⟨arch, hValid, -, -, rfl⟩ := (register_eq_ok_iff c d i after).mp h
  obtain ⟨-, -, table, -, rfl⟩ := (ArchDef.validate_eq_ok_iff d arch).mp hValid
  simp [names, push]

theorem WellFormed.exists_register_iff {c : ArchCatalogue} (h : c.WellFormed) (d : ArchDef) :
    (∃ i after, (ArchCatalogue.register d).run c = .ok i after) ↔
      d.Valid ∧ (c.names ++ [Text.trim d.name]).Nodup := by
  have hFree : (c.names ++ [Text.trim d.name]).Nodup ↔
      c.index.find? (Text.trim d.name) = none := by
    rw [h.agrees.find?_eq_none_iff, (List.perm_append_singleton _ _).nodup_iff, List.nodup_cons]
    exact and_iff_left h.agrees.nodup
  rw [hFree, ← ArchDef.validate_isOk_iff]
  constructor
  · rintro ⟨i, after, hRegister⟩
    obtain ⟨arch, hValid, hNew, -⟩ := (register_eq_ok_iff c d i after).mp hRegister
    obtain ⟨-, -, table, -, rfl⟩ := (ArchDef.validate_eq_ok_iff d arch).mp hValid
    exact ⟨⟨_, hValid⟩, hNew⟩
  · rintro ⟨⟨arch, hValid⟩, hNew⟩
    obtain ⟨-, -, table, -, rfl⟩ := (ArchDef.validate_eq_ok_iff d arch).mp hValid
    exact ⟨_, _, (register_eq_ok_iff c d _ _).mpr ⟨_, hValid, hNew, rfl, rfl⟩⟩

theorem WellFormed.lookup_eq_some_iff {c : ArchCatalogue} (h : c.WellFormed) (name : String)
    (i : ArchIndex) : c.lookup name = some i ↔ (c.get? i).map (·.name) = some name := by
  obtain ⟨position⟩ := i
  have hIndex := h.agrees name position
  simpa [lookup, get?, names] using hIndex

theorem WellFormed.lookup_ne_none_iff {c : ArchCatalogue} (h : c.WellFormed) (name : String) :
    c.lookup name ≠ none ↔ name ∈ c.names := by
  rw [lookup, ne_eq, Option.map_eq_none_iff, h.agrees.find?_eq_none_iff, not_not]

theorem WellFormed.find?_eq_some_iff {c : ArchCatalogue} (h : c.WellFormed) (name : String)
    (arch : Architecture) : c.find? name = some arch ↔ arch ∈ c.archs ∧ arch.name = name := by
  rw [find?, lookup, Option.bind_map]
  exact h.agrees.find?_bind_eq_some_iff name arch

/-- The catalogue begins with all entries of an earlier one. -/
def Extends (later c : ArchCatalogue) : Prop :=
  c.archs <+: later.archs

theorem Extends.refl (c : ArchCatalogue) : c.Extends c :=
  List.prefix_rfl

theorem Extends.trans {last later c : ArchCatalogue} (h : last.Extends later)
    (h' : later.Extends c) : last.Extends c :=
  List.IsPrefix.trans h' h

theorem extends_of_register {c after : ArchCatalogue} {d : ArchDef} {i : ArchIndex}
    (h : (register d).run c = .ok i after) : after.Extends c := by
  obtain ⟨arch, -, -, -, rfl⟩ := (register_eq_ok_iff c d i after).mp h
  exact List.prefix_append c.archs [arch]

section Stable

variable {c later : ArchCatalogue} {name : String} {i : ArchIndex} {arch : Architecture}

theorem Extends.get?_eq_some (h : later.Extends c) (hGet : c.get? i = some arch) :
    later.get? i = some arch := by
  obtain ⟨hi, rfl⟩ := List.getElem?_eq_some_iff.mp hGet
  exact List.prefix_iff_getElem?.mp h i.position hi

/-- A position that a name leads to holds the architecture of that name. -/
theorem WellFormed.exists_get?_of_lookup (h : c.WellFormed) (hFound : c.lookup name = some i) :
    ∃ arch, c.get? i = some arch ∧ arch.name = name :=
  Option.map_eq_some_iff.mp ((h.lookup_eq_some_iff name i).mp hFound)

theorem WellFormed.find?_of_lookup (h : c.WellFormed) (hFound : c.lookup name = some i) :
    ∃ arch, c.get? i = some arch ∧ arch.name = name ∧ c.find? name = some arch := by
  obtain ⟨arch, hGet, hName⟩ := h.exists_get?_of_lookup hFound
  exact ⟨arch, hGet, hName, by rw [find?, hFound, Option.bind_some, hGet]⟩

theorem WellFormed.lookup_of_get? (h : c.WellFormed) (hGet : c.get? i = some arch) :
    c.lookup arch.name = some i := by
  rw [h.lookup_eq_some_iff, hGet, Option.map_some]

theorem Extends.lookup_eq_some (h : later.Extends c) (hc : c.WellFormed) (hLater : later.WellFormed)
    (hFound : c.lookup name = some i) : later.lookup name = some i := by
  obtain ⟨arch, hGet, rfl⟩ := hc.exists_get?_of_lookup hFound
  exact hLater.lookup_of_get? (h.get?_eq_some hGet)

end Stable

end ArchCatalogue

end TargetCatalog
