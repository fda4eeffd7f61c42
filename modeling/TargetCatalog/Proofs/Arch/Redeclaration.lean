import Mathlib.Data.List.Nodup
import TargetCatalog.Proofs.Arch.Catalogue
import TargetCatalog.Proofs.Text.Lower

/-!
# Declaring an architecture again

An architecture that is in order can serve as its own declaration: its name is trimmed and its
compilers are listed by their normal forms, so nothing is left to normalize and nothing coincides.
-/

namespace TargetCatalog

/-- All compilers are listed by their normal forms. -/
def FlagTable.Normal (t : FlagTable) : Prop :=
  ∀ e ∈ t.entries, (CompilerId.ofString e.1).text = e.1

theorem normal_of_normalizeFlags {arch : String} {entries : List (String × List String)}
    {result : FlagTable} (h : normalizeFlags arch entries .empty = .ok result) : result.Normal := by
  intro e he
  obtain ⟨old, -, rfl⟩ := List.mem_map.mp ((perm_of_normalizeFlags h).mem_iff.mp he)
  exact congrArg CompilerId.text (CompilerId.ofString_text_ofString old.1)

/-- A table of normal forms is filed as it is. -/
theorem normalizeFlags_of_normal (arch : String) {t : FlagTable} (h : t.Normal) :
    normalizeFlags arch t.entries .empty = .ok t := by
  have hKeys : (t.entries.map fun e => CompilerId.ofString e.1).map CompilerId.text =
      t.entries.map Prod.fst := by
    rw [List.map_map]
    exact List.map_congr_left h
  have hNodup : (t.entries.map fun e => CompilerId.ofString e.1).Nodup :=
    List.Nodup.of_map CompilerId.text (hKeys ▸ t.nodup_keys)
  obtain ⟨result, hResult⟩ := (normalizeFlags_isOk_iff arch t.entries .empty).mpr
    ⟨hNodup, fun _ _ => rfl⟩
  have hSame : t.entries.map normalEntry = t.entries := by
    refine (List.map_congr_left fun e he => ?_).trans (List.map_id t.entries)
    rw [normalEntry, h e he]
    rfl
  have hPerm := perm_of_normalizeFlags hResult
  rw [hSame] at hPerm
  rw [hResult, FlagTable.eq_of_perm hPerm]

namespace Architecture

/-- The declaration that says what the architecture is. -/
def toDef (a : Architecture) : ArchDef where
  name := a.name
  environment := a.environment
  header := a.header
  alignment := a.alignment
  checks := a.checks
  flags := a.flagTable

theorem normal_of_validate {d : ArchDef} {a : Architecture} (h : d.validate = .ok a) :
    a.flagTable.Normal := by
  obtain ⟨-, -, table, hTable, rfl⟩ := (ArchDef.validate_eq_ok_iff d a).mp h
  exact normal_of_normalizeFlags hTable

theorem InOrder.validate_toDef {a : Architecture} (h : a.InOrder) (hFlags : a.flagTable.Normal) :
    a.toDef.validate = .ok a := by
  have hAlign : a.alignment ≠ 0 := by
    intro hZero
    exact absurd (hZero ▸ h.one_le_alignment) (by decide)
  have hTable := normalizeFlags_of_normal (Text.trim a.name) hFlags
  refine (ArchDef.validate_eq_ok_iff a.toDef a).mpr ⟨?_, hAlign, a.flagTable, hTable, ?_⟩
  · rw [toDef, h.trim_name]
    exact h.name_ne_empty
  · simp only [toDef, h.trim_name]

theorem validate_toDef_of_validate {d : ArchDef} {a : Architecture} (h : d.validate = .ok a) :
    a.toDef.validate = .ok a :=
  (inOrder_of_validate h).validate_toDef (normal_of_validate h)

end Architecture

end TargetCatalog
