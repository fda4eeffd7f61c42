import TargetCatalog.FlagTable

/-!
# Refilling a flag table

No key of a table is listed twice, and a new key leaves the entries there are as they were: a table
is settled by which entries it has. So a table that is filled with the entries of another one, in
any order, equals it.
-/

namespace TargetCatalog.FlagTable

variable {table : FlagTable} {entries : List (String × List String)}

theorem nodup_keys (t : FlagTable) : (t.entries.map Prod.fst).Nodup := by
  refine List.pairwise_map.mpr (t.ascending.imp fun {a b} hLt hEq => ?_)
  exact String.lt_irrefl b.1 (hEq ▸ hLt)

/-- A key that is new takes its place among the entries there are. -/
theorem perm_alterEntries {key : String} {change : Option (List String) → List String}
    (h : entries.lookup key = none) :
    (alterEntries key change entries).Perm ((key, change none) :: entries) := by
  induction entries with
  | nil => exact .refl _
  | cons entry rest ih =>
    obtain ⟨first, flags⟩ := entry
    have hNone := List.lookup_eq_none_iff.mp h
    have hNe : ¬ key = first := by
      simpa using hNone (first, flags) List.mem_cons_self
    have hRest : rest.lookup key = none :=
      List.lookup_eq_none_iff.mpr fun e he => hNone e (List.mem_cons_of_mem _ he)
    rw [alterEntries, if_neg hNe]
    split
    · exact .refl _
    · exact ((ih hRest).cons (first, flags)).trans (.swap _ _ rest)

theorem perm_entries_insert {key : String} (h : table.find? key = none) (flags : List String) :
    (table.insert key flags).entries.Perm ((key, flags) :: table.entries) :=
  perm_alterEntries h

theorem find?_eq_some_iff (t : FlagTable) (key : String) (flags : List String) :
    t.find? key = some flags ↔ (key, flags) ∈ t.entries := by
  rw [find?, List.lookup_eq_some_iff]
  constructor
  · rintro ⟨before, after, hEntries, -⟩
    rw [hEntries]
    exact List.mem_append_right before List.mem_cons_self
  · intro h
    obtain ⟨before, after, hEntries⟩ := List.append_of_mem h
    refine ⟨before, after, hEntries, fun e he => ?_⟩
    have hAscending := t.ascending
    rw [hEntries] at hAscending
    have hLt : e.1 < key := (List.pairwise_append.mp hAscending).2.2 e he _ List.mem_cons_self
    exact bne_iff_ne.mpr fun hEq => String.lt_irrefl e.1 (hEq ▸ hLt)

theorem perm_foldl_insert (h : ((table.entries ++ entries).map Prod.fst).Nodup) :
    (entries.foldl (fun t (key, flags) => t.insert key flags) table).entries.Perm
      (table.entries ++ entries) := by
  induction entries generalizing table with
  | nil => simp
  | cons entry rest ih =>
    obtain ⟨key, flags⟩ := entry
    have hNew : table.find? key = none := by
      rw [find?, List.lookup_eq_none_iff]
      intro e he
      rw [List.map_append, List.nodup_append] at h
      exact bne_iff_ne.mpr (h.2.2 e.1 (List.mem_map_of_mem he) key (by simp)).symm
    have hInsert : ((table.insert key flags).entries ++ rest).Perm
        (table.entries ++ (key, flags) :: rest) :=
      ((perm_entries_insert hNew flags).append_right rest).trans List.perm_middle.symm
    exact (ih ((hInsert.map Prod.fst).nodup_iff.mpr h)).trans hInsert

/-- A table is settled by its entries in any order. -/
theorem eq_of_perm {a b : FlagTable} (h : a.entries.Perm b.entries) : a = b :=
  FlagTable.ext <| h.eq_of_pairwise
    (fun _ _ _ _ hLt hGt => absurd hGt (String.lt_asymm hLt)) a.ascending b.ascending

theorem ofList_of_perm {t : FlagTable} (h : entries.Perm t.entries) : ofList entries = t := by
  have hNodup : (entries.map Prod.fst).Nodup := (h.map Prod.fst).nodup_iff.mpr t.nodup_keys
  exact eq_of_perm ((perm_foldl_insert (by simpa [empty] using hNodup)).trans h)

theorem eq_empty_of_isEmpty {t : FlagTable} (h : t.isEmpty = true) : t = empty :=
  FlagTable.ext (List.isEmpty_iff.mp h)

end TargetCatalog.FlagTable
