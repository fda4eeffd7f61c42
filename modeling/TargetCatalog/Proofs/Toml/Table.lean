import TargetCatalog.Proofs.Toml.Line

/-!
# Tables of a written document

What the sections of a written document add to its tables. Settings with distinct keys are entered
one behind the other, sections with double brackets extend the list of tables under their key, and
a section on the way to another one is entered in the last table of that list.
-/

namespace TargetCatalog.Toml

def entryOf (line : String × Setting) : String × Node :=
  (line.1, .value line.2.toDatum)

@[simp] theorem map_fst_map_entryOf (settings : List (String × Setting)) :
    (settings.map entryOf).map Prod.fst = settings.map Prod.fst := by
  simp [entryOf]

/-- The same section in a table on the way to which one more key lies. -/
def Section.below (key : String) (s : Section) : Section :=
  { s with path := key :: s.path }

namespace Entries

variable {entries parent : Entries} {key : String}

theorem node?_of_notMem (h : key ∉ entries.map Prod.fst) : entries.node? key = none := by
  rw [node?, List.lookup_eq_none_iff]
  intro entry hEntry
  rw [bne_iff_ne]
  rintro rfl
  exact h (List.mem_map_of_mem hEntry)

theorem node?_append (h : key ∉ parent.map Prod.fst) (node : Node) :
    node? (parent ++ [(key, node)]) key = some node := by
  have hNone := node?_of_notMem h
  rw [node?] at hNone ⊢
  simp [List.lookup_append, hNone]

theorem replace_append (h : key ∉ parent.map Prod.fst) (old node : Node) :
    replace key node (parent ++ [(key, old)]) = parent ++ [(key, node)] := by
  induction parent with
  | nil => simp [replace]
  | cons entry parent ih =>
    rw [List.map_cons, List.mem_cons, not_or] at h
    rw [List.cons_append, replace, if_neg (Ne.symm h.1), ih h.2, List.cons_append]

theorem assignAll_of_nodup {settings : List (String × Setting)}
    (h : (entries.map Prod.fst ++ settings.map Prod.fst).Nodup) :
    assignAll (settings.map assignmentOf) entries = some (entries ++ settings.map entryOf) := by
  induction settings generalizing entries with
  | nil => simp [assignAll]
  | cons line settings ih =>
    have hNew : line.1 ∉ entries.map Prod.fst := by
      intro hOld
      exact (List.nodup_append.mp h).2.2 line.1 hOld line.1 (by simp) rfl
    have hNext : ((entries ++ [entryOf line]).map Prod.fst ++ settings.map Prod.fst).Nodup := by
      simpa [entryOf] using h
    have hAssign : assign line.1 line.2.toDatum [] entries = some (entries ++ [entryOf line]) := by
      rw [assign, node?_of_notMem hNew]
      rfl
    have hRest := ih hNext
    rw [assignAll] at hRest ⊢
    rw [List.map_cons, List.foldlM_cons]
    simp only [assignmentOf, hAssign] at hRest ⊢
    simpa using hRest

theorem assignAll_nil_of_nodup {settings : List (String × Setting)}
    (h : (settings.map Prod.fst).Nodup) :
    assignAll (settings.map assignmentOf) [] = some (settings.map entryOf) :=
  assignAll_of_nodup h

/-- A table with a list of tables under one more key, unless there are none. -/
def listing (key : String) (items : List Entries) (parent : Entries) : Entries :=
  match items.getLast? with
  | none => parent
  | some last => parent ++ [(key, .tables items.dropLast last)]

@[simp] theorem listing_nil (key : String) (parent : Entries) : listing key [] parent = parent :=
  rfl

theorem listing_concat (key : String) (items : List Entries) (last parent : Entries) :
    listing key (items ++ [last]) parent = parent ++ [(key, .tables items last)] := by
  simp [listing]

theorem notMem_keys_listing {other : String} (hNe : other ≠ key)
    (hOther : other ∉ parent.map Prod.fst) (items : List Entries) :
    other ∉ (listing key items parent).map Prod.fst := by
  obtain rfl | ⟨earlier, last, rfl⟩ := List.eq_nil_or_concat items
  · exact hOther
  · rw [List.concat_eq_append, listing_concat, List.map_append, List.mem_append, not_or]
    exact ⟨hOther, by simpa using hNe⟩

theorem pushTable_listing (hKey : key ∉ parent.map Prod.fst) {body : List Assignment}
    {table : Entries} (hBody : assignAll body [] = some table) (items : List Entries) :
    pushTable key body (listing key items parent) =
      some (listing key (items ++ [table]) parent) := by
  obtain rfl | ⟨earlier, last, rfl⟩ := List.eq_nil_or_concat items
  · simp [pushTable, node?_of_notMem hKey, hBody, listing]
  · rw [List.concat_eq_append, listing_concat, listing_concat]
    simp [pushTable, node?_append hKey, hBody, replace_append hKey]

theorem putTable_of_notMem (hKey : key ∉ parent.map Prod.fst) {body : List Assignment}
    {table : Entries} (hBody : assignAll body [] = some table) :
    putTable key body parent = some (parent ++ [(key, .table .header table)]) := by
  simp [putTable, node?_of_notMem hKey, hBody]

theorem descend_listing (hKey : key ∉ parent.map Prod.fst) (items : List Entries)
    (last : Entries) (change : Entries → Option Entries) (path : List String) :
    descend change (key :: path) (listing key (items ++ [last]) parent) =
      (descend change path last).map fun table => listing key (items ++ [table]) parent := by
  simp only [listing_concat, descend, node?_append hKey, replace_append hKey]
  cases descend change path last with
  | none => rfl
  | some table => rfl

theorem addSection_below (hKey : key ∉ parent.map Prod.fst) (items : List Entries)
    (last : Entries) (s : Section) :
    addSection (listing key (items ++ [last]) parent) (s.below key) =
      (addSection last s).map fun table => listing key (items ++ [table]) parent :=
  descend_listing hKey items last _ s.path

theorem foldlM_below (hKey : key ∉ parent.map Prod.fst) (items : List Entries) (last : Entries)
    (sections : List Section) :
    (sections.map (Section.below key)).foldlM addSection (listing key (items ++ [last]) parent) =
      (sections.foldlM addSection last).map fun table => listing key (items ++ [table]) parent := by
  induction sections generalizing last with
  | nil => rfl
  | cons s sections ih =>
    rw [List.map_cons, List.foldlM_cons, List.foldlM_cons, addSection_below hKey]
    cases hAdd : addSection last s with
    | none => rfl
    | some table => simp [ih]

/-- Sections with the same header in double brackets, each with settings of its own. -/
theorem foldlM_listing {ι : Type} {settings : ι → List (String × Setting)}
    (hSettings : ∀ x, ((settings x).map Prod.fst).Nodup) {xs : List ι}
    (hKey : xs ≠ [] → key ∉ parent.map Prod.fst) (items : List Entries) :
    (xs.map fun x => ⟨true, [], key, (settings x).map assignmentOf⟩).foldlM addSection
        (listing key items parent) =
      some (listing key (items ++ xs.map fun x => (settings x).map entryOf) parent) := by
  induction xs generalizing items with
  | nil => simp
  | cons x xs ih =>
    have hNew := hKey (List.cons_ne_nil x xs)
    have hAdd : addSection (listing key items parent)
        ⟨true, [], key, (settings x).map assignmentOf⟩ =
          some (listing key (items ++ [(settings x).map entryOf]) parent) :=
      pushTable_listing hNew (assignAll_nil_of_nodup (hSettings x)) items
    rw [List.map_cons, List.foldlM_cons, hAdd, Option.bind_eq_bind, Option.bind_some,
      ih (fun _ => hNew)]
    simp

theorem entriesToFields_eq_map (entries : Entries) :
    entriesToFields entries = entries.map entryToField := by
  induction entries with
  | nil => rfl
  | cons entry entries ih => rw [entriesToFields, ih, List.map_cons]

theorem tablesToItems_eq_map (tables : List Entries) :
    tablesToItems tables = tables.map toDatum := by
  induction tables with
  | nil => rfl
  | cons table tables ih =>
    rw [tablesToItems, ih, List.map_cons]
    rfl

theorem map_entryToField_entryOf (settings : List (String × Setting)) :
    (settings.map entryOf).map entryToField =
      settings.map fun line => (line.1, line.2.toDatum) := by
  simp [entryOf, entryToField, Node.toDatum]

theorem toDatum_map_entryOf (settings : List (String × Setting)) :
    toDatum (settings.map entryOf) =
      .record (settings.map fun line => (line.1, line.2.toDatum)) := by
  rw [toDatum, entriesToFields_eq_map, map_entryToField_entryOf]

theorem map_entryToField_listing (items : List Entries) :
    (listing key items parent).map entryToField =
      parent.map entryToField ++
        if items = [] then [] else [(key, .list (items.map toDatum))] := by
  obtain rfl | ⟨earlier, last, rfl⟩ := List.eq_nil_or_concat items
  · simp
  · rw [List.concat_eq_append, listing_concat]
    simp [entryToField, Node.toDatum, tablesToItems_eq_map, toDatum]

end Entries

end TargetCatalog.Toml
