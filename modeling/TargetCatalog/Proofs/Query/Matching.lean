import TargetCatalog.Proofs.Query.Stability

/-!
# Alternatives that are available

Which machines of one declaration are found for a set of available architectures. The selections
that ask for nothing else are those of the declaration with all other choices struck from its
slots; so to expand first and to ask later comes to the same as to strike first and to expand then.
-/

namespace TargetCatalog

/-- Nothing is asked for, or an architecture that is available. -/
def ArchSet.admits (s : ArchSet) (choice : String) : Bool :=
  choice = "" || s.contains choice

theorem filter_selections (p : String → Bool) (choices : List (List String)) :
    (selections choices).filter (·.all p) = selections (choices.map (·.filter p)) := by
  induction choices with
  | nil => rfl
  | cons first rest ih =>
    simp only [List.map_cons, selections, List.filter_flatMap, ← ih]
    induction first with
    | nil => rfl
    | cons choice first ihFirst =>
      rw [List.flatMap_cons, ihFirst, List.filter_map]
      by_cases hChoice : p choice = true
      · rw [List.filter_cons_of_pos hChoice, List.flatMap_cons]
        simp [Function.comp_def, hChoice]
      · rw [List.filter_cons_of_neg hChoice]
        simp [Function.comp_def, hChoice]

theorem length_filter_selectionsOf (p : String → Bool) (entries : List String) :
    ((selectionsOf entries).filter (·.all p)).length =
      ((entries.filter isSlot).map fun slot =>
        ((slotPieces slot).toFinset.filter fun choice => p choice = true).card).prod := by
  have hCard : ∀ slot, ((splitChoices slot).filter p).length =
      ((slotPieces slot).toFinset.filter fun choice => p choice = true).card := by
    intro slot
    have hSame : (splitChoices slot).toFinset = (slotPieces slot).toFinset := by
      ext choice
      simp [splitChoices]
    rw [← hSame, ← List.toFinset_filter,
      List.toFinset_card_of_nodup ((nodup_splitChoices slot).filter p)]
  rw [selectionsOf, filter_selections, length_selections, List.map_map, List.map_map]
  exact congrArg List.prod (List.map_congr_left fun slot _ => hCard slot)

section Available

variable {available : ArchSet} {name : String} {entries sel : List String}

theorem all_contains_selectedVariant (hSel : sel ∈ selectionsOf entries) :
    (selectedVariant name entries sel).archs.all available.contains = true ↔
      (∀ entry ∈ entries, isSlot entry = false → available.admits (Text.trim entry) = true) ∧
        sel.all available.admits = true := by
  have hAll : (selectedVariant name entries sel).archs.all available.contains = true ↔
      ∀ x ∈ fillSlots entries sel, available.admits (Text.trim x) = true := by
    simp [selectedVariant, ArchSet.admits, imp_iff_not_or]
  have hPicked : ∀ choice ∈ sel, Text.trim choice = choice := by
    intro choice hChoice
    obtain ⟨slot, -, -, hPiece⟩ := mem_slotPieces_of_mem_selectionsOf hSel hChoice
    exact trim_of_mem_slotPieces hPiece
  simp only [hAll, mem_fillSlots_iff (length_of_mem_selectionsOf hSel), List.all_eq_true]
  constructor
  · intro h
    refine ⟨fun entry hEntry hNot => h entry (.inl ⟨hEntry, hNot⟩), fun choice hChoice => ?_⟩
    rw [← hPicked choice hChoice]
    exact h choice (.inr hChoice)
  · rintro ⟨hFixed, hChoices⟩ x (⟨hEntry, hNot⟩ | hChoice)
    · exact hFixed x hEntry hNot
    · rw [hPicked x hChoice]
      exact hChoices x hChoice

theorem filter_expand_of_unavailable {entry : String} (hEntry : entry ∈ entries)
    (hFixed : isSlot entry = false) (hMissing : available.admits (Text.trim entry) = false) :
    (expand name entries).filter (fun v => v.archs.all available.contains) = [] := by
  rw [expand_eq_map_selectedVariant, List.filter_eq_nil_iff]
  intro v hv
  obtain ⟨sel, hSel, rfl⟩ := List.mem_map.mp hv
  rw [all_contains_selectedVariant hSel]
  rintro ⟨hAll, -⟩
  rw [hAll entry hEntry hFixed] at hMissing
  cases hMissing

theorem filter_expand_of_available
    (hFixed : ∀ entry ∈ entries, isSlot entry = false →
      available.admits (Text.trim entry) = true) :
    (expand name entries).filter (fun v => v.archs.all available.contains) =
      ((selectionsOf entries).filter (·.all available.admits)).map
        (selectedVariant name entries) := by
  rw [expand_eq_map_selectedVariant, List.filter_map]
  congr 1
  apply List.filter_congr
  intro sel hSel
  rw [Bool.eq_iff_iff, Function.comp_apply, all_contains_selectedVariant hSel]
  exact and_iff_right hFixed

end Available

namespace MachineCatalogue

variable {c : MachineCatalogue}

/-- The names of some machines pick these machines out of the catalogue. -/
theorem WellFormed.filter_mem_names (h : c.WellFormed) {before batch after : List Machine}
    (hSplit : c.machines = before ++ batch ++ after) :
    c.machines.filter (fun m => decide (m.name ∈ batch.map (·.name))) = batch := by
  have hNodup : (c.machines.map (·.name)).Nodup := h.agrees.nodup
  rw [hSplit, List.map_append, List.map_append, List.append_assoc, List.nodup_append] at hNodup
  obtain ⟨-, hTail, hBefore⟩ := hNodup
  obtain ⟨-, -, hAfter⟩ := List.nodup_append.mp hTail
  have hNone : ∀ m ∈ before, ¬ decide (m.name ∈ batch.map (·.name)) = true := by
    intro m hm hMem
    exact hBefore m.name (List.mem_map_of_mem hm) m.name
      (List.mem_append_left _ (of_decide_eq_true hMem)) rfl
  have hNeither : ∀ m ∈ after, ¬ decide (m.name ∈ batch.map (·.name)) = true := by
    intro m hm hMem
    exact hAfter m.name (of_decide_eq_true hMem) m.name (List.mem_map_of_mem hm) rfl
  have hAll : ∀ m ∈ batch, decide (m.name ∈ batch.map (·.name)) = true :=
    fun m hm => decide_eq_true (List.mem_map_of_mem hm)
  rw [hSplit, List.filter_append, List.filter_append, List.filter_eq_nil_iff.mpr hNone,
    List.filter_eq_nil_iff.mpr hNeither, List.filter_eq_self.mpr hAll, List.nil_append,
    List.append_nil]

end MachineCatalogue

namespace Registry

variable {r : Registry} {available : ArchSet}

/-- A machine is found by its name exactly for its own members. -/
theorem name_mem_machinesMatching_iff (h : r.machines.WellFormed) {m : Machine}
    (hm : m ∈ r.machines.machines) :
    m.name ∈ r.machinesMatching available ↔ m.archs.all available.contains = true := by
  rw [machinesMatching, List.mem_map]
  constructor
  · rintro ⟨n, hn, hName⟩
    obtain ⟨hMem, hAll⟩ := List.mem_filter.mp hn
    rwa [h.agrees.eq_of_name_eq hMem hm hName] at hAll
  · intro hAll
    exact ⟨m, List.mem_filter.mpr ⟨hm, hAll⟩, rfl⟩

theorem filter_machinesMatching_names (h : r.machines.WellFormed)
    {before batch after : List Machine}
    (hSplit : r.machines.machines = before ++ batch ++ after) :
    (r.machinesMatching available).filter (fun n => decide (n ∈ batch.map (·.name))) =
      (batch.filter fun m => m.archs.all available.contains).map (·.name) := by
  have hBatch : r.machines.machines.filter
      ((fun n => decide (n ∈ batch.map (·.name))) ∘ fun m => m.name) = batch :=
    h.filter_mem_names hSplit
  rw [machinesMatching, List.filter_map, List.filter_comm, hBatch]

end Registry

namespace RegistryBuilder

variable {b after : RegistryBuilder} {name : String} {entries : List String}
  {added : List Machine}

theorem added_of_step_machine
    (h : b.step (.machine name entries) = (.ok (.machines added), after)) :
    added.map Machine.variant = expand name entries ∧
      after.machines.machines = b.machines.machines ++ added := by
  obtain ⟨new, machines, hRegister, hAdded, rfl⟩ :=
    (attempt_machine_eq_ok_iff ..).mp (step_eq_ok_iff.mp h)
  cases hAdded
  exact ⟨MachineCatalogue.map_variant_of_register hRegister,
    MachineCatalogue.machines_of_register hRegister⟩

end RegistryBuilder

/-- Of the machines that a declaration has added, those are found for a set of architectures whose
selections ask for nothing else, in order: none if a member without alternatives is missing, and
otherwise as many as there are ways to choose available alternatives. The registry may have grown
in the meantime. -/
theorem Registry.machinesMatching_of_declaration (past future : List BuildStep) (name : String)
    (entries : List String) (added : List Machine)
    (hStep : ((RegistryBuilder.empty.run past).2.step (.machine name entries)).1 =
      .ok (.machines added)) (available : ArchSet) :
    let after := ((RegistryBuilder.empty.run past).2.step (.machine name entries)).2
    let r := (after.run future).2.finish
    let found := added.filter fun m => decide (m.name ∈ r.machinesMatching available)
    (r.machinesMatching available).filter (fun n => decide (n ∈ added.map (·.name))) =
      found.map (·.name) ∧
    ((∃ entry ∈ entries, isSlot entry = false ∧ Text.trim entry ≠ "" ∧
        available.contains (Text.trim entry) = false) → found = []) ∧
    ((¬ ∃ entry ∈ entries, isSlot entry = false ∧ Text.trim entry ≠ "" ∧
        available.contains (Text.trim entry) = false) →
      found.map Machine.variant =
        ((selectionsOf entries).filter
          (·.all fun choice => choice = "" || available.contains choice)).map
            (selectedVariant name entries) ∧
      found.length = ((entries.filter isSlot).map fun slot => ((slotPieces slot).toFinset.filter
        fun choice => choice = "" ∨ available.contains choice = true).card).prod) := by
  intro after r found
  have hTaken : (RegistryBuilder.empty.run past).2.step (.machine name entries) =
      (.ok (.machines added), after) := Prod.ext hStep rfl
  obtain ⟨hVariants, hAfter⟩ := RegistryBuilder.added_of_step_machine hTaken
  have hRun := RegistryBuilder.consistent_empty.run past
  have hWell : r.machines.WellFormed :=
    (hRun.run (.machine name entries :: future)).wellFormed.machines
  obtain ⟨rest, hRest⟩ := (RegistryBuilder.extends_run after future).machines
  have hSplit : r.machines.machines =
      (RegistryBuilder.empty.run past).2.machines.machines ++ added ++ rest := by
    rw [← hAfter]
    exact hRest.symm
  have hFound : found = added.filter fun m => m.archs.all available.contains := by
    apply List.filter_congr
    intro m hm
    have hMem : m ∈ r.machines.machines := by simp [hSplit, hm]
    rw [Bool.eq_iff_iff, decide_eq_true_iff, Registry.name_mem_machinesMatching_iff hWell hMem]
  have hShapes : found.map Machine.variant =
      (expand name entries).filter fun v => v.archs.all available.contains := by
    rw [hFound, ← hVariants, List.filter_map]
    rfl
  refine ⟨?_, ?_, ?_⟩
  · rw [hFound, Registry.filter_machinesMatching_names hWell hSplit]
  · rintro ⟨entry, hEntry, hFixed, hNe, hMissing⟩
    rw [filter_expand_of_unavailable hEntry hFixed (by simp [ArchSet.admits, hNe, hMissing])]
      at hShapes
    exact List.map_eq_nil_iff.mp hShapes
  · intro hNone
    rw [filter_expand_of_available] at hShapes
    · refine ⟨hShapes, ?_⟩
      have hLength := congrArg List.length hShapes
      rw [List.length_map, List.length_map, length_filter_selectionsOf] at hLength
      simpa [ArchSet.admits] using hLength
    · intro entry hEntry hFixed
      by_contra hNot
      refine hNone ⟨entry, hEntry, hFixed, ?_⟩
      simpa [ArchSet.admits] using hNot

theorem Registry.machinesMatching_of_two_slots :
    let past := ["generic", "32", "64", "sse", "avx"].map fun n => BuildStep.arch (.named n)
    let entries := [" generic ", "32 | 64", "sse|avx||sse"]
    let taken := (RegistryBuilder.empty.run past).2.step (.machine "m" entries)
    let added := taken.2.machines.machines
    let r := (taken.2.run [.machine "n" ["64"]]).2.finish
    let listed := ArchSet.parse "generic;sse;64"
    let bare := ArchSet.parse "sse;64"
    let found := fun available => added.filter fun m =>
      decide (m.name ∈ r.machinesMatching available)
    taken.1 = .ok (.machines added) ∧ added.length = 6 ∧
      r.machinesMatching listed = ["m_64_sse", "m_64", "n"] ∧
      (found listed).map (·.name) = ["m_64_sse", "m_64"] ∧
      (found listed).length = ((entries.filter isSlot).map fun slot =>
        ((slotPieces slot).toFinset.filter fun choice =>
          choice = "" ∨ listed.contains choice = true).card).prod ∧
      found bare = [] := by
  intro past entries taken added r listed bare found
  have hStep : taken.1 = .ok (.machines added) := by decide +kernel
  have hSize : added.length = 6 := by decide +kernel
  have hFound : r.machinesMatching listed = ["m_64_sse", "m_64", "n"] := by decide +kernel
  have hNames : (found listed).map (·.name) = ["m_64_sse", "m_64"] := by decide +kernel
  have hListed : ¬ ∃ entry ∈ entries, isSlot entry = false ∧ Text.trim entry ≠ "" ∧
      listed.contains (Text.trim entry) = false := by decide +kernel
  have hBare : ∃ entry ∈ entries, isSlot entry = false ∧ Text.trim entry ≠ "" ∧
      bare.contains (Text.trim entry) = false := by decide +kernel
  obtain ⟨-, -, hAll⟩ := machinesMatching_of_declaration past [.machine "n" ["64"]] "m" entries
    added hStep listed
  obtain ⟨-, hNone, -⟩ := machinesMatching_of_declaration past [.machine "n" ["64"]] "m" entries
    added hStep bare
  exact ⟨hStep, hSize, hFound, hNames, (hAll hListed).2, hNone hBare⟩

end TargetCatalog
