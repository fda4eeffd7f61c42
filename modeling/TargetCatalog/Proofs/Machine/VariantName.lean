import TargetCatalog.Proofs.Machine.Selection
import TargetCatalog.Proofs.Registry.Session
import TargetCatalog.Proofs.Text.Separator

/-!
# Names of variants

The name of a variant lists the choices that are not empty, and says nothing of the slots that are
left out. It can be read back, and the variants of one declaration have different names, when no
choice holds the separator and when no choice can stand for two slots; if every slot has to be
filled, the second condition is not needed.
-/

namespace TargetCatalog

theorem selectedName_eq_join (name : String) (sel : List String) :
    selectedName name sel = Text.join (.singleton '_') (name :: sel.filter (· ≠ "")) :=
  (Text.join_cons nameSeparator name (sel.filter (· ≠ ""))).symm

theorem split_selectedName {sel : List String} (h : ∀ choice ∈ sel, '_' ∉ choice.toList) :
    Text.split '_' (selectedName "" sel) = "" :: sel.filter (· ≠ "") := by
  rw [selectedName_eq_join, Text.split_join_eq_iff (List.cons_ne_nil _ _)]
  refine List.forall_mem_cons.mpr ⟨by simp, fun choice hChoice => ?_⟩
  exact h choice (List.mem_of_mem_filter hChoice)

theorem filter_eq_of_selectedName_eq {name : String} {a b : List String}
    (ha : ∀ choice ∈ a, '_' ∉ choice.toList) (hb : ∀ choice ∈ b, '_' ∉ choice.toList)
    (h : selectedName name a = selectedName name b) :
    a.filter (· ≠ "") = b.filter (· ≠ "") := by
  have hSuffix : selectedName "" a = selectedName "" b := by
    simp only [selectedName, String.append_right_inj] at h ⊢
    exact h
  have hRead := congrArg (Text.split '_') hSuffix
  rw [split_selectedName ha, split_selectedName hb] at hRead
  exact (List.cons.inj hRead).2

section Apart

variable {slots a b : List String}

theorem exists_slot_of_mem (ha : List.Forall₂ (fun choice slot => choice ∈ slotPieces slot) a slots)
    {choice : String} (h : choice ∈ a) : ∃ slot ∈ slots, choice ∈ slotPieces slot := by
  induction ha with
  | nil => cases h
  | @cons first slot a slots hFirst _ ih =>
    rcases List.mem_cons.mp h with rfl | h
    · exact ⟨slot, List.mem_cons_self, hFirst⟩
    · obtain ⟨other, hOther, hPiece⟩ := ih h
      exact ⟨other, List.mem_cons_of_mem slot hOther, hPiece⟩

/-- A choice of a slot is not among the choices for other slots. -/
theorem eq_empty_of_filter_eq {slot choice : String}
    (hApart : ∀ other ∈ slots, ∀ piece ∈ slotPieces slot, piece ≠ "" → piece ∉ slotPieces other)
    (ha : List.Forall₂ (fun choice slot => choice ∈ slotPieces slot) a slots)
    (hChoice : choice ∈ slotPieces slot)
    (h : a.filter (· ≠ "") = (choice :: b).filter (· ≠ "")) : choice = "" := by
  by_contra hNe
  have hMem : choice ∈ a.filter (· ≠ "") := by
    rw [h, List.filter_cons_of_pos (by simpa using hNe)]
    exact List.mem_cons_self
  obtain ⟨other, hOther, hPiece⟩ := exists_slot_of_mem ha (List.mem_of_mem_filter hMem)
  exact hApart other hOther choice hChoice hNe hPiece

theorem eq_of_filter_eq
    (hApart : slots.Pairwise fun slot other =>
      ∀ piece ∈ slotPieces slot, piece ≠ "" → piece ∉ slotPieces other)
    (ha : List.Forall₂ (fun choice slot => choice ∈ slotPieces slot) a slots)
    (hb : List.Forall₂ (fun choice slot => choice ∈ slotPieces slot) b slots)
    (h : a.filter (· ≠ "") = b.filter (· ≠ "")) : a = b := by
  induction ha generalizing b with
  | nil =>
    cases hb
    rfl
  | @cons choice slot a slots hChoice ha ih =>
    obtain ⟨hFirst, hRest⟩ := List.pairwise_cons.mp hApart
    cases hb with
    | @cons other _ b _ hOther hb =>
      -- Where one selection leaves the slot out, the next name of the other is of a later slot.
      by_cases hEmpty : choice = ""
      · rw [List.filter_cons_of_neg (by simpa using hEmpty)] at h
        have hBoth := eq_empty_of_filter_eq hFirst ha hOther h
        rw [List.filter_cons_of_neg (by simpa using hBoth)] at h
        rw [hEmpty, hBoth, ih hRest hb h]
      · have hFilled : other ≠ "" := by
          intro hBoth
          rw [List.filter_cons_of_neg (a := other) (by simpa using hBoth)] at h
          exact hEmpty (eq_empty_of_filter_eq hFirst hb hChoice h.symm)
        rw [List.filter_cons_of_pos (by simpa using hEmpty),
          List.filter_cons_of_pos (by simpa using hFilled)] at h
        obtain ⟨hHead, hTail⟩ := List.cons.inj h
        rw [hHead, ih hRest hb hTail]

end Apart

theorem nodup_selectionsOf (entries : List String) : (selectionsOf entries).Nodup := by
  refine (pairwise_selections (entries.filter isSlot)).imp ?_
  rintro a _ hLess rfl
  exact List.lt_irrefl _ hLess

/-- The choices that a name lists tell which choice each slot has. -/
theorem eq_of_selectedName_eq {name : String} {entries : List String}
    (hPlain : ∀ slot ∈ entries, isSlot slot = true → ∀ choice ∈ slotPieces slot,
      '_' ∉ choice.toList)
    (hApart : (∀ slot ∈ entries, isSlot slot = true → "" ∉ slotPieces slot) ∨
      (entries.filter isSlot).Pairwise fun slot other =>
        ∀ choice ∈ slotPieces slot, choice ≠ "" → choice ∉ slotPieces other)
    {a b : List String} (ha : a ∈ selectionsOf entries) (hb : b ∈ selectionsOf entries)
    (h : selectedName name a = selectedName name b) : a = b := by
  have hFree : ∀ sel ∈ selectionsOf entries, ∀ choice ∈ sel, '_' ∉ choice.toList := by
    intro sel hSel choice hChoice
    obtain ⟨slot, hSlot, hIs, hPiece⟩ := mem_slotPieces_of_mem_selectionsOf hSel hChoice
    exact hPlain slot hSlot hIs choice hPiece
  have hFilled := filter_eq_of_selectedName_eq (hFree a ha) (hFree b hb) h
  rcases hApart with hNone | hApart
  · have hKept : ∀ sel ∈ selectionsOf entries, sel.filter (· ≠ "") = sel := by
      intro sel hSel
      refine List.filter_eq_self.mpr fun choice hChoice => decide_eq_true ?_
      rintro rfl
      obtain ⟨slot, hSlot, hIs, hPiece⟩ := mem_slotPieces_of_mem_selectionsOf hSel hChoice
      exact hNone slot hSlot hIs hPiece
    rw [← hKept a ha, hFilled, hKept b hb]
  · exact eq_of_filter_eq hApart ((mem_selectionsOf_iff entries a).mp ha)
      ((mem_selectionsOf_iff entries b).mp hb) hFilled

/-- The variants of a declaration have different names if its choices can be told apart in them; a
name that is reported as taken was then registered before. -/
theorem variant_names_nodup (name : String) (entries : List String)
    (hPlain : ∀ slot ∈ entries, isSlot slot = true → ∀ choice ∈ slotPieces slot, choice ≠ "" →
      '_' ∉ choice.toList)
    (hApart : (∀ slot ∈ entries, isSlot slot = true → "" ∉ slotPieces slot) ∨
      (entries.filter isSlot).Pairwise fun slot other =>
        ∀ choice ∈ slotPieces slot, choice ≠ "" → choice ∉ slotPieces other) :
    ((expand name entries).map (·.name)).Nodup ∧
    ∀ (past : List SessionStep) (k a : Nat) (taken : String),
      let s := Session.empty.run past
      (s.step (.machine k a name entries)).1 = .error (.duplicateMachine taken) →
        taken ∈ (s.machines k).names := by
  have hPieces : ∀ slot ∈ entries, isSlot slot = true → ∀ choice ∈ slotPieces slot,
      '_' ∉ choice.toList := by
    intro slot hSlot hIs choice hChoice hMark
    refine hPlain slot hSlot hIs choice hChoice ?_ hMark
    rintro rfl
    cases hMark
  have hNodup : ((expand name entries).map (·.name)).Nodup := by
    rw [expand_eq_map_selectedVariant, List.map_map]
    refine List.Nodup.map_on ?_ (nodup_selectionsOf entries)
    intro a ha b hb hName
    exact eq_of_selectedName_eq hPieces hApart ha hb hName
  refine ⟨hNodup, ?_⟩
  intro past k a taken s hTaken
  have hMachines : (s.machines k).WellFormed := (Session.wellFormed_empty.run past).machines k
  cases hRegister : (MachineCatalogue.register (s.archs a) name entries).run (s.machines k) with
  | error e after =>
    rw [Session.step_machine_of_error hRegister] at hTaken
    cases hTaken
    exact hMachines.mem_names_of_register_eq_duplicate hNodup hRegister
  | ok added after =>
    rw [Session.step_machine_of_ok hRegister] at hTaken
    cases hTaken

theorem variant_names_nodup_of_optional_slots :
    let entries := [" generic ", "32|64 |", "sse||avx|sse"]
    let past :=
      ["generic", "32", "64", "sse", "avx"].map (fun n => SessionStep.arch 0 (.named n)) ++
        [.machine 1 0 "m_64" []]
    let s := Session.empty.run past
    (∀ slot ∈ entries, isSlot slot = true → ∀ choice ∈ slotPieces slot, choice ≠ "" →
      '_' ∉ choice.toList) ∧
    ((entries.filter isSlot).Pairwise fun slot other =>
      ∀ choice ∈ slotPieces slot, choice ≠ "" → choice ∉ slotPieces other) ∧
    ((expand "m" entries).map (·.name)).Nodup ∧
    (s.step (.machine 1 0 "m" entries)).1 = .error (.duplicateMachine "m_64") ∧
    "m_64" ∈ (s.machines 1).names := by
  intro entries past s
  have hPlain : ∀ slot ∈ entries, isSlot slot = true → ∀ choice ∈ slotPieces slot, choice ≠ "" →
      '_' ∉ choice.toList := by decide +kernel
  have hApart : (entries.filter isSlot).Pairwise fun slot other =>
      ∀ choice ∈ slotPieces slot, choice ≠ "" → choice ∉ slotPieces other := by decide +kernel
  have hTaken : (s.step (.machine 1 0 "m" entries)).1 = .error (.duplicateMachine "m_64") := by
    decide +kernel
  obtain ⟨hNodup, hBefore⟩ := variant_names_nodup "m" entries hPlain (.inr hApart)
  exact ⟨hPlain, hApart, hNodup, hTaken, hBefore past 1 0 "m_64" hTaken⟩

end TargetCatalog
