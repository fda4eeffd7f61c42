import Mathlib.Algebra.BigOperators.Group.List.Basic
import Mathlib.Data.Finset.Card
import Mathlib.Data.List.Forall2
import TargetCatalog.Machine.Expansion
import TargetCatalog.Proofs.Text.Padding

/-!
# Expansion as a choice in every slot

A selection picks one choice of each slot of a declaration. The variants of a declaration are those
of its selections, one each, in lexicographic order: opening the slots one after the other, with the
positions of the later ones shifting, comes to the same as filling all of them at once.
-/

namespace TargetCatalog

section EraseDups

variable {α : Type} [DecidableEq α]

/-- Without its repetitions a list is in the order of the first occurrences. -/
theorem pairwise_idxOf_eraseDups (l : List α) :
    l.eraseDups.Pairwise fun a b => l.idxOf a < l.idxOf b := by
  induction l using List.reverseRecOn with
  | nil => exact .nil
  | append_singleton l last ih =>
    have hBefore : ∀ a ∈ l.eraseDups, (l ++ [last]).idxOf a = l.idxOf a := fun a ha =>
      List.idxOf_append_of_mem (List.mem_eraseDups.mp ha)
    rw [List.eraseDups_append, List.pairwise_append]
    refine ⟨ih.imp_of_mem fun ha hb h => ?_, ?_, ?_⟩
    · rwa [hBefore _ ha, hBefore _ hb]
    · by_cases hLast : last ∈ l <;> simp [List.removeAll, List.eraseDups_cons, hLast]
    · intro a ha b hb
      obtain ⟨rfl, hNew⟩ : b = last ∧ b ∉ l := by
        simpa [List.removeAll] using hb
      rw [hBefore a ha, List.idxOf_append_of_notMem hNew]
      have hPosition := List.idxOf_lt_length_of_mem (List.mem_eraseDups.mp ha)
      omega

theorem nodup_eraseDups (l : List α) : l.eraseDups.Nodup :=
  (pairwise_idxOf_eraseDups l).imp fun h hEq => (hEq ▸ h).false

end EraseDups

/-- Every way to pick one of each list of choices; the picks from the first vary slowest. -/
def selections : List (List String) → List (List String)
  | [] => [[]]
  | choices :: rest => choices.flatMap fun choice => (selections rest).map (choice :: ·)

theorem mem_selections_iff (choices : List (List String)) (sel : List String) :
    sel ∈ selections choices ↔ List.Forall₂ (· ∈ ·) sel choices := by
  induction choices generalizing sel with
  | nil => simp [selections]
  | cons first rest ih =>
    simp only [selections, List.mem_flatMap, List.mem_map, List.forall₂_cons_right_iff]
    constructor
    · rintro ⟨choice, hChoice, tail, hTail, rfl⟩
      exact ⟨choice, tail, hChoice, (ih tail).mp hTail, rfl⟩
    · rintro ⟨choice, tail, hChoice, hTail, rfl⟩
      exact ⟨choice, hChoice, tail, (ih tail).mpr hTail, rfl⟩

theorem exists_mem_selections {choices : List (List String)} (h : ∀ l ∈ choices, l ≠ []) :
    ∃ sel, sel ∈ selections choices := by
  induction choices with
  | nil => exact ⟨[], List.mem_singleton_self _⟩
  | cons first rest ih =>
    obtain ⟨hFirst, hRest⟩ := List.forall_mem_cons.mp h
    obtain ⟨choice, hChoice⟩ := List.exists_mem_of_ne_nil first hFirst
    obtain ⟨sel, hSel⟩ := ih hRest
    exact ⟨choice :: sel, List.mem_flatMap.mpr ⟨choice, hChoice, List.mem_map_of_mem hSel⟩⟩

theorem exists_mem_selections_of_mem {choices : List (List String)} (h : ∀ l ∈ choices, l ≠ [])
    {l : List String} (hl : l ∈ choices) {choice : String} (hChoice : choice ∈ l) :
    ∃ sel ∈ selections choices, choice ∈ sel := by
  induction choices with
  | nil => cases hl
  | cons first rest ih =>
    obtain ⟨hFirst, hRest⟩ := List.forall_mem_cons.mp h
    rcases List.mem_cons.mp hl with rfl | hl
    · obtain ⟨sel, hSel⟩ := exists_mem_selections hRest
      exact ⟨choice :: sel, List.mem_flatMap.mpr ⟨choice, hChoice, List.mem_map_of_mem hSel⟩,
        List.mem_cons_self⟩
    · obtain ⟨sel, hSel, hMem⟩ := ih hRest hl
      obtain ⟨head, hHead⟩ := List.exists_mem_of_ne_nil first hFirst
      exact ⟨head :: sel, List.mem_flatMap.mpr ⟨head, hHead, List.mem_map_of_mem hSel⟩,
        List.mem_cons_of_mem _ hMem⟩

theorem length_selections (choices : List (List String)) :
    (selections choices).length = (choices.map List.length).prod := by
  induction choices with
  | nil => rfl
  | cons first rest ih => simp [selections, List.length_flatMap, ih]

def selectionsOf (entries : List String) : List (List String) :=
  selections ((entries.filter isSlot).map splitChoices)

theorem mem_selectionsOf_iff (entries sel : List String) :
    sel ∈ selectionsOf entries ↔
      List.Forall₂ (fun choice slot => choice ∈ slotPieces slot) sel (entries.filter isSlot) := by
  rw [selectionsOf, mem_selections_iff, List.forall₂_map_right_iff]
  simp only [splitChoices, List.mem_eraseDups]

theorem nodup_splitChoices (slot : String) : (splitChoices slot).Nodup :=
  nodup_eraseDups _

theorem length_splitChoices (slot : String) :
    (splitChoices slot).length = (slotPieces slot).toFinset.card := by
  have hSame : (splitChoices slot).toFinset = (slotPieces slot).toFinset := by
    ext choice
    simp [splitChoices]
  rw [← hSame, List.toFinset_card_of_nodup (nodup_splitChoices slot)]

/-- Where each choice of a selection stands first among the pieces of its slot. -/
def choicePositions (slots sel : List String) : List Nat :=
  List.zipWith (fun slot choice => (slotPieces slot).idxOf choice) slots sel

theorem pairwise_selections (slots : List String) :
    (selections (slots.map splitChoices)).Pairwise fun a b =>
      List.Lex (· < ·) (choicePositions slots a) (choicePositions slots b) := by
  induction slots with
  | nil => simp [selections]
  | cons slot rest ih =>
    simp only [List.map_cons, selections]
    refine List.pairwise_flatMap.mpr ⟨?_, ?_⟩
    · intro choice _
      exact List.pairwise_map.mpr (ih.imp fun h => .cons h)
    · refine (pairwise_idxOf_eraseDups (slotPieces slot)).imp ?_
      intro first second hLess a ha b hb
      obtain ⟨_, _, rfl⟩ := List.mem_map.mp ha
      obtain ⟨_, _, rfl⟩ := List.mem_map.mp hb
      exact .rel hLess

/-- The entries, with the choices of a selection in place of the slots. -/
def fillSlots : List String → List String → List String
  | [], _ => []
  | entry :: rest, sel =>
    if isSlot entry then sel.headD "" :: fillSlots rest sel.tail else entry :: fillSlots rest sel

/-- A base name and the choices that are not empty, each behind a separator. -/
def selectedName (name : String) (sel : List String) : String :=
  name ++ String.join ((sel.filter (· ≠ "")).map (nameSeparator ++ ·))

def selectedVariant (name : String) (entries sel : List String) : MachineVariant where
  name := selectedName name sel
  archs := ((fillSlots entries sel).map Text.trim).filter (· ≠ "")

@[simp] theorem selectedName_nil (name : String) : selectedName name [] = name := by
  simp [selectedName]

theorem selectedName_cons_empty (name : String) (sel : List String) :
    selectedName name ("" :: sel) = selectedName name sel := by
  simp [selectedName]

theorem selectedName_cons {choice : String} (h : choice ≠ "") (name : String) (sel : List String) :
    selectedName name (choice :: sel) = selectedName (name ++ nameSeparator ++ choice) sel := by
  simp [selectedName, h, String.append_assoc]

theorem fillSlots_append {before : List String} (h : ∀ entry ∈ before, isSlot entry = false)
    (rest sel : List String) : fillSlots (before ++ rest) sel = before ++ fillSlots rest sel := by
  induction before with
  | nil => rfl
  | cons entry before ih =>
    rw [List.cons_append, fillSlots, if_neg (by simp [h entry List.mem_cons_self]),
      ih fun e he => h e (List.mem_cons_of_mem entry he), List.cons_append]

theorem fillSlots_of_noSlot {entries : List String} (h : ∀ entry ∈ entries, isSlot entry = false)
    (sel : List String) : fillSlots entries sel = entries := by
  simpa [fillSlots] using fillSlots_append h [] sel

theorem fillSlots_cons_slot {slot : String} (h : isSlot slot = true) (rest sel : List String)
    (choice : String) :
    fillSlots (slot :: rest) (choice :: sel) = choice :: fillSlots rest sel := by
  simp [fillSlots, h]

/-- The variants of a list in which some slots may have been opened before. The induction is on the
slots that are left: opening the first one leaves the selections of the others. -/
theorem expandInto_eq_map_selections (name : String) (archs : List String) :
    expandInto name archs = (selections ((archs.filter isSlot).map splitChoices)).map fun sel =>
      ⟨selectedName name sel, (fillSlots archs sel).filter (· ≠ "")⟩ := by
  induction hCount : archs.countP isSlot generalizing name archs with
  | zero =>
    have hNone : ∀ arch ∈ archs, isSlot arch = false := by simpa using hCount
    have hSlots : archs.filter isSlot = [] := by simpa using hCount
    rw [expandInto_of_noSlot name hNone, hSlots]
    simp [selections, fillSlots_of_noSlot hNone]
  | succ n ih =>
    obtain ⟨i, hFirst⟩ : ∃ i, archs.findIdx? isSlot = some i := by
      rw [← Option.isSome_iff_exists, List.findIdx?_isSome, List.any_eq_true]
      exact List.countP_pos_iff.mp (hCount ▸ Nat.succ_pos n)
    obtain ⟨before, slot, after, rfl, rfl, hSlot, hBefore⟩ := exists_first_slot hFirst
    have hNone : before.filter isSlot = [] := by simpa using hBefore
    have hZero : before.countP isSlot = 0 := by simpa using hBefore
    have hAfter : after.countP isSlot = n := by simpa [hZero, hSlot] using hCount
    rw [expandInto_of_slot name hBefore hSlot]
    simp only [List.filter_append, hNone, List.nil_append, List.filter_cons_of_pos hSlot,
      List.map_cons, selections, List.map_flatMap, List.map_map]
    apply List.flatMap_congr
    intro choice hChoice
    have hNot := isSlot_eq_false_of_mem_splitChoices hChoice
    split
    · subst choice
      rw [ih name (before ++ after) (by simp [hZero, hAfter])]
      simp [hNone, Function.comp_def, fillSlots_append hBefore, fillSlots_cons_slot hSlot,
        selectedName_cons_empty]
    · rename_i hEmpty
      rw [ih _ (before ++ choice :: after) (by simp [hZero, hNot, hAfter])]
      have hFill : ∀ sel, fillSlots (choice :: after) sel = choice :: fillSlots after sel := by
        intro sel
        simp [fillSlots, hNot]
      simp [hNone, hNot, hEmpty, Function.comp_def, fillSlots_append hBefore, hFill,
        fillSlots_cons_slot hSlot, selectedName_cons]

@[simp] theorem isSlot_trim (entry : String) : isSlot (Text.trim entry) = isSlot entry := by
  have hBar : Text.isSpace choiceDelimiter = false := by decide
  simp [isSlot, Text.mem_trimChars_iff hBar]

@[simp] theorem slotPieces_trim (entry : String) :
    slotPieces (Text.trim entry) = slotPieces entry :=
  Text.map_trim_split_trim (by decide) entry

theorem trim_of_mem_slotPieces {choice entry : String} (h : choice ∈ slotPieces entry) :
    Text.trim choice = choice := by
  obtain ⟨piece, -, rfl⟩ := List.mem_map.mp h
  exact Text.trim_trim piece

theorem mem_slotPieces_of_mem_selectionsOf {entries sel : List String}
    (hSel : sel ∈ selectionsOf entries) {choice : String} (h : choice ∈ sel) :
    ∃ slot ∈ entries, isSlot slot = true ∧ choice ∈ slotPieces slot := by
  obtain ⟨k, hk, rfl⟩ := List.mem_iff_getElem.mp h
  have hPicks := List.forall₂_iff_get.mp ((mem_selectionsOf_iff entries sel).mp hSel)
  have hSlot := List.mem_filter.mp (List.get_mem (entries.filter isSlot) ⟨k, hPicks.1 ▸ hk⟩)
  exact ⟨_, hSlot.1, hSlot.2, hPicks.2 k hk (hPicks.1 ▸ hk)⟩

theorem map_trim_fillSlots (entries sel : List String) :
    (fillSlots entries sel).map Text.trim =
      fillSlots (entries.map Text.trim) (sel.map Text.trim) := by
  induction entries generalizing sel with
  | nil => rfl
  | cons entry rest ih =>
    by_cases hSlot : isSlot entry = true
    · cases sel with
      | nil => simpa [fillSlots, hSlot] using ⟨rfl, ih []⟩
      | cons choice sel => simp [fillSlots, hSlot, ih]
    · simp [fillSlots, hSlot, ih]

theorem expand_eq_map_selectedVariant (name : String) (entries : List String) :
    expand name entries = (selectionsOf entries).map (selectedVariant name entries) := by
  have hSlots : (entries.map Text.trim).filter isSlot = (entries.filter isSlot).map Text.trim := by
    simp [List.filter_map, Function.comp_def]
  have hChoices : ((entries.filter isSlot).map Text.trim).map splitChoices =
      (entries.filter isSlot).map splitChoices := by
    simp [splitChoices]
  rw [expand, expandInto_eq_map_selections, hSlots, hChoices]
  apply List.map_congr_left
  intro sel hSel
  have hPicked : ∀ choice ∈ sel, Text.trim choice = choice := by
    intro choice hChoice
    obtain ⟨slot, -, -, hPiece⟩ := mem_slotPieces_of_mem_selectionsOf hSel hChoice
    exact trim_of_mem_slotPieces hPiece
  have hTrimmed : sel.map Text.trim = sel := (List.map_congr_left hPicked).trans (List.map_id sel)
  rw [selectedVariant, map_trim_fillSlots, hTrimmed]

theorem length_of_mem_selectionsOf {entries sel : List String} (h : sel ∈ selectionsOf entries) :
    sel.length = (entries.filter isSlot).length :=
  ((mem_selectionsOf_iff entries sel).mp h).length_eq

theorem mem_fillSlots_iff {entries sel : List String}
    (h : sel.length = (entries.filter isSlot).length) (x : String) :
    x ∈ fillSlots entries sel ↔ x ∈ entries ∧ isSlot x = false ∨ x ∈ sel := by
  induction entries generalizing sel with
  | nil =>
    have hNil : sel = [] := List.length_eq_zero_iff.mp h
    simp [fillSlots, hNil]
  | cons entry rest ih =>
    cases hSlot : isSlot entry with
    | true =>
      rw [List.filter_cons_of_pos hSlot] at h
      cases sel with
      | nil => cases h
      | cons choice sel =>
        rw [fillSlots_cons_slot hSlot, List.mem_cons, ih (Nat.succ.inj h), List.mem_cons,
          List.mem_cons]
        constructor
        · rintro (rfl | ⟨hx, hNot⟩ | hx)
          · exact .inr (.inl rfl)
          · exact .inl ⟨.inr hx, hNot⟩
          · exact .inr (.inr hx)
        · rintro (⟨rfl | hx, hNot⟩ | rfl | hx)
          · exact absurd hSlot (by simp [hNot])
          · exact .inr (.inl ⟨hx, hNot⟩)
          · exact .inl rfl
          · exact .inr (.inr hx)
    | false =>
      rw [List.filter_cons_of_neg (by simp [hSlot])] at h
      rw [fillSlots, if_neg (by simp [hSlot]), List.mem_cons, ih h, List.mem_cons]
      constructor
      · rintro (rfl | ⟨hx, hNot⟩ | hx)
        · exact .inl ⟨.inl rfl, hSlot⟩
        · exact .inl ⟨.inr hx, hNot⟩
        · exact .inr hx
      · rintro (⟨rfl | hx, hNot⟩ | hx)
        · exact .inl rfl
        · exact .inr (.inl ⟨hx, hNot⟩)
        · exact .inr (.inr hx)

theorem slotPieces_ne_nil (entry : String) : slotPieces entry ≠ [] := by
  simp [slotPieces, Text.split]

theorem slotPieces_of_noSlot {entry : String} (h : isSlot entry = false) :
    slotPieces entry = [Text.trim entry] := by
  have hBars : choiceDelimiter ∉ entry.toList := by
    simpa [isSlot] using h
  simp [slotPieces, Text.split, List.splitOn_eq_singleton hBars]

/-- Every choice is made in some variant, and nothing else becomes a member. -/
theorem exists_mem_expand_iff (name : String) (entries : List String) (arch : String) :
    (∃ v ∈ expand name entries, arch ∈ v.archs) ↔
      arch ≠ "" ∧ ∃ entry ∈ entries, arch ∈ slotPieces entry := by
  have hMember : ∀ sel ∈ selectionsOf entries, arch ∈ (selectedVariant name entries sel).archs ↔
      arch ≠ "" ∧ ∃ x, (x ∈ entries ∧ isSlot x = false ∨ x ∈ sel) ∧ Text.trim x = arch := by
    intro sel hSel
    simp only [selectedVariant, List.mem_filter, List.mem_map, decide_eq_true_eq,
      mem_fillSlots_iff (length_of_mem_selectionsOf hSel)]
    exact and_comm
  have hChoices : ∀ l ∈ (entries.filter isSlot).map splitChoices, l ≠ [] := by
    intro l hl hNil
    obtain ⟨slot, -, rfl⟩ := List.mem_map.mp hl
    obtain ⟨piece, hPiece⟩ := List.exists_mem_of_ne_nil _ (slotPieces_ne_nil slot)
    have hChoice : piece ∈ splitChoices slot := List.mem_eraseDups.mpr hPiece
    rw [hNil] at hChoice
    cases hChoice
  simp only [expand_eq_map_selectedVariant, List.mem_map, exists_exists_and_eq_and]
  constructor
  · rintro ⟨sel, hSel, hArch⟩
    obtain ⟨hNe, x, ⟨hx, hNot⟩ | hx, rfl⟩ := (hMember sel hSel).mp hArch
    · exact ⟨hNe, x, hx, by simp [slotPieces_of_noSlot hNot]⟩
    · obtain ⟨slot, hSlot, -, hPiece⟩ := mem_slotPieces_of_mem_selectionsOf hSel hx
      exact ⟨hNe, slot, hSlot, (trim_of_mem_slotPieces hPiece).symm ▸ hPiece⟩
  · rintro ⟨hNe, entry, hEntry, hPiece⟩
    cases hSlot : isSlot entry with
    | true =>
      obtain ⟨sel, hSel, hMem⟩ := exists_mem_selections_of_mem hChoices
        (List.mem_map_of_mem (List.mem_filter.mpr ⟨hEntry, hSlot⟩)) (List.mem_eraseDups.mpr hPiece)
      exact ⟨sel, hSel, (hMember sel hSel).mpr
        ⟨hNe, arch, .inr hMem, trim_of_mem_slotPieces hPiece⟩⟩
    | false =>
      rw [slotPieces_of_noSlot hSlot, List.mem_singleton] at hPiece
      obtain ⟨sel, hSel⟩ := exists_mem_selections hChoices
      exact ⟨sel, hSel, (hMember sel hSel).mpr ⟨hNe, entry, .inl ⟨hEntry, hSlot⟩, hPiece.symm⟩⟩

/-- Expansion enumerates the selections of a declaration, each of them once, in lexicographic order
of the positions of their choices. -/
theorem expand_eq_ordered_selections (name : String) (entries : List String) :
    expand name entries = (selectionsOf entries).map (selectedVariant name entries) ∧
    (∀ sel, sel ∈ selectionsOf entries ↔
      List.Forall₂ (fun choice slot => choice ∈ slotPieces slot) sel (entries.filter isSlot)) ∧
    ((selectionsOf entries).Pairwise fun a b => List.Lex (· < ·)
      (choicePositions (entries.filter isSlot) a) (choicePositions (entries.filter isSlot) b)) ∧
    (expand name entries).length =
      ((entries.filter isSlot).map fun slot => (slotPieces slot).toFinset.card).prod := by
  refine ⟨expand_eq_map_selectedVariant name entries, mem_selectionsOf_iff entries,
    pairwise_selections _, ?_⟩
  rw [expand_eq_map_selectedVariant, List.length_map, selectionsOf, length_selections]
  simp [Function.comp_def, length_splitChoices]

example : (expand "m" ["32|", "generic", "sse|"]).map (·.name) =
    ["m_32_sse", "m_32", "m_sse", "m"] := by
  rw [expand_eq_map_selectedVariant]
  rfl

end TargetCatalog
