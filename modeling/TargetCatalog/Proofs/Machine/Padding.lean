import TargetCatalog.Proofs.Machine.Selection
import TargetCatalog.Proofs.Text.Words

/-!
# Padded entries

The entries of a declaration may have white space at their ends and around their bars. What an entry
stands for is the list of its pieces without the white space around them, and a declaration expands
to the same machines for all entries with the same pieces.
-/

namespace TargetCatalog

open Text

/-- White space is added at the ends of an entry, and around the bars in it. -/
inductive PadsTo : List Char → List Char → Prop
  | last {front piece back : List Char} (hFront : IsBlank front) (hBack : IsBlank back)
    (hPiece : choiceDelimiter ∉ piece) : PadsTo piece (front ++ piece ++ back)
  | bar {front piece back entry padded : List Char} (hFront : IsBlank front) (hBack : IsBlank back)
    (hPiece : choiceDelimiter ∉ piece) (hRest : PadsTo entry padded) :
    PadsTo (piece ++ choiceDelimiter :: entry) (front ++ piece ++ back ++ choiceDelimiter :: padded)

theorem PadsTo.map_trimChars_eq {entry padded : List Char} (h : PadsTo entry padded) :
    (padded.splitOn choiceDelimiter).map trimChars =
      (entry.splitOn choiceDelimiter).map trimChars := by
  induction h with
  | last hFront hBack _ => exact map_trimChars_splitOn_of_padded (by decide) hFront hBack _
  | bar hFront hBack _ _ ih =>
    rw [List.splitOn_append_cons_self, List.splitOn_append_cons_self, List.map_append,
      List.map_append, ih, map_trimChars_splitOn_of_padded (by decide) hFront hBack]

theorem map_toList_slotPieces (entry : String) : (slotPieces entry).map String.toList =
    (entry.toList.splitOn choiceDelimiter).map trimChars := by
  simp [slotPieces, split, Function.comp_def]

theorem slotPieces_of_padsTo {entry padded : String} (h : PadsTo entry.toList padded.toList) :
    slotPieces padded = slotPieces entry := by
  have hInjective : Function.Injective String.toList := fun _ _ => String.toList_inj.mp
  apply hInjective.list_map
  rw [map_toList_slotPieces, map_toList_slotPieces, h.map_trimChars_eq]

theorem isSlot_eq_decide (entry : String) :
    isSlot entry = decide (1 < (slotPieces entry).length) := by
  cases hSlot : isSlot entry with
  | false => simp [slotPieces_of_noSlot hSlot]
  | true =>
    obtain ⟨front, back, hEntry⟩ := List.append_of_mem (List.contains_iff_mem.mp hSlot)
    have hFront := List.length_pos_of_ne_nil (List.splitOn_ne_nil choiceDelimiter front)
    have hBack := List.length_pos_of_ne_nil (List.splitOn_ne_nil choiceDelimiter back)
    have hLength : 1 < (entry.toList.splitOn choiceDelimiter).length := by
      rw [hEntry, List.splitOn_append_cons_self, List.length_append]
      omega
    simpa [slotPieces, split] using hLength

/-- The two entries have the same pieces. -/
def SamePieces (a b : String) : Prop :=
  slotPieces a = slotPieces b

namespace SamePieces

variable {a b : String} {as bs : List String}

theorem isSlot_eq (h : SamePieces a b) : isSlot a = isSlot b := by
  rw [isSlot_eq_decide, isSlot_eq_decide, h]

theorem trim_eq (h : SamePieces a b) (hSlot : isSlot a = false) : trim a = trim b := by
  have hOther : isSlot b = false := h.isSlot_eq ▸ hSlot
  have hPieces : [trim a] = [trim b] := by
    rw [← slotPieces_of_noSlot hSlot, ← slotPieces_of_noSlot hOther]
    exact h
  exact List.head_eq_of_cons_eq hPieces

theorem selectionsOf_eq (h : List.Forall₂ SamePieces as bs) :
    selectionsOf as = selectionsOf bs := by
  have hChoices : (as.filter isSlot).map splitChoices = (bs.filter isSlot).map splitChoices := by
    induction h with
    | nil => rfl
    | @cons a b as bs hFirst _ ih =>
      have hSplit : splitChoices a = splitChoices b := congrArg List.eraseDups hFirst
      rw [List.filter_cons, List.filter_cons, hFirst.isSlot_eq]
      split
      · rw [List.map_cons, List.map_cons, hSplit, ih]
      · exact ih
  rw [selectionsOf, selectionsOf, hChoices]

theorem map_trim_fillSlots_eq (h : List.Forall₂ SamePieces as bs) (sel : List String) :
    (fillSlots as sel).map trim = (fillSlots bs sel).map trim := by
  induction h generalizing sel with
  | nil => rfl
  | @cons a b as bs hFirst _ ih =>
    cases hSlot : isSlot a with
    | true => simp [fillSlots, hSlot, ← hFirst.isSlot_eq, ih]
    | false => simp [fillSlots, hSlot, ← hFirst.isSlot_eq, hFirst.trim_eq hSlot, ih]

theorem expand_eq (h : List.Forall₂ SamePieces as bs) (name : String) :
    expand name as = expand name bs := by
  rw [expand_eq_map_selectedVariant, expand_eq_map_selectedVariant, selectionsOf_eq h]
  refine List.map_congr_left fun sel _ => ?_
  rw [selectedVariant, selectedVariant, map_trim_fillSlots_eq h]

end SamePieces

end TargetCatalog
