import Mathlib.Data.List.DropRight
import TargetCatalog.Text.Split

/-!
# Padding

White space at the ends of a text. Trimming takes it away once and for all, and it does not matter
whether a text is trimmed before it is cut at a separator or only its pieces are.
-/

namespace TargetCatalog.Text

theorem trimChars_eq_rdropWhile (cs : List Char) :
    trimChars cs = (cs.dropWhile isSpace).rdropWhile isSpace := rfl

theorem trimChars_append_left {pad : List Char} (h : ∀ c ∈ pad, isSpace c = true)
    (cs : List Char) : trimChars (pad ++ cs) = trimChars cs := by
  rw [trimChars, List.dropWhile_append_of_pos h, trimChars]

theorem trimChars_append_right {pad : List Char} (h : ∀ c ∈ pad, isSpace c = true)
    (cs : List Char) : trimChars (cs ++ pad) = trimChars cs := by
  have hBack : ∀ c ∈ pad.reverse, isSpace c = true := fun c hc => h c (List.mem_reverse.mp hc)
  rw [trimChars, trimChars, List.dropWhile_append]
  split
  · rename_i hEmpty
    rw [List.dropWhile_eq_nil_iff.mpr h, List.isEmpty_iff.mp hEmpty]
  · rw [List.reverse_append, List.dropWhile_append_of_pos hBack]

/-- A text is its trimmed form between white space. -/
theorem exists_padding (cs : List Char) :
    ∃ front back, (∀ c ∈ front, isSpace c = true) ∧ (∀ c ∈ back, isSpace c = true) ∧
      cs = front ++ trimChars cs ++ back := by
  refine ⟨cs.takeWhile isSpace, (cs.dropWhile isSpace).rtakeWhile isSpace, ?_, ?_, ?_⟩
  · exact fun c hc => List.mem_takeWhile_imp hc
  · exact fun c hc => List.mem_rtakeWhile_imp hc
  · rw [trimChars_eq_rdropWhile, List.append_assoc, List.rdropWhile_append_rtakeWhile,
      List.takeWhile_append_dropWhile]

theorem mem_trimChars_iff {c : Char} (h : isSpace c = false) (cs : List Char) :
    c ∈ trimChars cs ↔ c ∈ cs := by
  constructor
  · exact mem_of_mem_trimChars
  · intro hc
    obtain ⟨front, back, hFront, hBack, hSplit⟩ := exists_padding cs
    rw [hSplit, List.mem_append, List.mem_append] at hc
    rcases hc with (hc | hc) | hc
    · exact absurd (hFront c hc) (by simp [h])
    · exact hc
    · exact absurd (hBack c hc) (by simp [h])

theorem dropWhile_trimChars (cs : List Char) :
    (trimChars cs).dropWhile isSpace = trimChars cs := by
  have hPrefix : trimChars cs <+: cs.dropWhile isSpace := List.rdropWhile_prefix isSpace _
  rw [List.dropWhile_eq_self_iff]
  intro hPos
  rw [hPrefix.getElem hPos]
  exact List.dropWhile_get_zero_not isSpace cs (Nat.lt_of_lt_of_le hPos hPrefix.length_le)

@[simp] theorem trimChars_trimChars (cs : List Char) : trimChars (trimChars cs) = trimChars cs := by
  rw [trimChars_eq_rdropWhile, dropWhile_trimChars, trimChars_eq_rdropWhile,
    List.rdropWhile_idempotent]

/-- A text is trimmed when it has no white space at either end. -/
theorem trimChars_eq_self_iff (cs : List Char) : trimChars cs = cs ↔
    (∀ c rest, cs = c :: rest → isSpace c = false) ∧
      ∀ front d, cs = front ++ [d] → isSpace d = false := by
  constructor
  · intro h
    have hFront : cs.dropWhile isSpace = cs := by rw [← h, dropWhile_trimChars]
    have hBack : cs.rdropWhile isSpace = cs := by
      rw [← hFront, ← trimChars_eq_rdropWhile, h, hFront]
    constructor
    · rintro c rest rfl
      exact Bool.eq_false_iff.mpr (List.dropWhile_eq_self_iff.mp hFront (Nat.succ_pos _))
    · rintro front d rfl
      simpa using List.rdropWhile_eq_self_iff.mp hBack (by simp)
  · rintro ⟨hFront, hBack⟩
    have hDrop : cs.dropWhile isSpace = cs := by
      cases cs with
      | nil => rfl
      | cons c rest => rw [List.dropWhile_cons_of_neg (by simp [hFront c rest rfl])]
    rw [trimChars_eq_rdropWhile, hDrop, List.rdropWhile_eq_self_iff]
    intro hNe
    simp [hBack _ _ (List.dropLast_append_getLast hNe).symm]

@[simp] theorem trim_trim (s : String) : trim (trim s) = trim s := by
  apply String.toList_inj.mp
  simp

theorem splitOn_append_left {sep : Char} {pad : List Char} (h : sep ∉ pad) (cs : List Char) :
    (pad ++ cs).splitOn sep = (cs.splitOn sep).modifyHead (pad ++ ·) := by
  induction pad with
  | nil => exact (congrFun List.modifyHead_id (cs.splitOn sep)).symm
  | cons c pad ih =>
    obtain ⟨hFirst, hRest⟩ := not_or.mp (mt List.mem_cons.mpr h)
    have hNe : (c == sep) = false := beq_eq_false_iff_ne.mpr (Ne.symm hFirst)
    rw [List.cons_append, List.splitOn_cons_eq_if_modifyHead, if_neg (by simp [hNe]), ih hRest,
      List.modifyHead_modifyHead]
    rfl

theorem splitOn_append_right {sep : Char} {pad : List Char} (h : sep ∉ pad) (cs : List Char) :
    ∃ front last, cs.splitOn sep = front ++ [last] ∧
      (cs ++ pad).splitOn sep = front ++ [last ++ pad] := by
  induction cs with
  | nil => exact ⟨[], [], rfl, List.splitOn_eq_singleton h⟩
  | cons c cs ih =>
    obtain ⟨front, last, hSplit, hPad⟩ := ih
    rw [List.cons_append, List.splitOn_cons_eq_if_modifyHead, List.splitOn_cons_eq_if_modifyHead,
      hSplit, hPad]
    cases c == sep with
    | true => exact ⟨[] :: front, last, rfl, rfl⟩
    | false =>
      cases front with
      | nil => exact ⟨[], c :: last, rfl, rfl⟩
      | cons piece front => exact ⟨(c :: piece) :: front, last, rfl, rfl⟩

/-- Padding stays with the first and the last piece when a text is cut, and is trimmed there. -/
theorem map_trimChars_splitOn_of_padded {sep : Char} (h : isSpace sep = false)
    {front back : List Char} (hFront : ∀ c ∈ front, isSpace c = true)
    (hBack : ∀ c ∈ back, isSpace c = true) (cs : List Char) :
    ((front ++ cs ++ back).splitOn sep).map trimChars = (cs.splitOn sep).map trimChars := by
  have hFree : ∀ {pad : List Char}, (∀ c ∈ pad, isSpace c = true) → sep ∉ pad := fun hPad hSep =>
    absurd (hPad sep hSep) (by simp [h])
  obtain ⟨pieces, last, hLast, hRight⟩ := splitOn_append_right (hFree hBack) (front ++ cs)
  obtain ⟨first, rest, hPieces⟩ := List.exists_cons_of_ne_nil (List.splitOn_ne_nil sep cs)
  calc ((front ++ cs ++ back).splitOn sep).map trimChars
      = ((front ++ cs).splitOn sep).map trimChars := by
        rw [hRight, hLast]
        simp [trimChars_append_right hBack]
    _ = ((first :: rest).modifyHead (front ++ ·)).map trimChars := by
        rw [splitOn_append_left (hFree hFront), hPieces]
    _ = (cs.splitOn sep).map trimChars := by
        rw [hPieces]
        simp [trimChars_append_left hFront]

theorem map_trim_split_trim {sep : Char} (h : isSpace sep = false) (s : String) :
    (split sep (trim s)).map trim = (split sep s).map trim := by
  obtain ⟨front, back, hFront, hBack, hText⟩ := exists_padding s.toList
  have hChars : ((trimChars s.toList).splitOn sep).map trimChars =
      (s.toList.splitOn sep).map trimChars := by
    rw [← map_trimChars_splitOn_of_padded h hFront hBack, ← hText]
  simpa [split, trim, Function.comp_def] using congrArg (List.map String.ofList) hChars

end TargetCatalog.Text
