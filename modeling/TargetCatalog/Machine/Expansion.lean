import TargetCatalog.Text.Split

/-!
# Expansion of machine declarations

A machine is declared by a base name and a list of member entries. An entry with bars is a slot: it
offers the pieces between the bars, and one machine comes out for every way to choose a piece in
each slot. A chosen piece becomes a member and is added to the name; the empty piece leaves the slot
out and the name alone. The first slot is opened, and what remains is expanded for each of its
choices; this ends because a choice is no slot.
-/

namespace TargetCatalog

/-- Divides the choices of a slot. -/
def choiceDelimiter : Char := '|'

/-- Stands between a machine's base name and each chosen architecture. -/
def nameSeparator : String := "_"

structure MachineVariant where
  name : String
  archs : List String
  deriving Repr, DecidableEq, Inhabited

def isSlot (entry : String) : Bool :=
  entry.toList.contains choiceDelimiter

/-- The pieces of an entry between its bars, without the white space around them. -/
def slotPieces (entry : String) : List String :=
  (Text.split choiceDelimiter entry).map Text.trim

def splitChoices (slot : String) : List String :=
  (slotPieces slot).eraseDups

theorem isSlot_eq_false_of_mem_slotPieces {choice entry : String} (h : choice ∈ slotPieces entry) :
    isSlot choice = false := by
  simp only [slotPieces, Text.split, List.map_map, List.mem_map, Function.comp_apply] at h
  obtain ⟨piece, hPiece, rfl⟩ := h
  simp only [isSlot, Text.toList_trim, String.toList_ofList, List.contains_eq_mem,
    decide_eq_false_iff_not]
  intro hBar
  exact Text.not_mem_of_mem_splitOn hPiece (Text.mem_of_mem_trimChars hBar)

theorem isSlot_eq_false_of_mem_splitChoices {choice slot : String}
    (h : choice ∈ splitChoices slot) : isSlot choice = false :=
  isSlot_eq_false_of_mem_slotPieces (List.mem_eraseDups.mp h)

theorem exists_first_slot {archs : List String} {i : Nat} (h : archs.findIdx? isSlot = some i) :
    ∃ before slot after, archs = before ++ slot :: after ∧ i = before.length ∧
      isSlot slot = true ∧ ∀ arch ∈ before, isSlot arch = false := by
  obtain ⟨hi, hSlot, hBefore⟩ := List.findIdx?_eq_some_iff_getElem.mp h
  refine ⟨archs.take i, archs[i], archs.drop (i + 1), by simp, by simp; omega, hSlot, ?_⟩
  intro arch hArch
  obtain ⟨j, hj, rfl⟩ := List.mem_take_iff_getElem.mp hArch
  simpa using hBefore j (by omega)

/-- The variants of a list of trimmed entries, some of which may be choices made before. -/
def expandInto (name : String) (archs : List String) : List MachineVariant :=
  match _hFirst : archs.findIdx? isSlot with
  | none => [⟨name, archs.filter (· ≠ "")⟩]
  | some i =>
    (splitChoices (archs[i]?.getD "")).attach.flatMap fun ⟨choice, _hChoice⟩ =>
      if choice = "" then expandInto name (archs.eraseIdx i)
      else expandInto (name ++ nameSeparator ++ choice) (archs.set i choice)
termination_by archs.countP isSlot
decreasing_by
  all_goals
    obtain ⟨before, slot, after, rfl, rfl, hSlot, -⟩ := exists_first_slot _hFirst
    have hNoSlot := isSlot_eq_false_of_mem_splitChoices _hChoice
    simp [List.eraseIdx_append_of_length_le, hSlot, hNoSlot]

theorem expandInto_of_noSlot (name : String) {archs : List String}
    (h : ∀ arch ∈ archs, isSlot arch = false) :
    expandInto name archs = [⟨name, archs.filter (· ≠ "")⟩] := by
  rw [expandInto]
  split
  · rfl
  · rename_i i hFirst
    rw [List.findIdx?_eq_none_iff.mpr h] at hFirst
    cases hFirst

theorem expandInto_of_slot (name : String) {before after : List String} {slot : String}
    (hBefore : ∀ arch ∈ before, isSlot arch = false) (hSlot : isSlot slot = true) :
    expandInto name (before ++ slot :: after) =
      (splitChoices slot).flatMap fun choice =>
        if choice = "" then expandInto name (before ++ after)
        else expandInto (name ++ nameSeparator ++ choice) (before ++ choice :: after) := by
  have hFirst : (before ++ slot :: after).findIdx? isSlot = some before.length := by
    simp [List.findIdx?_append, List.findIdx?_eq_none_iff.mpr hBefore, List.findIdx?_cons, hSlot]
  rw [expandInto]
  split
  · simp_all
  · rename_i i hi
    cases hFirst.symm.trans hi
    simp [List.eraseIdx_append_of_length_le]

/-- The machines that a declaration stands for: the choices of the first slot vary slowest. -/
def expand (name : String) (entries : List String) : List MachineVariant :=
  expandInto name (entries.map Text.trim)

end TargetCatalog
