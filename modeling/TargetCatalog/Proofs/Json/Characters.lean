import TargetCatalog.Proofs.Json.ReadBack
import TargetCatalog.Proofs.Text.Separator

/-!
# Characters of written JSON

Of the characters below U+0020 none is left in the text of a tree whose numbers are integers: in a
string they are escaped, and nothing else is written but digits, names and punctuation. So the text
is a single line, whatever the strings hold.
-/

namespace TargetCatalog.Json

open Text

theorem itemsChars_eq_intercalate (items : List Datum) :
    itemsChars items = [','].intercalate (items.map chars) := by
  induction items with
  | nil => rfl
  | cons item items ih =>
    cases items with
    | nil => simp [itemsChars]
    | cons next rest => simp [itemsChars, ih]

theorem fieldsChars_eq_intercalate (fields : List (String × Datum)) :
    fieldsChars fields = [','].intercalate (fields.map fieldChars) := by
  induction fields with
  | nil => rfl
  | cons field fields ih =>
    cases fields with
    | nil => simp [fieldsChars]
    | cons next rest => simp [fieldsChars, ih]

/-- No character is below U+0020. -/
def Unbroken (cs : List Char) : Prop :=
  ∀ c ∈ cs, 0x20 ≤ c.toNat

section Unbroken

variable {cs ds : List Char}

@[simp] theorem unbroken_nil : Unbroken [] :=
  fun _ h => absurd h List.not_mem_nil

@[simp] theorem unbroken_cons_iff {c : Char} :
    Unbroken (c :: cs) ↔ 0x20 ≤ c.toNat ∧ Unbroken cs :=
  List.forall_mem_cons

@[simp] theorem unbroken_append_iff : Unbroken (cs ++ ds) ↔ Unbroken cs ∧ Unbroken ds :=
  List.forall_mem_append

theorem Unbroken.newline_notMem (h : Unbroken cs) : '\n' ∉ cs :=
  fun hLine => absurd (h '\n' hLine) (by decide)

theorem Unbroken.intercalate {sep : List Char} (hSep : Unbroken sep) {pieces : List (List Char)}
    (h : ∀ piece ∈ pieces, Unbroken piece) : Unbroken (sep.intercalate pieces) := by
  induction pieces with
  | nil => exact unbroken_nil
  | cons piece pieces ih =>
    obtain ⟨hPiece, hRest⟩ := List.forall_mem_cons.mp h
    cases pieces with
    | nil => simpa using hPiece
    | cons next rest =>
      rw [List.intercalate_cons_of_ne_nil (List.cons_ne_nil next rest)]
      simp [hPiece, hSep, ih hRest]

end Unbroken

theorem unbroken_escapeChar (c : Char) : Unbroken (escapeChar c) := by
  have hDigit : ∀ n : Fin 16, 0x20 ≤ (lowerHexDigit n).toNat := by decide
  rw [escapeChar]
  -- The characters that have a short escape come first.
  iterate 7
    split
    · simp
  split
  · rename_i hControl
    have hHigh := hDigit ⟨c.toNat / 16, by omega⟩
    have hLow := hDigit ⟨c.toNat % 16, by omega⟩
    simp [hHigh, hLow]
  · rename_i hPlain
    simpa using hPlain

theorem unbroken_quoteChars (cs : List Char) : Unbroken (quoteChars cs) := by
  have hText : Unbroken (cs.flatMap escapeChar) := by
    intro c hc
    obtain ⟨d, -, hEscape⟩ := List.mem_flatMap.mp hc
    exact unbroken_escapeChar d c hEscape
  simp [quoteChars, hText]

theorem unbroken_intChars (n : Int) : Unbroken (intChars n) := by
  have hDigits : Unbroken (Nat.toDigits 10 n.natAbs) := by
    intro c hc
    have hDigit := isDigit_of_mem_toDigits hc
    simp only [Char.isDigit, Bool.and_eq_true, decide_eq_true_eq] at hDigit
    have hZero : 0x30 ≤ c.toNat := hDigit.1
    omega
  rw [intChars]
  split <;> simp [hDigits]

theorem Integral.unbroken_chars {d : Datum} (h : Integral d) : Unbroken (chars d) := by
  induction h with
  | null => simp [chars]
  | bool value => cases value <;> simp [chars]
  | int value => exact unbroken_intChars value
  | text value => exact unbroken_quoteChars value.toList
  | @list items _ ih =>
    have hItems : Unbroken (itemsChars items) := by
      rw [itemsChars_eq_intercalate]
      exact .intercalate (by simp) (List.forall_mem_map.mpr ih)
    simp [chars, hItems]
  | @record fields _ ih =>
    have hFields : Unbroken (fieldsChars fields) := by
      rw [fieldsChars_eq_intercalate]
      refine .intercalate (by simp) (List.forall_mem_map.mpr fun field hField => ?_)
      obtain ⟨name, value⟩ := field
      have hValue : Unbroken (chars value) := ih (name, value) hField
      simp [fieldChars, unbroken_quoteChars, hValue]
    simp [chars, hFields]

end TargetCatalog.Json
