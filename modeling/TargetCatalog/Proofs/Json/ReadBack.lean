import TargetCatalog.Json.Printer
import TargetCatalog.Json.Reader
import TargetCatalog.Text.Digits

/-!
# Reading written JSON

A tree of values whose numbers are integers is read back from the text that is written for it. A
string may hold any characters: what an escape stands for is read as one character, and a quote that
ends a string is never escaped.
-/

namespace TargetCatalog.Json

open Text

section Strings

variable {rest : List Char}

theorem hexNumber?_lowerHexDigit {n : Nat} (h : n < 0x100) :
    hexNumber? ['0', '0', lowerHexDigit (n / 16), lowerHexDigit (n % 16)] = some n := by
  have hZero : hexValue? '0' = some 0 := rfl
  have hValue : 16 * (n / 16) + n % 16 = n := Nat.div_add_mod n 16
  simp only [hexNumber?, List.foldlM_cons, List.foldlM_nil, hZero,
    hexValue?_lowerHexDigit (show n / 16 < 16 by omega),
    hexValue?_lowerHexDigit (show n % 16 < 16 by omega)]
  simp [hValue]

theorem readString_of_quote : readString ('"' :: rest) = some ([], rest) := by
  rw [readString.eq_def]
  rfl

theorem readString_of_short {e c : Char} (h : shortEscape? e = some c) :
    readString ('\\' :: e :: rest) =
      (readString rest).map fun (text, after) => (c :: text, after) := by
  have hLetter : e ≠ 'u' := by
    rintro rfl
    have hNone : shortEscape? 'u' = none := by decide
    rw [hNone] at h
    cases h
  rw [readString.eq_4 _ _ _ fun _ _ _ _ _ hEq => absurd hEq hLetter, h]
  rfl

theorem readString_of_code {a b c d : Char} {n : Nat} (h : hexNumber? [a, b, c, d] = some n)
    (hValid : n.isValidChar) :
    readString ('\\' :: 'u' :: a :: b :: c :: d :: rest) =
      (readString rest).map fun (text, after) => (Char.ofNat n :: text, after) := by
  rw [readString.eq_3, h]
  simp [hValid]

theorem readString_of_plain {c : Char} (hQuote : c ≠ '"') (hBackslash : c ≠ '\\')
    (hControl : ¬ c.toNat < 0x20) :
    readString (c :: rest) = (readString rest).map fun (text, after) => (c :: text, after) := by
  rw [readString.eq_def]
  simp only [if_neg hQuote, if_neg hBackslash, if_neg hControl]

/-- A character stands for itself, or behind a backslash for one of the short escapes, or it is
written by its code point. -/
theorem escapeChar_cases (c : Char) :
    (∃ e, escapeChar c = ['\\', e] ∧ shortEscape? e = some c) ∨
    (∃ a b, escapeChar c = ['\\', 'u', '0', '0', a, b] ∧
      hexNumber? ['0', '0', a, b] = some c.toNat ∧ c.toNat < 0x20) ∨
    (escapeChar c = [c] ∧ c ≠ '"' ∧ c ≠ '\\' ∧ ¬ c.toNat < 0x20) := by
  by_cases hQuote : c = '"'
  · exact .inl ⟨'"', by rw [hQuote]; rfl, by rw [hQuote]; rfl⟩
  by_cases hBackslash : c = '\\'
  · exact .inl ⟨'\\', by rw [hBackslash]; rfl, by rw [hBackslash]; rfl⟩
  by_cases hBackspace : c = '\x08'
  · exact .inl ⟨'b', by rw [hBackspace]; rfl, by rw [hBackspace]; rfl⟩
  by_cases hFeed : c = '\x0c'
  · exact .inl ⟨'f', by rw [hFeed]; rfl, by rw [hFeed]; rfl⟩
  by_cases hLine : c = '\n'
  · exact .inl ⟨'n', by rw [hLine]; rfl, by rw [hLine]; rfl⟩
  by_cases hReturn : c = '\r'
  · exact .inl ⟨'r', by rw [hReturn]; rfl, by rw [hReturn]; rfl⟩
  by_cases hTab : c = '\t'
  · exact .inl ⟨'t', by rw [hTab]; rfl, by rw [hTab]; rfl⟩
  rw [escapeChar, if_neg hQuote, if_neg hBackslash, if_neg hBackspace, if_neg hFeed, if_neg hLine,
    if_neg hReturn, if_neg hTab]
  split
  · rename_i hControl
    exact .inr (.inl ⟨_, _, rfl, hexNumber?_lowerHexDigit (by omega), hControl⟩)
  · rename_i hPlain
    exact .inr (.inr ⟨rfl, hQuote, hBackslash, hPlain⟩)

theorem readString_escapeChar (c : Char) :
    readString (escapeChar c ++ rest) =
      (readString rest).map fun (text, after) => (c :: text, after) := by
  obtain ⟨e, hText, hShort⟩ | ⟨a, b, hText, hCode, hControl⟩ |
    ⟨hText, hQuote, hBackslash, hControl⟩ := escapeChar_cases c
  · rw [hText]
    exact readString_of_short hShort
  · rw [hText, ← Char.ofNat_toNat c]
    exact readString_of_code hCode (.inl (by omega))
  · rw [hText]
    exact readString_of_plain hQuote hBackslash hControl

theorem readString_flatMap_escapeChar (cs : List Char) :
    readString (cs.flatMap escapeChar ++ '"' :: rest) = some (cs, rest) := by
  induction cs with
  | nil => exact readString_of_quote
  | cons c cs ih =>
    rw [List.flatMap_cons, List.append_assoc, readString_escapeChar, ih]
    rfl

end Strings

section Numbers

/-- No digit follows, and neither a fraction nor an exponent. -/
def EndsNumber (rest : List Char) : Prop :=
  ∀ c ∈ rest.head?, c.isDigit = false ∧ c ≠ '.' ∧ c ≠ 'e' ∧ c ≠ 'E'

theorem endsNumber_nil : EndsNumber [] :=
  fun c hc => by cases hc

theorem endsNumber_cons {c : Char} {rest : List Char} :
    EndsNumber (c :: rest) ↔ c.isDigit = false ∧ c ≠ '.' ∧ c ≠ 'e' ∧ c ≠ 'E' := by
  simp [EndsNumber]

variable {rest : List Char} (hEnds : EndsNumber rest)

include hEnds

theorem readDigits_append {digits : List Char} (hSome : digits ≠ [])
    (hDigits : ∀ c ∈ digits, c.isDigit = true) :
    readDigits (digits ++ rest) = some (digits, rest) := by
  have hStop : rest.takeWhile Char.isDigit = [] ∧ rest.dropWhile Char.isDigit = rest := by
    cases rest with
    | nil => exact ⟨rfl, rfl⟩
    | cons c rest => simp [(endsNumber_cons.mp hEnds).1]
  simp only [readDigits, List.takeWhile_append_of_pos hDigits,
    List.dropWhile_append_of_pos hDigits, hStop.1, hStop.2, List.append_nil]
  simp [hSome]

theorem readWhole_toDigits (n : Nat) :
    readWhole (Nat.toDigits 10 n ++ rest) = some (Nat.toDigits 10 n, rest) := by
  have hRead : readDigits (Nat.toDigits 10 n ++ rest) = some (Nat.toDigits 10 n, rest) :=
    readDigits_append hEnds Nat.toDigits_ne_nil fun c => isDigit_of_mem_toDigits
  have hShort : ¬((Nat.toDigits 10 n).head? = some '0' ∧ (Nat.toDigits 10 n).length ≠ 1) := by
    rintro ⟨hZero, hLength⟩
    cases Nat.eq_zero_or_pos n with
    | inl hn => exact hLength (by rw [hn]; rfl)
    | inr hn => exact head?_toDigits hn hZero
  simp [readWhole, hRead, hShort]

theorem readFraction_of_ends : readFraction rest = some ([], rest) := by
  cases rest with
  | nil => rfl
  | cons c rest =>
    obtain ⟨-, hPoint, -⟩ := endsNumber_cons.mp hEnds
    simp [readFraction, hPoint]

theorem readExponent_of_ends : readExponent rest = some ([], rest) := by
  cases rest with
  | nil => rfl
  | cons c rest =>
    obtain ⟨-, -, hSmall, hCapital⟩ := endsNumber_cons.mp hEnds
    simp [readExponent, hSmall, hCapital]

theorem readNumber_intChars (n : Int) :
    readNumber (intChars n ++ rest) = some (.int n, rest) := by
  by_cases hSign : n < 0
  · obtain ⟨k, hk, rfl⟩ : ∃ k : Nat, k ≠ 0 ∧ n = -k := ⟨n.natAbs, by omega, by omega⟩
    have hChars : intChars (-k) = '-' :: Nat.toDigits 10 k := by
      rw [intChars, if_pos hSign, Int.natAbs_neg, Int.natAbs_natCast]
    simp [readNumber, hChars, readWhole_toDigits hEnds, readFraction_of_ends hEnds,
      readExponent_of_ends hEnds, hk]
  · obtain ⟨d, digits, hDigits, hd⟩ := toDigits_eq_cons n.natAbs
    have hMinus : d ≠ '-' := ne_of_class hd (by decide)
    have hWhole := readWhole_toDigits hEnds n.natAbs
    have hMagnitude : Nat.ofDigitChars 10 (Nat.toDigits 10 n.natAbs) 0 = n.natAbs :=
      Nat.ofDigitChars_ten_toDigits
    have hValue : (n.natAbs : Int) = n := by omega
    rw [hDigits, List.cons_append] at hWhole
    rw [hDigits] at hMagnitude
    rw [intChars, if_neg hSign, hDigits, List.cons_append]
    simp [readNumber, hMinus, hWhole, readFraction_of_ends hEnds, readExponent_of_ends hEnds,
      hMagnitude, hValue]

end Numbers

section Values

/-- The first character of a written value: no white space, and not the end of a list. -/
def Opens (c : Char) : Prop :=
  c ≠ ' ' ∧ c ≠ '\n' ∧ c ≠ '\t' ∧ c ≠ '\r' ∧ c ≠ ']'

instance (c : Char) : Decidable (Opens c) :=
  inferInstanceAs (Decidable (_ ∧ _))

theorem opens_of_isDigit {c : Char} (h : c.isDigit = true) : Opens c :=
  ⟨ne_of_class h (by decide), ne_of_class h (by decide), ne_of_class h (by decide),
    ne_of_class h (by decide), ne_of_class h (by decide)⟩

theorem skipSpace_of_opens {c : Char} (h : Opens c) (cs : List Char) :
    skipSpace (c :: cs) = c :: cs := by
  obtain ⟨hBlank, hLine, hTab, hReturn, -⟩ := h
  simp [skipSpace, hBlank, hLine, hTab, hReturn]

/-- The value is read back from its text, in front of whatever ends a number and with fuel for two
steps on each character. -/
structure ReadsBack (d : Datum) : Prop where
  opens : ∃ c text, chars d = c :: text ∧ Opens c
  reads : ∀ fuel rest, 2 * (chars d).length ≤ fuel + 1 → EndsNumber rest →
    readValue (fuel + 1) (chars d ++ rest) = some (d, rest)

namespace ReadsBack

theorem skipSpace_append {d : Datum} (h : ReadsBack d) (rest : List Char) :
    skipSpace (chars d ++ rest) = chars d ++ rest := by
  obtain ⟨c, text, hText, hOpens⟩ := h.opens
  rw [hText, List.cons_append, skipSpace_of_opens hOpens]

theorem readValue_eq {d : Datum} (h : ReadsBack d) (fuel : Nat) (rest : List Char)
    (hFuel : 2 * (chars d).length ≤ fuel) (hEnds : EndsNumber rest) :
    readValue fuel (chars d ++ rest) = some (d, rest) := by
  obtain ⟨c, text, hText, -⟩ := h.opens
  have hPos : 0 < (chars d).length := by simp [hText]
  obtain ⟨steps, rfl⟩ : ∃ steps, fuel = steps + 1 := ⟨fuel - 1, by omega⟩
  exact h.reads steps rest hFuel hEnds

theorem null : ReadsBack .null :=
  ⟨⟨'n', _, rfl, by decide⟩, fun fuel rest _ _ => by simp [chars, readValue]⟩

theorem bool (value : Bool) : ReadsBack (.bool value) := by
  cases value with
  | true => exact ⟨⟨'t', _, rfl, by decide⟩, fun fuel rest _ _ => by simp [chars, readValue]⟩
  | false => exact ⟨⟨'f', _, rfl, by decide⟩, fun fuel rest _ _ => by simp [chars, readValue]⟩

theorem text (value : String) : ReadsBack (.text value) := by
  refine ⟨⟨'"', _, rfl, by decide⟩, fun fuel rest _ _ => ?_⟩
  simp [chars, quoteChars, readValue, readString_flatMap_escapeChar]

theorem int (value : Int) : ReadsBack (.int value) := by
  have hFirst : ∃ c text, intChars value = c :: text ∧ (c = '-' ∨ c.isDigit = true) := by
    obtain ⟨d, digits, hDigits, hd⟩ := toDigits_eq_cons value.natAbs
    rw [intChars]
    split
    · exact ⟨'-', _, rfl, .inl rfl⟩
    · exact ⟨d, digits, hDigits, .inr hd⟩
  obtain ⟨c, text, hText, hc⟩ := hFirst
  have hClass : Opens c ∧ c ≠ '"' ∧ c ≠ '[' ∧ c ≠ '\x7b' ∧ c ≠ 'n' ∧ c ≠ 't' ∧ c ≠ 'f' := by
    rcases hc with rfl | hDigit
    · decide
    · exact ⟨opens_of_isDigit hDigit, ne_of_class hDigit (by decide),
        ne_of_class hDigit (by decide), ne_of_class hDigit (by decide),
        ne_of_class hDigit (by decide), ne_of_class hDigit (by decide),
        ne_of_class hDigit (by decide)⟩
  obtain ⟨hOpens, hQuote, hBracket, hBrace, hNull, hTrue, hFalse⟩ := hClass
  refine ⟨⟨c, text, hText, hOpens⟩, fun fuel rest _ hEnds => ?_⟩
  have hNumber := readNumber_intChars hEnds value
  rw [chars, hText, List.cons_append] at *
  simp [readValue, hQuote, hBracket, hBrace, hNull, hTrue, hFalse, hNumber]

end ReadsBack

theorem opens_itemsChars {items : List Datum} (hItems : ∀ item ∈ items, ReadsBack item)
    (hSome : items ≠ []) : ∃ c text, itemsChars items = c :: text ∧ Opens c := by
  obtain ⟨item, items, rfl⟩ := List.exists_cons_of_ne_nil hSome
  obtain ⟨c, text, hText, hOpens⟩ := (hItems item List.mem_cons_self).opens
  cases items with
  | nil => exact ⟨c, text, hText, hOpens⟩
  | cons next items =>
    exact ⟨c, text ++ ',' :: itemsChars (next :: items), by rw [itemsChars, hText]; rfl, hOpens⟩

theorem readItems_itemsChars {items : List Datum} (hItems : ∀ item ∈ items, ReadsBack item)
    (hSome : items ≠ []) (fuel : Nat) (rest : List Char)
    (hFuel : 2 * (itemsChars items).length + 1 ≤ fuel) :
    readItems fuel (itemsChars items ++ ']' :: rest) = some (items, rest) := by
  induction items generalizing fuel with
  | nil => exact absurd rfl hSome
  | cons item items ih =>
    obtain ⟨hItem, hRest⟩ := List.forall_mem_cons.mp hItems
    obtain ⟨steps, rfl⟩ : ∃ steps, fuel = steps + 1 := ⟨fuel - 1, by omega⟩
    cases items with
    | nil =>
      have hValue := hItem.readValue_eq steps (']' :: rest) (by simpa [itemsChars] using hFuel)
        (endsNumber_cons.mpr (by decide))
      simp [itemsChars, readItems, hValue, skipSpace]
    | cons next items =>
      simp only [itemsChars, List.length_append, List.length_cons] at hFuel
      have hTail := ih hRest (by simp) steps (by omega)
      obtain ⟨c, text, hText, hOpens⟩ := opens_itemsChars hRest (by simp)
      have hValue := hItem.readValue_eq steps (',' :: (itemsChars (next :: items) ++ ']' :: rest))
        (by omega) (endsNumber_cons.mpr (by decide))
      have hSkip : skipSpace (itemsChars (next :: items) ++ ']' :: rest) =
          itemsChars (next :: items) ++ ']' :: rest := by
        rw [hText, List.cons_append, skipSpace_of_opens hOpens]
      rw [itemsChars, List.append_assoc, List.cons_append, readItems, hValue]
      simp only [skipSpace_of_opens (show Opens ',' by decide), hSkip, hTail]
      rfl

theorem ReadsBack.list {items : List Datum} (hItems : ∀ item ∈ items, ReadsBack item) :
    ReadsBack (.list items) := by
  refine ⟨⟨'[', _, rfl, by decide⟩, fun fuel rest hFuel _ => ?_⟩
  cases hList : items with
  | nil => simp [chars, itemsChars, readValue, skipSpace]
  | cons item others =>
    rw [← hList]
    have hSome : items ≠ [] := by simp [hList]
    have hLength : 2 * (itemsChars items).length + 1 ≤ fuel := by
      simp only [chars, List.cons_append, List.length_cons, List.length_append] at hFuel
      omega
    have hRead := readItems_itemsChars hItems hSome fuel rest hLength
    obtain ⟨c, text, hText, hOpens⟩ := opens_itemsChars hItems hSome
    obtain ⟨-, -, -, -, hEnd⟩ := id hOpens
    rw [hText, List.cons_append] at hRead
    simp [chars, hText, readValue, skipSpace_of_opens hOpens, hEnd, hRead]

theorem fieldChars_append (name : String) (value : Datum) (rest : List Char) :
    fieldChars (name, value) ++ rest =
      '"' :: (name.toList.flatMap escapeChar ++ '"' :: ':' :: (chars value ++ rest)) := by
  simp [fieldChars, quoteChars]

theorem fieldsChars_eq_cons {fields : List (String × Datum)} (hSome : fields ≠ []) :
    ∃ text, fieldsChars fields = '"' :: text := by
  obtain ⟨⟨name, value⟩, fields, rfl⟩ := List.exists_cons_of_ne_nil hSome
  cases fields with
  | nil => exact ⟨_, by rw [fieldsChars, fieldChars, quoteChars]; rfl⟩
  | cons next fields => exact ⟨_, by rw [fieldsChars, fieldChars, quoteChars]; rfl⟩

theorem readFields_fieldsChars {fields : List (String × Datum)}
    (hFields : ∀ field ∈ fields, ReadsBack field.2) (hSome : fields ≠ []) (fuel : Nat)
    (rest : List Char) (hFuel : 2 * (fieldsChars fields).length + 1 ≤ fuel) :
    readFields fuel (fieldsChars fields ++ '\x7d' :: rest) = some (fields, rest) := by
  induction fields generalizing fuel with
  | nil => exact absurd rfl hSome
  | cons field fields ih =>
    obtain ⟨hField, hRest⟩ := List.forall_mem_cons.mp hFields
    obtain ⟨steps, rfl⟩ : ∃ steps, fuel = steps + 1 := ⟨fuel - 1, by omega⟩
    obtain ⟨name, value⟩ := field
    replace hField : ReadsBack value := hField
    have hSkip := hField.skipSpace_append
    have hColon := skipSpace_of_opens (show Opens ':' by decide)
    cases fields with
    | nil =>
      simp only [fieldsChars, fieldChars, List.length_append, List.length_cons] at hFuel
      have hValue := hField.readValue_eq steps ('\x7d' :: rest) (by omega)
        (endsNumber_cons.mpr (by decide))
      rw [fieldsChars, fieldChars_append, readFields, readString_flatMap_escapeChar]
      simp [hColon, skipSpace_of_opens (show Opens '\x7d' by decide), hSkip, hValue]
    | cons next fields =>
      simp only [fieldsChars, fieldChars, List.length_append, List.length_cons] at hFuel
      have hCons : next :: fields ≠ [] := List.cons_ne_nil next fields
      have hTail := ih hRest hCons steps (by omega)
      obtain ⟨text, hText⟩ := fieldsChars_eq_cons hCons
      have hNext : skipSpace (fieldsChars (next :: fields) ++ '\x7d' :: rest) =
          fieldsChars (next :: fields) ++ '\x7d' :: rest := by
        rw [hText, List.cons_append, skipSpace_of_opens (by decide)]
      have hValue := hField.readValue_eq steps
        (',' :: (fieldsChars (next :: fields) ++ '\x7d' :: rest)) (by omega)
        (endsNumber_cons.mpr (by decide))
      rw [fieldsChars, List.append_assoc, List.cons_append, fieldChars_append, readFields,
        readString_flatMap_escapeChar]
      simp [hColon, skipSpace_of_opens (show Opens ',' by decide), hSkip, hValue, hNext, hTail]

theorem ReadsBack.record {fields : List (String × Datum)}
    (hFields : ∀ field ∈ fields, ReadsBack field.2) : ReadsBack (.record fields) := by
  refine ⟨⟨'\x7b', _, rfl, by decide⟩, fun fuel rest hFuel _ => ?_⟩
  cases hRecord : fields with
  | nil => simp [chars, fieldsChars, readValue, skipSpace]
  | cons field others =>
    rw [← hRecord]
    have hSome : fields ≠ [] := by simp [hRecord]
    have hLength : 2 * (fieldsChars fields).length + 1 ≤ fuel := by
      simp only [chars, List.cons_append, List.length_cons, List.length_append] at hFuel
      omega
    have hRead := readFields_fieldsChars hFields hSome fuel rest hLength
    obtain ⟨text, hText⟩ := fieldsChars_eq_cons hSome
    rw [hText, List.cons_append] at hRead
    simp [chars, hText, readValue, skipSpace_of_opens (show Opens '"' by decide), hRead]

end Values

/-- Every number in the tree is an integer. -/
inductive Integral : Datum → Prop
  | null : Integral .null
  | bool (value : Bool) : Integral (.bool value)
  | int (value : Int) : Integral (.int value)
  | text (value : String) : Integral (.text value)
  | list {items : List Datum} (h : ∀ item ∈ items, Integral item) : Integral (.list items)
  | record {fields : List (String × Datum)} (h : ∀ field ∈ fields, Integral field.2) :
    Integral (.record fields)

attribute [simp] Integral.null Integral.bool Integral.int Integral.text

@[simp] theorem integral_list_iff {items : List Datum} :
    Integral (.list items) ↔ ∀ item ∈ items, Integral item :=
  ⟨fun | .list h => h, .list⟩

@[simp] theorem integral_record_iff {fields : List (String × Datum)} :
    Integral (.record fields) ↔ ∀ field ∈ fields, Integral field.2 :=
  ⟨fun | .record h => h, .record⟩

@[simp] theorem integral_ofTexts (values : List String) : Integral (.ofTexts values) := by
  simp [Datum.ofTexts]

theorem Integral.readsBack {d : Datum} (h : Integral d) : ReadsBack d := by
  induction h with
  | null => exact .null
  | bool value => exact .bool value
  | int value => exact .int value
  | text value => exact .text value
  | list _ ih => exact .list ih
  | record _ ih => exact .record ih

theorem read?_render {d : Datum} (h : Integral d) : read? (render d) = some d := by
  have hBack := h.readsBack
  have hRead := hBack.readValue_eq (2 * (chars d).length + 2) [] (by omega) endsNumber_nil
  have hSkip := hBack.skipSpace_append []
  rw [List.append_nil] at hRead hSkip
  simp only [read?, render, String.toList_ofList, hSkip, hRead]
  rfl

end TargetCatalog.Json
