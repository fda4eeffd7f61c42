import TargetCatalog.Proofs.Toml.Number
import TargetCatalog.Proofs.Toml.Quoted
import TargetCatalog.Toml.Reader

/-!
# Reading written values

The value of a written setting is read back from the end of its line: a string in whatever style it
is written, a number, and a list of strings on one line or on several.
-/

namespace TargetCatalog.Toml

open Text

section Texts

variable {rest : List Char}

theorem textChars_eq_cons (s : String) :
    ∃ quote text, textChars s = quote :: text ∧ (quote = '"' ∨ quote = '\'') := by
  rw [textChars]
  cases styleOf s.toList with
  | basic => exact ⟨'"', _, rfl, .inl rfl⟩
  | literal => exact ⟨'\'', _, rfl, .inr rfl⟩
  | basicLines => exact ⟨'"', _, rfl, .inl rfl⟩
  | literalLines => exact ⟨'\'', _, rfl, .inr rfl⟩

theorem skipSpacing_textChars (s : String) :
    skipSpacing false (textChars s ++ rest) = textChars s ++ rest := by
  obtain ⟨quote, text, hText, hQuote⟩ := textChars_eq_cons s
  rw [hText]
  rcases hQuote with rfl | rfl <;> simp [skipSpacing, isBlank]

theorem readValue_textChars (s : String) (fuel depth : Nat) (hDouble : rest.head? ≠ some '"')
    (hSingle : rest.head? ≠ some '\'') :
    readValue (fuel + 1) depth (textChars s ++ rest) = some (.text s, rest) := by
  have hQuoted := readQuoted_textChars s hDouble hSingle
  obtain ⟨quote, text, hText, hQuote⟩ := textChars_eq_cons s
  rw [hText, List.cons_append] at hQuoted ⊢
  rcases hQuote with rfl | rfl <;> simp [readValue, hQuoted]

theorem readItems_of_last (s : String) (fuel depth : Nat) :
    readItems (fuel + 2) depth (textChars s ++ ']' :: rest) = some ([.text s], rest) := by
  have hValue : readValue (fuel + 1) depth (textChars s ++ ']' :: rest) =
      some (.text s, ']' :: rest) :=
    readValue_textChars s fuel depth (by simp) (by simp)
  obtain ⟨quote, text, hText, hQuote⟩ := textChars_eq_cons s
  rw [hText, List.cons_append] at hValue ⊢
  rcases hQuote with rfl | rfl <;> simp [readItems, hValue, skipSpacing, isBlank]

theorem readItems_of_next (s : String) (fuel depth : Nat) :
    readItems (fuel + 2) depth (textChars s ++ ',' :: rest) =
      (readItems (fuel + 1) depth (skipSpacing false rest)).map fun (items, rest) =>
        (.text s :: items, rest) := by
  have hValue : readValue (fuel + 1) depth (textChars s ++ ',' :: rest) =
      some (.text s, ',' :: rest) :=
    readValue_textChars s fuel depth (by simp) (by simp)
  obtain ⟨quote, text, hText, hQuote⟩ := textChars_eq_cons s
  rw [hText, List.cons_append] at hValue ⊢
  rcases hQuote with rfl | rfl <;> simp [readItems, hValue, skipSpacing, isBlank]

/-- A string of a list on a line of its own. -/
def itemLine (value : String) : List Char :=
  [' ', ' ', ' ', ' '] ++ textChars value ++ [',', '\n']

theorem readItems_itemLines (values : List String) (fuel depth : Nat) :
    readItems (values.length + fuel + 1) depth
        (skipSpacing false ('\n' :: values.flatMap itemLine ++ ']' :: rest)) =
      some (values.map .text, rest) := by
  induction values generalizing fuel with
  | nil => simp [readItems, skipSpacing, isBlank]
  | cons value values ih =>
    have hSpacing : skipSpacing false ('\n' :: (value :: values).flatMap itemLine ++ ']' :: rest) =
        textChars value ++ ',' :: '\n' :: (values.flatMap itemLine ++ ']' :: rest) := by
      rw [← skipSpacing_textChars value]
      simp [itemLine, skipSpacing, isBlank]
    have hFuel : (value :: values).length + fuel + 1 = (values.length + fuel) + 2 := by
      simp only [List.length_cons]
      omega
    rw [hSpacing, hFuel, readItems_of_next, ← List.cons_append, ih]
    rfl

theorem textsChars_of_several {values : List String} (h : 2 ≤ values.length) :
    textsChars values = '[' :: '\n' :: values.flatMap itemLine ++ [']'] := by
  match values, h with
  | _ :: _ :: _, _ => rfl

theorem textsChars_eq_cons (values : List String) : ∃ text, textsChars values = '[' :: text := by
  match values with
  | [] => exact ⟨_, rfl⟩
  | [value] => exact ⟨_, rfl⟩
  | first :: second :: values => exact ⟨_, rfl⟩

theorem readValue_list (fuel depth : Nat) (text : List Char) :
    readValue (fuel + 1) (depth + 1) ('[' :: text) =
      (readItems fuel depth (skipSpacing false text)).map fun (items, rest) =>
        (.list items, rest) := by
  simp [readValue]

theorem readValue_textsChars (values : List String) (fuel depth : Nat) :
    readValue (values.length + fuel + 2) (depth + 1) (textsChars values ++ rest) =
      some (.ofTexts values, rest) := by
  match values with
  | [] =>
    rw [textsChars, List.cons_append, readValue_list]
    simp [readItems, skipSpacing, isBlank, Datum.ofTexts]
  | [value] =>
    have hFuel : [value].length + fuel + 2 = (fuel + 2) + 1 := by
      simp only [List.length_singleton]
      omega
    rw [textsChars, hFuel, List.cons_append, List.cons_append, List.append_assoc, readValue_list,
      skipSpacing_textChars, List.singleton_append, readItems_of_last]
    rfl
  | first :: second :: values =>
    rw [textsChars_of_several (by simp), List.append_assoc, List.cons_append, readValue_list,
      List.singleton_append, readItems_itemLines]
    rfl

theorem length_le_length_textsChars (values : List String) :
    values.length ≤ (textsChars values).length := by
  match values with
  | [] => exact Nat.zero_le _
  | [value] => simp [textsChars]
  | first :: second :: values =>
    have hLines (values : List String) : values.length ≤ (values.flatMap itemLine).length := by
      induction values with
      | nil => exact Nat.le_refl 0
      | cons value values ih =>
        simp only [List.flatMap_cons, List.length_append, List.length_cons, itemLine]
        omega
    have hAll := hLines (first :: second :: values)
    rw [textsChars_of_several (by simp)]
    simp only [List.length_append, List.length_cons] at hAll ⊢
    omega

end Texts

/-- A number fits into 64 bits. -/
def Setting.Readable : Setting → Prop
  | number value => (value : Int) ≤ Int64.maxValue.toInt
  | _ => True

@[simp] theorem Setting.readable_text (value : String) : (text value).Readable :=
  trivial

@[simp] theorem Setting.readable_texts (values : List String) : (texts values).Readable :=
  trivial

theorem readValue_toDigits {n : Nat} (h : (n : Int) ≤ Int64.maxValue.toInt) (fuel depth : Nat)
    (rest : List Char) :
    readValue (fuel + 1) depth (Nat.toDigits 10 n ++ '\n' :: rest) =
      some (.int n, '\n' :: rest) := by
  have hNumeric := readNumeric_toDigits h rest
  obtain ⟨d, digits, hDigits, hd⟩ := toDigits_eq_cons n
  have hNe {c : Char} (hc : c.isDigit = false) : d ≠ c := ne_of_class hd hc
  rw [hDigits, List.cons_append] at hNumeric ⊢
  have hQuoted : readQuoted (d :: (digits ++ '\n' :: rest)) = none := by
    simp [readQuoted, hNe (show '"'.isDigit = false by decide),
      hNe (show '\''.isDigit = false by decide)]
  simp [readValue, hQuoted, hNumeric, hNe (show '['.isDigit = false by decide),
    hNe (show '\x7b'.isDigit = false by decide), hNe (show 't'.isDigit = false by decide),
    hNe (show 'f'.isDigit = false by decide)]

theorem readValue_settingChars {v : Setting} (h : v.Readable) {fuel : Nat}
    (hFuel : (settingChars v).length + 2 ≤ fuel) (depth : Nat) (rest : List Char) :
    readValue fuel (depth + 1) (settingChars v ++ '\n' :: rest) =
      some (v.toDatum, '\n' :: rest) := by
  obtain ⟨steps, rfl⟩ : ∃ steps, fuel = steps + 1 := ⟨fuel - 1, by omega⟩
  cases v with
  | text value => exact readValue_textChars value steps (depth + 1) (by simp) (by simp)
  | number value => exact readValue_toDigits h steps (depth + 1) rest
  | texts values =>
    have hLength := length_le_length_textsChars values
    simp only [settingChars] at hFuel
    obtain ⟨spare, hSpare⟩ : ∃ spare, steps + 1 = values.length + spare + 2 :=
      ⟨steps - 1 - values.length, by omega⟩
    rw [hSpare]
    exact readValue_textsChars values spare depth

end TargetCatalog.Toml
