import TargetCatalog.Proofs.Toml.Number
import TargetCatalog.Proofs.Toml.Quoted
import TargetCatalog.Toml.Reader

/-!
# Reading written keys

A key is written without quotes, in double quotes or in single ones, whichever can hold it, and is
read back; so is a key with dots between its parts. What follows a key in a document can neither
extend a part of it nor start another one.
-/

namespace TargetCatalog.Toml

open Text

variable {s : String} {rest : List Char}

theorem keyChars_cases (s : String) :
    (keyChars s = s.toList ∧ s.toList ≠ [] ∧ ∀ c ∈ s.toList, isBareKey c = true) ∨
    keyChars s = quoteChars .basic s.toList ∨
    (keyChars s = quoteChars .literal s.toList ∧ (∀ c ∈ s.toList, isControl c = false) ∧
      '\'' ∉ s.toList ∧ '\n' ∉ s.toList) := by
  grind [keyChars]

/-- A key starts with a quote or with a character that needs none. -/
theorem keyChars_eq_cons (s : String) :
    ∃ first text, keyChars s = first :: text ∧
      ∀ c, isBareKey c = false → c ≠ '"' → c ≠ '\'' → first ≠ c := by
  obtain ⟨hText, hNonempty, hBare⟩ | hText | ⟨hText, -⟩ := keyChars_cases s
  · cases hChars : s.toList with
    | nil => exact absurd hChars hNonempty
    | cons first text =>
      have hFirst : isBareKey first = true := hBare first (by simp [hChars])
      exact ⟨first, text, hText.trans hChars, fun c hc _ _ => ne_of_class hFirst hc⟩
  · exact ⟨'"', _, hText, fun c _ hDouble _ => hDouble.symm⟩
  · exact ⟨'\'', _, hText, fun c _ _ hSingle => hSingle.symm⟩

theorem skipBlanks_of_not {c : Char} (hc : isBlank c = false) :
    skipBlanks (c :: rest) = c :: rest := by
  simp [skipBlanks, hc]

theorem skipBlanks_keyChars (s : String) (rest : List Char) :
    skipBlanks (keyChars s ++ rest) = keyChars s ++ rest := by
  obtain ⟨first, text, hText, hFirst⟩ := keyChars_eq_cons s
  have hSpace : first ≠ ' ' := hFirst ' ' (by decide) (by decide) (by decide)
  have hTab : first ≠ '\t' := hFirst '\t' (by decide) (by decide) (by decide)
  rw [hText]
  exact skipBlanks_of_not (by simp [isBlank, hSpace, hTab])

theorem takeWhile_isBareKey (hRest : ∀ c ∈ rest.head?, isBareKey c = false) :
    rest.takeWhile isBareKey = [] ∧ rest.dropWhile isBareKey = rest := by
  cases rest with
  | nil => exact ⟨rfl, rfl⟩
  | cons c rest =>
    have hc : isBareKey c = false := hRest c rfl
    simp [hc]

theorem readKeyPart_of_bare {cs : List Char} (hNonempty : cs ≠ [])
    (hBare : ∀ c ∈ cs, isBareKey c = true) (hRest : ∀ c ∈ rest.head?, isBareKey c = false) :
    readKeyPart (cs ++ rest) = some (cs, rest) := by
  obtain ⟨hTake, hDrop⟩ := takeWhile_isBareKey hRest
  have hPart : (cs ++ rest).takeWhile isBareKey = cs := by
    rw [List.takeWhile_append_of_pos hBare, hTake, List.append_nil]
  have hBehind : (cs ++ rest).dropWhile isBareKey = rest := by
    rw [List.dropWhile_append_of_pos hBare, hDrop]
  have hQuote {quote : Char} (hOther : isBareKey quote = false) (tail : List Char) :
      cs ++ rest ≠ quote :: tail := by
    cases cs with
    | nil => exact absurd rfl hNonempty
    | cons c cs =>
      intro hText
      exact ne_of_class (hBare c List.mem_cons_self) hOther (List.cons.inj hText).1
  rw [readKeyPart]
  · simp [hPart, hBehind, hNonempty]
  · exact hQuote (by decide)
  · exact hQuote (by decide)

theorem readKeyPart_keyChars (s : String) (hRest : ∀ c ∈ rest.head?, isBareKey c = false) :
    readKeyPart (keyChars s ++ rest) = some (s.toList, rest) := by
  obtain ⟨hText, hNonempty, hBare⟩ | hText | ⟨hText, hControl, hQuotes, hLine⟩ := keyChars_cases s
  · rw [hText]
    exact readKeyPart_of_bare hNonempty hBare hRest
  · rw [hText]
    simp [quoteChars, readKeyPart, readBasic_flatMap_escapeBasic]
  · have hPlain : ∀ c ∈ s.toList, isPlain c = true := fun c hc =>
      isPlain_of_not_isControl (hControl c hc) (ne_of_mem_of_not_mem hc hLine)
    rw [hText]
    simp [quoteChars, readKeyPart, readLiteral_append hQuotes hPlain]

theorem readKeyParts_of_last (s : String) (limit : Nat)
    (hRest : ∀ c ∈ rest.head?, isBareKey c = false) (hDot : (skipBlanks rest).head? ≠ some '.') :
    readKeyParts (limit + 1) (keyChars s ++ rest) = some ([s], skipBlanks rest) := by
  simp only [readKeyParts, skipBlanks_keyChars, readKeyPart_keyChars s hRest, Option.bind_eq_bind,
    Option.bind_some]
  split
  · rename_i hText
    exact absurd (congrArg List.head? hText) hDot
  · simp

theorem readKeyParts_of_next (s : String) (limit : Nat) (rest : List Char) :
    readKeyParts (limit + 1) (keyChars s ++ '.' :: rest) =
      (readKeyParts limit rest).map fun (parts, rest) => (s :: parts, rest) := by
  have hPart : readKeyPart (keyChars s ++ '.' :: rest) = some (s.toList, '.' :: rest) :=
    readKeyPart_keyChars s (by simp; decide)
  simp only [readKeyParts, skipBlanks_keyChars, hPart]
  cases hParts : readKeyParts limit rest with
  | none => simp [skipBlanks, isBlank, hParts]
  | some parts => simp [skipBlanks, isBlank, hParts]

theorem readKeyParts_intercalate {keys : List String} (hKeys : keys ≠ []) {limit : Nat}
    (hLimit : keys.length ≤ limit) (hRest : ∀ c ∈ rest.head?, isBareKey c = false)
    (hDot : (skipBlanks rest).head? ≠ some '.') :
    readKeyParts limit (['.'].intercalate (keys.map keyChars) ++ rest) =
      some (keys, skipBlanks rest) := by
  induction keys generalizing limit with
  | nil => exact absurd rfl hKeys
  | cons key keys ih =>
    obtain ⟨limit, rfl⟩ : ∃ spare, limit = spare + 1 := ⟨limit - 1, by simp at hLimit; omega⟩
    have hTail : keys.length ≤ limit := by simpa using hLimit
    cases keys with
    | nil => simpa using readKeyParts_of_last key limit hRest hDot
    | cons next keys =>
      rw [List.map_cons, List.intercalate_cons_of_ne_nil (by simp), List.append_assoc,
        List.append_assoc, List.singleton_append, readKeyParts_of_next, ih (by simp) hTail]
      rfl

/-- A key with the keys of the tables on the way to it, as it stands in a header or before the
equals sign of a setting. -/
theorem readKey_intercalate {path : List String} (hPath : path.length < nestingLimit - 1)
    (key : String) (hRest : ∀ c ∈ rest.head?, isBareKey c = false)
    (hDot : (skipBlanks rest).head? ≠ some '.') :
    readKey (['.'].intercalate ((path ++ [key]).map keyChars) ++ rest) =
      some ((path, key), skipBlanks rest) := by
  have hLimit : (path ++ [key]).length ≤ nestingLimit - 1 := by
    simp only [List.length_append, List.length_singleton]
    omega
  rw [readKey, readKeyParts_intercalate (by simp) hLimit hRest hDot]
  simp

theorem keyChars_append_ne_bracket (key : String) (tail : List Char) :
    keyChars key ++ rest ≠ '[' :: tail := by
  obtain ⟨first, text, hText, hFirst⟩ := keyChars_eq_cons key
  intro h
  rw [hText, List.cons_append, List.cons.injEq] at h
  exact hFirst '[' (by decide) (by decide) (by decide) h.1

theorem intercalate_keyChars_ne_bracket {keys : List String} (hKeys : keys ≠ [])
    (tail : List Char) :
    ['.'].intercalate (keys.map keyChars) ++ rest ≠ '[' :: tail := by
  match keys, hKeys with
  | [key], _ => simpa using keyChars_append_ne_bracket key tail
  | key :: next :: keys, _ =>
    rw [List.map_cons, List.intercalate_cons_of_ne_nil (by simp), List.append_assoc,
      List.append_assoc]
    exact keyChars_append_ne_bracket key tail

theorem readKey_of_bracket {path : List String} (hPath : path.length < nestingLimit - 1)
    (key : String) :
    readKey (['.'].intercalate ((path ++ [key]).map keyChars) ++ ']' :: rest) =
      some ((path, key), ']' :: rest) :=
  readKey_intercalate hPath key (by simp; decide) (by simp [skipBlanks, isBlank])

end TargetCatalog.Toml
