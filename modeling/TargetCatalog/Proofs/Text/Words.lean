import TargetCatalog.Proofs.Text.Separator

/-!
# Words

The words of a text are what is left between its white space. They can be laid out with any white
space around them, as long as some stands between neighbours, and are read back from every layout.
-/

namespace TargetCatalog.Text

/-- Nothing but white space. -/
def IsBlank (cs : List Char) : Prop :=
  ∀ c ∈ cs, isSpace c = true

instance (cs : List Char) : Decidable (IsBlank cs) :=
  cs.decidableBAll fun c => isSpace c = true

/-- Something, and no white space in it. -/
def IsWord (cs : List Char) : Prop :=
  cs ≠ [] ∧ ∀ c ∈ cs, isSpace c = false

instance (cs : List Char) : Decidable (IsWord cs) :=
  have := cs.decidableBAll fun c => isSpace c = false
  inferInstanceAs (Decidable (_ ∧ _))

/-- The text holds the words in order: white space stands between neighbours, and may stand at
either end. -/
inductive Layout : List (List Char) → List Char → Prop
  | nil {pad : List Char} (hPad : IsBlank pad) : Layout [] pad
  | single {front word back : List Char} (hFront : IsBlank front) (hBack : IsBlank back) :
    Layout [word] (front ++ word ++ back)
  | cons {front word gap text next : List Char} {rest : List (List Char)} (hFront : IsBlank front)
    (hGap : IsBlank gap) (hNe : gap ≠ []) (hText : Layout (next :: rest) text) :
    Layout (word :: next :: rest) (front ++ word ++ gap ++ text)

variable {cs pad : List Char}

theorem wordsChars_append_cons {c : Char} (h : isSpace c = true) (cs ds : List Char) :
    wordsChars (cs ++ c :: ds) = wordsChars cs ++ wordsChars ds := by
  rw [wordsChars, List.splitOnP_append_cons cs ds h, List.filter_append, wordsChars, wordsChars]

@[simp] theorem wordsChars_nil : wordsChars [] = [] := rfl

theorem wordsChars_append_left (h : IsBlank pad) (cs : List Char) :
    wordsChars (pad ++ cs) = wordsChars cs := by
  induction pad with
  | nil => rfl
  | cons c pad ih =>
    obtain ⟨hFirst, hRest⟩ := List.forall_mem_cons.mp h
    have hSplit := wordsChars_append_cons hFirst [] (pad ++ cs)
    rw [List.cons_append, ← ih hRest]
    exact hSplit

theorem wordsChars_append_gap (hGap : IsBlank pad) (hNe : pad ≠ []) (cs ds : List Char) :
    wordsChars (cs ++ pad ++ ds) = wordsChars cs ++ wordsChars ds := by
  obtain ⟨c, pad, rfl⟩ := List.exists_cons_of_ne_nil hNe
  obtain ⟨hFirst, hRest⟩ := List.forall_mem_cons.mp hGap
  rw [List.append_assoc, List.cons_append, wordsChars_append_cons hFirst,
    wordsChars_append_left hRest]

theorem wordsChars_append_right (h : IsBlank pad) (cs : List Char) :
    wordsChars (cs ++ pad) = wordsChars cs := by
  rcases eq_or_ne pad [] with rfl | hNe
  · rw [List.append_nil]
  · simpa using wordsChars_append_gap h hNe cs []

theorem wordsChars_of_isWord (h : IsWord cs) : wordsChars cs = [cs] := by
  rw [wordsChars, List.splitOnP_eq_singleton h.2]
  simp [h.1]

theorem wordsChars_of_layout {words : List (List Char)} (hWords : ∀ word ∈ words, IsWord word)
    (h : Layout words cs) : wordsChars cs = words := by
  induction h with
  | nil hPad => simpa using wordsChars_append_left hPad []
  | single hFront hBack =>
    have hWord := hWords _ List.mem_cons_self
    rw [wordsChars_append_right hBack, wordsChars_append_left hFront, wordsChars_of_isWord hWord]
  | cons hFront hGap hNe _ ih =>
    obtain ⟨hWord, hRest⟩ := List.forall_mem_cons.mp hWords
    rw [wordsChars_append_gap hGap hNe, wordsChars_append_left hFront, wordsChars_of_isWord hWord,
      ih hRest]
    rfl

theorem isWord_of_mem_wordsChars {word : List Char} (h : word ∈ wordsChars cs) : IsWord word := by
  obtain ⟨hPiece, hNe⟩ := List.mem_filter.mp h
  exact ⟨by simpa using hNe, fun c hc => not_sep_of_mem_splitOnP hPiece hc⟩

theorem flatten_splitOnP (sep : Char → Bool) (cs : List Char) :
    (cs.splitOnP sep).flatten = cs.filter fun c => !sep c := by
  induction cs with
  | nil => rfl
  | cons c cs ih =>
    obtain ⟨piece, pieces, hPieces⟩ := List.exists_cons_of_ne_nil (List.splitOnP_ne_nil sep cs)
    rw [hPieces] at ih
    rw [List.splitOnP_cons_eq_if_modifyHead, hPieces]
    cases hSep : sep c with
    | true => simp [hSep, ← ih]
    | false => simp [hSep, ← ih]

/-- Nothing but white space is lost when a text is cut into words. -/
theorem flatten_wordsChars (cs : List Char) :
    (wordsChars cs).flatten = cs.filter fun c => !isSpace c := by
  rw [wordsChars, List.flatten_filter_not_isEmpty, flatten_splitOnP]

end TargetCatalog.Text
