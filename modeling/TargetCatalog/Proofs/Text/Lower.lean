import TargetCatalog.Arch.Basic
import TargetCatalog.Proofs.Text.Padding

/-!
# Lower case as a normal form

A text in lower case stays as it is when it is put into lower case again, and putting a trimmed text
into lower case brings no white space to its ends. The first is a fact about the table: what a run
maps to is covered by no run, and is none of the characters that are treated by themselves.
-/

namespace TargetCatalog.Text

namespace LowerRun

/-- No code point that the run maps to is covered by the other one: the two stay apart, or take
turns. -/
def avoids (run other : LowerRun) : Bool :=
  Nat.blt (run.image run.last) other.first || Nat.blt other.last run.target ||
    (Nat.beq other.step 2 && (Nat.beq run.first run.last || Nat.beq run.step 2) &&
      Nat.beq ((run.target + other.first) % 2) 1)

/-- Code points that nothing has as its lower case: those of no character, white space, and the
two characters that are no lower case and are treated by themselves. -/
def neverLower : List (Nat × Nat) :=
  [(0x9, 0x20), (0x85, 0xA0), (0x130, 0x130), (0x3A3, 0x3A3), (0x1680, 0x1680), (0x2000, 0x205F),
    (0x3000, 0x3000), (0xD800, 0xDFFF)]

def mapsToLower (run : LowerRun) : Bool :=
  Nat.blt (run.image run.last) 0x110000 && neverLower.all fun (first, last) =>
    Nat.blt (run.image run.last) first || Nat.blt last run.target

theorem covers_iff (run : LowerRun) (n : Nat) : run.covers n = true ↔
    run.first ≤ n ∧ n ≤ run.last ∧ (n - run.first) % run.step = 0 := by
  simp [covers, and_assoc]

theorem not_covers_image {run other : LowerRun} (h : run.avoids other = true) {n : Nat}
    (hn : run.covers n = true) : other.covers (run.image n) = false := by
  rw [← Bool.not_eq_true]
  intro hOther
  obtain ⟨hFirst, hLast, hStep⟩ := (run.covers_iff n).mp hn
  obtain ⟨hLow, hHigh, hSame⟩ := (other.covers_iff _).mp hOther
  simp only [avoids, Bool.or_eq_true, Bool.and_eq_true, Nat.blt_eq, Nat.beq_eq] at h
  simp only [image] at h hLow hHigh hSame
  rcases h with (hBelow | hAbove) | ⟨⟨hTwo, hOne | hRun⟩, hOdd⟩
  · omega
  · omega
  · rw [hTwo] at hSame
    omega
  · rw [hTwo] at hSame
    rw [hRun] at hStep
    omega

theorem mapsToLower_of_mem : ∀ run ∈ lowerRuns, run.mapsToLower = true :=
  List.all_eq_true.mp (by decide +kernel)

theorem avoids_of_mem : ∀ run ∈ lowerRuns, ∀ other ∈ lowerRuns, run.avoids other = true := by
  have hAll : (lowerRuns.all fun run => lowerRuns.all fun other => run.avoids other) = true := by
    decide +kernel
  intro run hRun other hOther
  exact List.all_eq_true.mp (List.all_eq_true.mp hAll run hRun) other hOther

theorem image_notMem_neverLower {run : LowerRun} (hRun : run ∈ lowerRuns) {n : Nat}
    (hn : run.covers n = true) : run.image n < 0x110000 ∧
      ∀ range ∈ neverLower, run.image n < range.1 ∨ range.2 < run.image n := by
  obtain ⟨hFirst, hLast, -⟩ := (run.covers_iff n).mp hn
  have hMaps := mapsToLower_of_mem run hRun
  simp only [mapsToLower, Bool.and_eq_true, List.all_eq_true, Bool.or_eq_true, Nat.blt_eq,
    image] at hMaps
  obtain ⟨hBound, hRanges⟩ := hMaps
  refine ⟨by simp only [image]; omega, fun range hRange => ?_⟩
  have hApart := hRanges range hRange
  simp only [image]
  omega

end LowerRun

/-- The character is its own lower case wherever it stands. -/
def IsLower (c : Char) : Prop :=
  c ≠ 'Σ' ∧ lowerChar c = [c]

instance (c : Char) : Decidable (IsLower c) :=
  inferInstanceAs (Decidable (_ ∧ _))

theorem isLower_of_toNat {c : Char} (hNever : c.toNat ≠ 0x130 ∧ c.toNat ≠ 0x3A3)
    (hRuns : ∀ run ∈ lowerRuns, run.covers c.toNat = false) : IsLower c := by
  have hDotted : c ≠ '\u0130' := by
    rintro rfl
    exact hNever.1 rfl
  have hNone : lowerRuns.find? (·.covers c.toNat) = none := by
    rw [List.find?_eq_none]
    intro run hRun
    simp [hRuns run hRun]
  refine ⟨?_, by rw [lowerChar, if_neg hDotted, hNone]⟩
  rintro rfl
  exact hNever.2 rfl

/-- What a run maps to. -/
theorem lower_image {run : LowerRun} (hRun : run ∈ lowerRuns) {n : Nat}
    (hn : run.covers n = true) :
    IsLower (Char.ofNat (run.image n)) ∧ isSpace (Char.ofNat (run.image n)) = false := by
  obtain ⟨hBound, hNever⟩ := run.image_notMem_neverLower hRun hn
  simp only [LowerRun.neverLower, List.forall_mem_cons] at hNever
  obtain ⟨hAscii, hLatin, hDotted, hSigma, hOgham, hPunctuation, hIdeographic, hSurrogate, -⟩ :=
    hNever
  have hValid : (run.image n).isValidChar := by
    simp only [Nat.isValidChar]
    omega
  have hCode : (Char.ofNat (run.image n)).toNat = run.image n := by
    rw [Char.ofNat, dif_pos hValid]
    rfl
  constructor
  · apply isLower_of_toNat
    · rw [hCode]
      omega
    · intro other hOther
      rw [hCode]
      exact LowerRun.not_covers_image (LowerRun.avoids_of_mem run hRun other hOther) hn
  · simp only [isSpace, hCode, Bool.or_eq_false_iff, Bool.and_eq_false_imp, decide_eq_true_eq,
      decide_eq_false_iff_not, beq_eq_false_iff_ne]
    omega

theorem lower_lowerChar {c d : Char} (hd : d ∈ lowerChar c) :
    IsLower d ∧ (isSpace c = false → isSpace d = false) := by
  rw [lowerChar] at hd
  split at hd
  · have hLetter : IsLower 'i' ∧ isSpace 'i' = false := by decide +kernel
    have hDot : IsLower '\u0307' ∧ isSpace '\u0307' = false := by decide +kernel
    obtain rfl | rfl : d = 'i' ∨ d = '\u0307' := by simpa using hd
    · exact ⟨hLetter.1, fun _ => hLetter.2⟩
    · exact ⟨hDot.1, fun _ => hDot.2⟩
  · rename_i hDotted
    split at hd
    · rename_i run hFound
      have hCovers : run.covers c.toNat = true :=
        by simpa using List.find?_some hFound
      obtain ⟨hLower, hSpace⟩ := lower_image (List.mem_of_find?_eq_some hFound) hCovers
      cases List.mem_singleton.mp hd
      exact ⟨hLower, fun _ => hSpace⟩
    · rename_i hNone
      cases List.mem_singleton.mp hd
      refine ⟨⟨?_, by rw [lowerChar, if_neg hDotted, hNone]⟩, id⟩
      rintro rfl
      exact absurd hNone (by decide +kernel)

theorem lowerFrom_of_isLower {cs : List Char} (h : ∀ c ∈ cs, IsLower c) (before : List Char) :
    lowerFrom before cs = cs := by
  induction cs generalizing before with
  | nil => rfl
  | cons c cs ih =>
    obtain ⟨⟨hSigma, hSelf⟩, hRest⟩ := List.forall_mem_cons.mp h
    rw [lowerFrom, if_neg hSigma, hSelf, ih hRest]
    rfl

/-- A character makes at least one character, whatever its context. -/
theorem exists_lowerFrom_cons (before : List Char) (c : Char) (after : List Char) :
    ∃ d rest, lowerFrom before (c :: after) = d :: rest ++ lowerFrom (c :: before) after ∧
      ∀ e ∈ d :: rest, IsLower e ∧ (isSpace c = false → isSpace e = false) := by
  have hSome : lowerChar c ≠ [] := by
    rw [lowerChar]
    split
    · simp
    · split <;> simp
  have hFinal : IsLower 'ς' ∧ isSpace 'ς' = false := by decide +kernel
  have hMedial : IsLower 'σ' ∧ isSpace 'σ' = false := by decide +kernel
  by_cases hSigma : c = 'Σ'
  · rw [lowerFrom, if_pos hSigma]
    split
    · exact ⟨'ς', [], rfl, List.forall_mem_singleton.mpr ⟨hFinal.1, fun _ => hFinal.2⟩⟩
    · exact ⟨'σ', [], rfl, List.forall_mem_singleton.mpr ⟨hMedial.1, fun _ => hMedial.2⟩⟩
  · obtain ⟨d, rest, hBlock⟩ := List.exists_cons_of_ne_nil hSome
    refine ⟨d, rest, by rw [lowerFrom, if_neg hSigma, hBlock], fun e he => ?_⟩
    exact lower_lowerChar (hBlock ▸ he)

theorem isLower_of_mem_lowerFrom {before cs : List Char} {d : Char}
    (h : d ∈ lowerFrom before cs) : IsLower d := by
  induction cs generalizing before with
  | nil => cases h
  | cons c cs ih =>
    obtain ⟨e, rest, hBlock, hLower⟩ := exists_lowerFrom_cons before c cs
    rw [hBlock] at h
    rcases List.mem_append.mp h with h | h
    · exact (hLower d h).1
    · exact ih h

theorem lowerChars_lowerChars (cs : List Char) : lowerChars (lowerChars cs) = lowerChars cs :=
  lowerFrom_of_isLower (fun _ => isLower_of_mem_lowerFrom) []

theorem exists_lowerFrom_append (before cs : List Char) (c : Char) :
    ∃ front d, lowerFrom before (cs ++ [c]) = front ++ [d] ∧
      (isSpace c = false → isSpace d = false) := by
  induction cs generalizing before with
  | nil =>
    obtain ⟨d, rest, hBlock, hSpace⟩ := exists_lowerFrom_cons before c []
    refine ⟨(d :: rest).dropLast, (d :: rest).getLast (by simp), ?_, ?_⟩
    · rw [List.nil_append, hBlock, List.dropLast_append_getLast, lowerFrom, List.append_nil]
    · exact (hSpace _ (List.getLast_mem _)).2
  | cons a cs ih =>
    obtain ⟨d, rest, hBlock, -⟩ := exists_lowerFrom_cons before a (cs ++ [c])
    obtain ⟨front, last, hRest, hSpace⟩ := ih (a :: before)
    exact ⟨d :: rest ++ front, last, by rw [List.cons_append, hBlock, hRest, List.append_assoc],
      hSpace⟩

theorem trimChars_lowerChars {cs : List Char} (h : trimChars cs = cs) :
    trimChars (lowerChars cs) = lowerChars cs := by
  obtain ⟨hFront, hBack⟩ := (trimChars_eq_self_iff cs).mp h
  rw [trimChars_eq_self_iff]
  constructor
  · intro d rest hLower
    cases cs with
    | nil => cases hLower
    | cons c cs =>
      obtain ⟨e, block, hBlock, hSpace⟩ := exists_lowerFrom_cons [] c cs
      rw [lowerChars, hBlock] at hLower
      cases hLower
      exact (hSpace d List.mem_cons_self).2 (hFront c cs rfl)
  · intro front d hLower
    rcases List.eq_nil_or_concat' cs with rfl | ⟨init, c, rfl⟩
    · exact absurd hLower (by simp [lowerChars, lowerFrom])
    · obtain ⟨front', e, hLast, hSpace⟩ := exists_lowerFrom_append [] init c
      rw [lowerChars, hLast] at hLower
      cases (List.append_inj_right' hLower rfl)
      exact hSpace (hBack init c rfl)

end TargetCatalog.Text

namespace TargetCatalog

/-- The text of an identifier is its own normal form. -/
@[simp] theorem CompilerId.ofString_text_ofString (s : String) :
    ofString (ofString s).text = ofString s := by
  rw [← CompilerId.text_inj, ← String.toList_inj]
  simp only [ofString, Text.toList_lower, Text.toList_trim]
  rw [Text.trimChars_lowerChars (Text.trimChars_trimChars _), Text.lowerChars_lowerChars]

end TargetCatalog
