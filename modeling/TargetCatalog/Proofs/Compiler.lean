import TargetCatalog.Definitions.Record
import TargetCatalog.Proofs.Json.ReadBack
import TargetCatalog.Proofs.Text.Lower

/-!
# Spellings of a compiler

Which texts name the same compiler. White space around a name does not count, and neither does the
case of the letters `A` to `Z`: a capital and its small letter have the same lower case and the same
influence on a sigma beside them. So the text of an identifier is one of its own spellings, and it
is passed on and read back as it is.
-/

namespace TargetCatalog

namespace Text

/-- The letters that have a small letter in the basic alphabet. -/
def basicCapitals : List Char :=
  (List.range 26).map fun k => Char.ofNat ('A'.toNat + k)

theorem toLower_eq_self_or_mem (c : Char) : c.toLower = c ∨ c ∈ basicCapitals := by
  by_cases hCapital : 'A'.val ≤ c.val ∧ c.val ≤ 'Z'.val
  · have hLow : 'A'.toNat ≤ c.toNat := UInt32.le_iff_toNat_le.mp hCapital.1
    have hHigh : c.toNat ≤ 'Z'.toNat := UInt32.le_iff_toNat_le.mp hCapital.2
    have hCount : 'Z'.toNat = 'A'.toNat + 25 := rfl
    refine .inr (List.mem_map.mpr ⟨c.toNat - 'A'.toNat, List.mem_range.mpr (by omega), ?_⟩)
    rw [Nat.add_sub_cancel' hLow, Char.ofNat_toNat]
  · exact .inl (dif_neg hCapital)

theorem toList_toLower (s : String) : s.toLower.toList = s.toList.map Char.toLower :=
  String.toList_map

/-- What has the same value for a capital as for its small letter does not depend on the case of a
character. -/
theorem eq_of_basicCapitals {α : Type} [DecidableEq α] {f : Char → α}
    (h : (basicCapitals.all fun c => f c.toLower = f c) = true) (c : Char) :
    f c.toLower = f c := by
  rcases toLower_eq_self_or_mem c with hSelf | hCapital
  · rw [hSelf]
  · exact of_decide_eq_true (List.all_eq_true.mp h c hCapital)

theorem lowerChar_toLower (c : Char) : lowerChar c.toLower = lowerChar c :=
  eq_of_basicCapitals (by decide +kernel) c

theorem isCased_toLower (c : Char) : isCased c.toLower = isCased c :=
  eq_of_basicCapitals (by decide +kernel) c

theorem isCaseIgnorable_toLower (c : Char) : isCaseIgnorable c.toLower = isCaseIgnorable c :=
  eq_of_basicCapitals (by decide +kernel) c

theorem isSpace_toLower (c : Char) : isSpace c.toLower = isSpace c :=
  eq_of_basicCapitals (by decide +kernel) c

theorem toLower_eq_sigma_iff (c : Char) : c.toLower = 'Σ' ↔ c = 'Σ' := by
  have h := eq_of_basicCapitals (f := fun c => decide (c = 'Σ')) (by decide +kernel) c
  simpa using h

theorem startsCased_map_toLower (cs : List Char) :
    startsCased (cs.map Char.toLower) = startsCased cs := by
  have hIgnorable : isCaseIgnorable ∘ Char.toLower = isCaseIgnorable :=
    funext isCaseIgnorable_toLower
  rw [startsCased, startsCased, List.dropWhile_map, hIgnorable]
  cases cs.dropWhile isCaseIgnorable with
  | nil => rfl
  | cons c rest => exact isCased_toLower c

theorem lowerFrom_map_toLower (before cs : List Char) :
    lowerFrom (before.map Char.toLower) (cs.map Char.toLower) = lowerFrom before cs := by
  induction cs generalizing before with
  | nil => rfl
  | cons c cs ih =>
    have hRest := ih (c :: before)
    rw [List.map_cons] at hRest
    simp only [List.map_cons, lowerFrom, toLower_eq_sigma_iff, startsCased_map_toLower,
      lowerChar_toLower, hRest]

theorem lowerChars_map_toLower (cs : List Char) :
    lowerChars (cs.map Char.toLower) = lowerChars cs :=
  lowerFrom_map_toLower [] cs

theorem trimChars_map_toLower (cs : List Char) :
    trimChars (cs.map Char.toLower) = (trimChars cs).map Char.toLower := by
  have hSpace : isSpace ∘ Char.toLower = isSpace := funext isSpace_toLower
  simp only [trimChars, List.dropWhile_map, ← List.map_reverse, hSpace]

end Text

open Text

namespace CompilerId

/-- The case of the basic letters does not count. -/
theorem ofString_toLower (s : String) : ofString s.toLower = ofString s := by
  rw [← text_inj, ← String.toList_inj]
  simp only [ofString, toList_lower, toList_trim, toList_toLower, trimChars_map_toLower,
    lowerChars_map_toLower]

/-- White space around a name does not count. -/
theorem ofString_append {front back : String} (hFront : ∀ c ∈ front.toList, isSpace c = true)
    (hBack : ∀ c ∈ back.toList, isSpace c = true) (s : String) :
    ofString (front ++ s ++ back) = ofString s := by
  rw [← text_inj, ← String.toList_inj]
  simp only [ofString, toList_lower, toList_trim, String.toList_append,
    trimChars_append_right hBack, trimChars_append_left hFront]

theorem trimChars_text_ofString (s : String) :
    trimChars (ofString s).text.toList = (ofString s).text.toList := by
  simp only [ofString, toList_lower, toList_trim]
  exact trimChars_lowerChars (trimChars_trimChars _)

theorem text_ofString_eq_self_iff (s : String) :
    (ofString s).text = s ↔ trim s = s ∧ lower s = s := by
  constructor
  · intro h
    have hChars := trimChars_text_ofString s
    have hTrim : trim s = s := by
      rw [← String.toList_inj, toList_trim, ← h, hChars]
    have hLower : lower (trim s) = s := h
    exact ⟨hTrim, by rwa [hTrim] at hLower⟩
  · rintro ⟨hTrim, hLower⟩
    rw [ofString, hTrim, hLower]

theorem ofDatum?_toDatum_ofString (s : String) :
    ofDatum? (ofString s).toDatum = some (ofString s) := by
  simp [ofDatum?, toDatum, Datum.text?]

/-- The text of an identifier names it, has no white space at its ends, and is read back as data.
The texts that stand for themselves are the trimmed ones in lower case. The same compiler is named
by every text that differs from a name in white space around it and in the case of basic letters,
whatever the other characters are. -/
theorem spellings_agree (s : String) :
    ofString (ofString s).text = ofString s ∧
    ((ofString s).text = s ↔ trim s = s ∧ lower s = s) ∧
    (∀ c, (ofString s).text.toList.head? = some c → isSpace c = false) ∧
    (∀ c, (ofString s).text.toList.getLast? = some c → isSpace c = false) ∧
    ofDatum? (ofString s).toDatum = some (ofString s) ∧
    (Json.read? (Json.render (ofString s).toDatum)).bind ofDatum? = some (ofString s) ∧
    ∀ front t back : String, (∀ c ∈ front.toList, isSpace c = true) →
      (∀ c ∈ back.toList, isSpace c = true) → t.toLower = s.toLower →
        ofString (front ++ t ++ back) = ofString s := by
  obtain ⟨hFront, hBack⟩ := (trimChars_eq_self_iff _).mp (trimChars_text_ofString s)
  have hData := ofDatum?_toDatum_ofString s
  refine ⟨ofString_text_ofString s, text_ofString_eq_self_iff s, fun c hHead => ?_,
    fun c hLast => ?_, hData, ?_, fun front t back hPadFront hPadBack hCase => ?_⟩
  · obtain ⟨rest, hText⟩ := List.head?_eq_some_iff.mp hHead
    exact hFront c rest hText
  · obtain ⟨front, hText⟩ := List.getLast?_eq_some_iff.mp hLast
    exact hBack front c hText
  · rw [toDatum, Json.read?_render (.text _)]
    exact hData
  · calc
      ofString (front ++ t ++ back) = ofString t := ofString_append hPadFront hPadBack t
      _ = ofString s := by rw [← ofString_toLower t, hCase, ofString_toLower s]

/-- The sigma in front of `'B` is not at the end of its word, in either case of the `B`. -/
theorem spellings_agree_of_sigmas :
    let s := "aΣ'B İΣ"
    let t := "AΣ'b İΣ"
    t.toLower = s.toLower ∧ (ofString s).text = "aσ'b i\u0307ς" ∧
      ofString ("\u3000" ++ t ++ "\t") = ofString s := by
  intro s t
  have hFront : ∀ c ∈ "\u3000".toList, isSpace c = true :=
    List.all_eq_true.mp (by decide +kernel)
  have hBack : ∀ c ∈ "\t".toList, isSpace c = true :=
    List.all_eq_true.mp (by decide +kernel)
  have hCase : t.toLower = s.toLower := by
    rw [← String.toList_inj, toList_toLower, toList_toLower]
    decide +kernel
  have hText : (ofString s).text = "aσ'b i\u0307ς" := by decide +kernel
  obtain ⟨-, -, -, -, -, -, hSpellings⟩ := spellings_agree s
  exact ⟨hCase, hText, hSpellings "\u3000" t "\t" hFront hBack hCase⟩

end CompilerId

end TargetCatalog
