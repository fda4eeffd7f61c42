import TargetCatalog.Text.Digits
import TargetCatalog.Toml.Number

/-!
# Reading written numbers

A natural number in base ten at the end of a line is read as that integer and as nothing else: no
date, time or real number starts the same way, since a line feed follows its digits.
-/

namespace TargetCatalog.Toml

open Text

section Digits

variable {digits rest : List Char}

theorem digitsTail_append (hDigits : ∀ c ∈ digits, c.isDigit = true) :
    digitsTail Char.isDigit (digits ++ '\n' :: rest) = (digits, '\n' :: rest) := by
  induction digits with
  | nil => rw [List.nil_append, digitsTail.eq_def]; rfl
  | cons d digits ih =>
    obtain ⟨hHead, hTail⟩ := List.forall_mem_cons.mp hDigits
    rw [List.cons_append, digitsTail.eq_def]
    simp [hHead, ih hTail]

theorem digits?_append (hNonempty : digits ≠ []) (hDigits : ∀ c ∈ digits, c.isDigit = true) :
    digits? Char.isDigit (digits ++ '\n' :: rest) = some (digits, '\n' :: rest) := by
  match digits, hNonempty with
  | d :: digits, _ =>
    obtain ⟨hHead, hTail⟩ := List.forall_mem_cons.mp hDigits
    rw [List.cons_append, digits?, if_pos hHead, digitsTail_append hTail]

/-- What is read of a fixed number of digits leaves further digits, or the end of the line. -/
theorem after?_of_fixedDigits? {count value : Nat} {tail : List Char} {c : Char}
    (hDigits : ∀ c ∈ digits, c.isDigit = true) (hc : c.isDigit = false) (hLine : c ≠ '\n')
    (h : fixedDigits? count (digits ++ '\n' :: rest) = some (value, tail)) :
    after? c tail = none := by
  simp only [fixedDigits?] at h
  split at h
  · rename_i hTaken
    obtain ⟨hLength, hAll⟩ := hTaken
    have hCount : count ≤ digits.length := by
      refine Nat.le_of_not_lt fun hLong => ?_
      have hEnd : '\n' ∈ (digits ++ '\n' :: rest).take count :=
        List.mem_take_iff_getElem.mpr ⟨digits.length, by simp; omega, by simp⟩
      exact absurd (List.all_eq_true.mp hAll '\n' hEnd) (by decide)
    have hTail : tail = digits.drop count ++ '\n' :: rest := by
      rw [← (Prod.mk.inj (Option.some.inj h)).2, List.drop_append_of_le_length hCount]
    cases hDrop : digits.drop count with
    | nil => simp [hTail, hDrop, after?, Ne.symm hLine]
    | cons d left =>
      have hd : d.isDigit = true :=
        hDigits d (List.mem_of_mem_drop (hDrop ▸ List.mem_cons_self))
      simp [hTail, hDrop, after?, ne_of_class hd hc]
  · cases h

theorem skipDate_append (hDigits : ∀ c ∈ digits, c.isDigit = true) :
    skipDate (digits ++ '\n' :: rest) = none := by
  cases hYear : fixedDigits? 4 (digits ++ '\n' :: rest) with
  | none => simp [skipDate, hYear]
  | some year =>
    have hDash : after? '-' year.2 = none :=
      after?_of_fixedDigits? hDigits (by decide) (by decide) hYear
    simp [skipDate, hYear, hDash]

theorem skipTime_append (hDigits : ∀ c ∈ digits, c.isDigit = true) :
    skipTime (digits ++ '\n' :: rest) = none := by
  cases hHour : fixedDigits? 2 (digits ++ '\n' :: rest) with
  | none => simp [skipTime, skipHourMinute, hHour]
  | some hour =>
    have hColon : after? ':' hour.2 = none :=
      after?_of_fixedDigits? hDigits (by decide) (by decide) hHour
    simp [skipTime, skipHourMinute, hHour, hColon]

theorem readMoment_append (hDigits : ∀ c ∈ digits, c.isDigit = true) :
    readMoment (digits ++ '\n' :: rest) = none := by
  simp [readMoment, skipMoment, skipDate_append hDigits, skipTime_append hDigits]

end Digits

section Written

variable (n : Nat) (rest : List Char)

theorem sign_toDigits :
    sign (Nat.toDigits 10 n ++ '\n' :: rest) = (false, Nat.toDigits 10 n ++ '\n' :: rest) := by
  obtain ⟨d, digits, hDigits, hd⟩ := toDigits_eq_cons n
  rw [hDigits, List.cons_append, sign]
  · exact fun tail hTail => ne_of_class hd (by decide) (List.cons.inj hTail).1
  · exact fun tail hTail => ne_of_class hd (by decide) (List.cons.inj hTail).1

theorem whole?_toDigits :
    whole? (Nat.toDigits 10 n ++ '\n' :: rest) = some (Nat.toDigits 10 n, '\n' :: rest) := by
  cases Nat.eq_zero_or_pos n with
  | inl hZero => simp [hZero, whole?]
  | inr hPos =>
    have hWhole : whole? (Nat.toDigits 10 n ++ '\n' :: rest) =
        digits? Char.isDigit (Nat.toDigits 10 n ++ '\n' :: rest) := by
      have hFirst := head?_toDigits hPos
      obtain ⟨d, digits, hDigits, -⟩ := toDigits_eq_cons n
      rw [hDigits, List.cons_append, whole?]
      intro tail hTail
      exact hFirst (by rw [hDigits, (List.cons.inj hTail).1]; rfl)
    rw [hWhole, digits?_append Nat.toDigits_ne_nil fun c => isDigit_of_mem_toDigits]

theorem readDecimal_toDigits : readDecimal (Nat.toDigits 10 n ++ '\n' :: rest) = none := by
  simp [readDecimal, sign_toDigits, whole?_toDigits, fraction?, exponent?]

theorem readNonFinite_toDigits : readNonFinite (Nat.toDigits 10 n ++ '\n' :: rest) = none := by
  obtain ⟨d, digits, hDigits, hd⟩ := toDigits_eq_cons n
  have hInf : d ≠ 'i' := ne_of_class hd (by decide)
  have hNan : d ≠ 'n' := ne_of_class hd (by decide)
  rw [readNonFinite, sign_toDigits, hDigits]
  simp [hInf, hNan]

/-- A written number has no letter behind a leading zero. -/
theorem toDigits_append_ne {letter : Char} (hLetter : letter.isDigit = false)
    (hLine : letter ≠ '\n') (tail : List Char) :
    Nat.toDigits 10 n ++ '\n' :: rest ≠ '0' :: letter :: tail := by
  intro h
  cases hDigits : Nat.toDigits 10 n with
  | nil => exact absurd hDigits Nat.toDigits_ne_nil
  | cons d digits =>
    rw [hDigits, List.cons_append, List.cons.injEq] at h
    cases digits with
    | nil => exact hLine (List.cons.inj h.2).1.symm
    | cons e digits =>
      have he : e.isDigit = true := by
        refine isDigit_of_mem_toDigits (n := n) ?_
        simp [hDigits]
      exact ne_of_class he hLetter (List.cons.inj h.2).1

end Written

section Bounded

variable {n : Nat}

theorem int64?_ofNat (h : (n : Int) ≤ Int64.maxValue.toInt) : int64? n = some (.int n) := by
  have hLow : Int64.minValue.toInt ≤ 0 := by decide
  rw [int64?, if_pos ⟨by omega, h⟩]

theorem readInteger_toDigits (h : (n : Int) ≤ Int64.maxValue.toInt) (rest : List Char) :
    readInteger (Nat.toDigits 10 n ++ '\n' :: rest) = some (.int n, '\n' :: rest) := by
  rw [readInteger]
  · simp [sign_toDigits, whole?_toDigits, int64?_ofNat h]
  · exact fun tail => toDigits_append_ne n rest (by decide) (by decide) tail
  · exact fun tail => toDigits_append_ne n rest (by decide) (by decide) tail
  · exact fun tail => toDigits_append_ne n rest (by decide) (by decide) tail

/-- A number that fits into 64 bits is read back from the end of a line. -/
theorem readNumeric_toDigits (h : (n : Int) ≤ Int64.maxValue.toInt) (rest : List Char) :
    readNumeric (Nat.toDigits 10 n ++ '\n' :: rest) = some (.int n, '\n' :: rest) := by
  have hMoment : readMoment (Nat.toDigits 10 n ++ '\n' :: rest) = none :=
    readMoment_append fun c => isDigit_of_mem_toDigits
  simp [readNumeric, hMoment, readDecimal_toDigits, readNonFinite_toDigits, readInteger_toDigits h]

end Bounded

end TargetCatalog.Toml
