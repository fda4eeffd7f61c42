import TargetCatalog.Toml.Quoted
import TargetCatalog.Toml.Writer

/-!
# Reading written strings

A string that is written in any of the four styles is read back, and so is the text behind it. Each
style is chosen only for strings that it can hold: a basic string shows every character or escapes
it, a literal one is kept free of what it cannot show, and runs of quotes are never long enough to
be taken for the closing ones.
-/

namespace TargetCatalog.Toml

open Text

section Characters

variable {c : Char}

theorem isPlain_of_not_isControl (hControl : isControl c = false) (hLine : c ≠ '\n') :
    isPlain c = true := by
  have hCode : c.toNat ≠ '\n'.toNat := fun h => hLine (Char.toNat_inj.mp h)
  by_cases hTab : c = '\t'
  · simp [isPlain, hTab]
  · simp [isControl, isPlain, hTab, hLine] at hControl ⊢
    omega

theorem ne_return_of_not_isControl (hControl : isControl c = false) : c ≠ '\r' := by
  rintro rfl
  exact absurd hControl (by decide)

theorem scalar?_upperHexDigit (h : isControl c = true) :
    scalar? ['0', '0', upperHexDigit (c.toNat / 16), upperHexDigit (c.toNat % 16)] = some c := by
  have hCode : c.toNat ≤ 0x7F := by
    simp [isControl] at h
    omega
  have hValue : 16 * (c.toNat / 16) + c.toNat % 16 = c.toNat := Nat.div_add_mod c.toNat 16
  have hValid : c.toNat.isValidChar := .inl (by omega)
  have hZero : hexValue? '0' = some 0 := rfl
  simp only [scalar?, hexNumber?, List.foldlM_cons, List.foldlM_nil, hZero,
    hexValue?_upperHexDigit (show c.toNat / 16 < 16 by omega),
    hexValue?_upperHexDigit (show c.toNat % 16 < 16 by omega)]
  simp [hValue, hValid]

/-- A character stands for itself, or behind a backslash for one of the short escapes, or it is
written by its code point. -/
theorem escapeChar_cases (c : Char) :
    (∃ e, escapeChar c = ['\\', e] ∧ shortEscape? e = some c ∧ isBlank e = false ∧
      e ≠ '\n' ∧ e ≠ '\r' ∧ e ≠ 'u' ∧ e ≠ 'U') ∨
    (∃ a b, escapeChar c = ['\\', 'u', '0', '0', a, b] ∧ scalar? ['0', '0', a, b] = some c) ∨
    (escapeChar c = [c] ∧ c ≠ '\\' ∧ isControl c = false) := by
  by_cases hBackspace : c = '\x08'
  · exact .inl ⟨'b', by simp [escapeChar, hBackspace], by simp [shortEscape?, hBackspace],
      by decide⟩
  by_cases hTab : c = '\t'
  · exact .inl ⟨'t', by simp [escapeChar, hTab], by simp [shortEscape?, hTab], by decide⟩
  by_cases hFeed : c = '\x0c'
  · exact .inl ⟨'f', by simp [escapeChar, hFeed], by simp [shortEscape?, hFeed], by decide⟩
  by_cases hReturn : c = '\r'
  · exact .inl ⟨'r', by simp [escapeChar, hReturn], by simp [shortEscape?, hReturn], by decide⟩
  by_cases hBackslash : c = '\\'
  · exact .inl ⟨'\\', by simp [escapeChar, hBackslash], by simp [shortEscape?, hBackslash],
      by decide⟩
  cases hControl : isControl c with
  | true =>
    refine .inr (.inl ⟨_, _, ?_, scalar?_upperHexDigit hControl⟩)
    simp [escapeChar, hBackspace, hTab, hFeed, hReturn, hBackslash, hControl]
  | false =>
    refine .inr (.inr ⟨?_, hBackslash, rfl⟩)
    simp [escapeChar, hBackspace, hTab, hFeed, hReturn, hBackslash, hControl]

/-- What is written for a character starts with a backslash or with the character. -/
theorem escapeChar_eq_cons (c : Char) :
    ∃ first text, escapeChar c = first :: text ∧ (first = '\\' ∨ (first = c ∧ c ≠ '\r')) := by
  obtain ⟨e, hText, -⟩ | ⟨a, b, hText, -⟩ | ⟨hText, -, hControl⟩ := escapeChar_cases c
  · exact ⟨'\\', _, hText, .inl rfl⟩
  · exact ⟨'\\', _, hText, .inl rfl⟩
  · exact ⟨c, _, hText, .inr ⟨rfl, ne_return_of_not_isControl hControl⟩⟩

end Characters

section Basic

variable {c e : Char} {tail : List Char}

theorem readBasic_of_short (hEscape : shortEscape? e = some c) (hShort : e ≠ 'u')
    (hLong : e ≠ 'U') : readBasic ('\\' :: e :: tail) = prepend c (readBasic tail) := by
  rw [readBasic.eq_def]
  simp [hEscape, hShort, hLong]

theorem readBasic_of_code {a b : Char} (hCode : scalar? ['0', '0', a, b] = some c) :
    readBasic ('\\' :: 'u' :: '0' :: '0' :: a :: b :: tail) = prepend c (readBasic tail) := by
  rw [readBasic.eq_def]
  simp [hCode]

theorem readBasic_of_plain (hPlain : isPlain c = true) (hQuote : c ≠ '"') (hBackslash : c ≠ '\\') :
    readBasic (c :: tail) = prepend c (readBasic tail) := by
  rw [readBasic.eq_def]
  simp [hPlain, hQuote, hBackslash]

theorem readBasic_escapeBasic (c : Char) (tail : List Char) :
    readBasic (escapeBasic c ++ tail) = prepend c (readBasic tail) := by
  by_cases hQuote : c = '"'
  · subst hQuote
    exact readBasic_of_short rfl (by decide) (by decide)
  by_cases hLine : c = '\n'
  · subst hLine
    exact readBasic_of_short rfl (by decide) (by decide)
  rw [escapeBasic, if_neg hQuote, if_neg hLine]
  obtain ⟨e, hText, hEscape, -, -, -, hShort, hLong⟩ | ⟨a, b, hText, hCode⟩ |
    ⟨hText, hBackslash, hControl⟩ := escapeChar_cases c
  · rw [hText]
    exact readBasic_of_short hEscape hShort hLong
  · rw [hText]
    exact readBasic_of_code hCode
  · rw [hText]
    exact readBasic_of_plain (isPlain_of_not_isControl hControl hLine) hQuote hBackslash

/-- No character starts with a quote when it is written. -/
theorem escapeBasic_eq_cons (c : Char) :
    ∃ first text, escapeBasic c = first :: text ∧ first ≠ '"' := by
  by_cases hQuote : c = '"'
  · exact ⟨'\\', ['"'], by rw [escapeBasic, if_pos hQuote], by decide⟩
  by_cases hLine : c = '\n'
  · exact ⟨'\\', ['n'], by rw [escapeBasic, if_neg hQuote, if_pos hLine], by decide⟩
  rw [escapeBasic, if_neg hQuote, if_neg hLine]
  obtain ⟨first, text, hText, rfl | ⟨rfl, -⟩⟩ := escapeChar_eq_cons c
  · exact ⟨'\\', text, hText, by decide⟩
  · exact ⟨first, text, hText, hQuote⟩

theorem readBasic_flatMap_escapeBasic (cs rest : List Char) :
    readBasic (cs.flatMap escapeBasic ++ '"' :: rest) = some (cs, rest) := by
  induction cs with
  | nil =>
    rw [List.flatMap_nil, List.nil_append, readBasic.eq_def]
    simp
  | cons c cs ih =>
    rw [List.flatMap_cons, List.append_assoc, readBasic_escapeBasic, ih]
    rfl

end Basic

theorem readLiteral_append {cs : List Char} (hQuotes : '\'' ∉ cs)
    (hPlain : ∀ c ∈ cs, isPlain c = true) (rest : List Char) :
    readLiteral (cs ++ '\'' :: rest) = some (cs, rest) := by
  induction cs with
  | nil => rfl
  | cons c cs ih =>
    obtain ⟨hHead, hTail⟩ := List.forall_mem_cons.mp hPlain
    rw [List.mem_cons, not_or] at hQuotes
    rw [List.cons_append, readLiteral, if_neg (Ne.symm hQuotes.1), if_pos hHead,
      ih hQuotes.2 hTail]
    rfl

section Closing

variable {quote : Char} {rest : List Char}

/-- The quotes behind the first one of a closing run, when `extra` of them belong to the string. -/
theorem closing_replicate (hRest : rest.head? ≠ some quote) {extra : Nat} (h : extra ≤ 2) :
    closing quote (List.replicate extra quote ++ rest) = (List.replicate extra quote, rest) := by
  match extra, h with
  | 0, _ =>
    match rest, hRest with
    | [], _ => rfl
    | [a], hRest => simp_all [closing]
    | a :: b :: rest, hRest => simp_all [closing]
  | 1, _ =>
    match rest, hRest with
    | [], _ => simp [closing]
    | a :: rest, hRest => simp_all [closing]
  | 2, _ => simp [closing]

theorem startsClosing_of_closing :
    startsClosing quote (quote :: quote :: quote :: rest) = true := by
  simp [startsClosing]

/-- A text that starts with at most two quotes is nothing but these, or is not taken for the end of
its string. -/
theorem replicate_or_not_startsClosing {text : List Char}
    (h : (text.takeWhile (· == quote)).length ≤ 2) (rest : List Char) :
    (∃ extra ≤ 2, text = List.replicate extra quote) ∨
      startsClosing quote (text ++ quote :: quote :: quote :: rest) = false := by
  match text with
  | [] => exact .inl ⟨0, Nat.zero_le 2, rfl⟩
  | [a] =>
    by_cases ha : a = quote
    · exact .inl ⟨1, by decide, by simp [ha]⟩
    · refine .inr ?_
      simp only [startsClosing]
      grind
  | [a, b] =>
    by_cases hab : a = quote ∧ b = quote
    · exact .inl ⟨2, Nat.le_refl 2, by simp [hab, List.replicate_succ]⟩
    · refine .inr ?_
      simp only [startsClosing]
      grind
  | a :: b :: c :: tail =>
    by_cases hAll : a = quote ∧ b = quote ∧ c = quote
    · obtain ⟨rfl, rfl, rfl⟩ := hAll
      simp at h
    · refine .inr ?_
      simp only [startsClosing]
      grind

theorem replicate_append_closing {extra : Nat} (h : extra ≤ 2) :
    List.replicate extra quote ++ quote :: quote :: quote :: rest =
      quote :: quote :: quote :: (List.replicate extra quote ++ rest) := by
  match extra, h with
  | 0, _ => rfl
  | 1, _ => rfl
  | 2, _ => rfl

end Closing

section LiteralLines

variable {c : Char} {tail rest : List Char}

theorem length_takeWhile_of_runsShort {quote : Char} {run : Nat} {cs : List Char}
    (hShort : runsShort quote run cs = true) (hRun : run ≤ 2) :
    (cs.takeWhile (· == quote)).length + run ≤ 2 := by
  induction cs generalizing run with
  | nil => simpa using hRun
  | cons c cs ih =>
    by_cases hQuote : c = quote
    · simp only [runsShort, if_pos hQuote, Bool.and_eq_true, decide_eq_true_eq] at hShort
      have hTail := ih hShort.2 (by omega)
      simp only [hQuote, List.takeWhile_cons, beq_self_eq_true, if_true, List.length_cons]
      omega
    · simpa [hQuote] using hRun

theorem readLiteralLines_replicate (hRest : rest.head? ≠ some '\'') {extra : Nat} (h : extra ≤ 2) :
    readLiteralLines (List.replicate extra '\'' ++ '\'' :: '\'' :: '\'' :: rest) =
      some (List.replicate extra '\'', rest) := by
  rw [replicate_append_closing h, readLiteralLines, if_neg (by decide), if_pos rfl,
    if_pos startsClosing_of_closing]
  exact congrArg some (closing_replicate hRest h)

theorem readLiteralLines_of_quote (hOpen : startsClosing '\'' ('\'' :: tail) = false) :
    readLiteralLines ('\'' :: tail) = prepend '\'' (readLiteralLines tail) := by
  rw [readLiteralLines, if_neg (by decide), if_pos rfl, if_neg (by simp [hOpen])]

theorem readLiteralLines_of_shown (hControl : isControl c = false) (hQuote : c ≠ '\'') :
    readLiteralLines (c :: tail) = prepend c (readLiteralLines tail) := by
  have hShown : c = '\n' ∨ isPlain c = true := by
    by_cases hLine : c = '\n'
    · exact .inl hLine
    · exact .inr (isPlain_of_not_isControl hControl hLine)
  rw [readLiteralLines, if_neg (ne_return_of_not_isControl hControl), if_neg hQuote, if_pos hShown]

theorem readLiteralLines_append {cs : List Char} {run : Nat}
    (hShort : runsShort '\'' run cs = true) (hRun : run ≤ 2)
    (hControl : ∀ c ∈ cs, isControl c = false) (hRest : rest.head? ≠ some '\'') :
    readLiteralLines (cs ++ '\'' :: '\'' :: '\'' :: rest) = some (cs, rest) := by
  induction cs generalizing run with
  | nil => exact readLiteralLines_replicate hRest (Nat.zero_le 2)
  | cons c cs ih =>
    obtain ⟨hHead, hTail⟩ := List.forall_mem_cons.mp hControl
    have hFront := length_takeWhile_of_runsShort hShort hRun
    by_cases hQuote : c = '\''
    · simp only [runsShort, if_pos hQuote, Bool.and_eq_true, decide_eq_true_eq] at hShort
      -- Quotes at the very end of the value are read together with the closing ones.
      obtain ⟨extra, hExtra, hText⟩ | hOpen :=
        replicate_or_not_startsClosing (Nat.le_of_add_right_le hFront) rest
      · rw [hText]
        exact readLiteralLines_replicate hRest hExtra
      · subst hQuote
        rw [List.cons_append] at hOpen ⊢
        rw [readLiteralLines_of_quote hOpen, ih hShort.2 (by omega) hTail]
        rfl
    · simp only [runsShort, if_neg hQuote] at hShort
      rw [List.cons_append, readLiteralLines_of_shown hHead hQuote,
        ih hShort (Nat.zero_le 2) hTail]
      rfl

end LiteralLines

section BasicLines

variable {c e : Char} {cs tail rest : List Char} {run : Nat}

/-- The next character is a quote that stands for itself, or something else is written first. -/
theorem escapeBasicLines_cons_cases (run : Nat) (c : Char) (cs : List Char) :
    (c = '"' ∧ run ≠ 2 ∧ escapeBasicLines run (c :: cs) = '"' :: escapeBasicLines (run + 1) cs) ∨
      ∃ first text, escapeBasicLines run (c :: cs) = first :: text ∧ first ≠ '"' := by
  by_cases hQuote : c = '"'
  · by_cases hFull : run = 2
    · exact .inr ⟨'\\', _, by rw [escapeBasicLines, if_pos hQuote, if_pos hFull], by decide⟩
    · exact .inl ⟨hQuote, hFull, by rw [escapeBasicLines, if_pos hQuote, if_neg hFull]⟩
  by_cases hLine : c = '\n'
  · exact .inr ⟨'\n', _, by rw [escapeBasicLines, if_neg hQuote, if_pos hLine], by decide⟩
  have hText : escapeBasicLines run (c :: cs) = escapeChar c ++ escapeBasicLines 0 cs := by
    rw [escapeBasicLines, if_neg hQuote, if_neg hLine]
  obtain ⟨first, text, hFirst, rfl | ⟨rfl, -⟩⟩ := escapeChar_eq_cons c
  · exact .inr ⟨'\\', _, by rw [hText, hFirst]; rfl, by decide⟩
  · exact .inr ⟨first, _, by rw [hText, hFirst]; rfl, hQuote⟩

theorem length_takeWhile_escapeBasicLines (hRun : run ≤ 2) (cs : List Char) :
    ((escapeBasicLines run cs).takeWhile (· == '"')).length + run ≤ 2 := by
  induction cs generalizing run with
  | nil => simpa [escapeBasicLines] using hRun
  | cons c cs ih =>
    obtain ⟨-, hFull, hText⟩ | ⟨first, text, hText, hFirst⟩ := escapeBasicLines_cons_cases run c cs
    · have hTail := ih (show run + 1 ≤ 2 by omega)
      simp only [hText, List.takeWhile_cons, beq_self_eq_true, if_true, List.length_cons]
      omega
    · simpa [hText, hFirst] using hRun

/-- Only quotes are written as quotes. -/
theorem eq_replicate_of_escapeBasicLines {extra : Nat}
    (h : escapeBasicLines run cs = List.replicate extra '"') : cs = List.replicate extra '"' := by
  induction cs generalizing run extra with
  | nil => exact h
  | cons c cs ih =>
    obtain ⟨hQuote, -, hText⟩ | ⟨first, text, hText, hFirst⟩ := escapeBasicLines_cons_cases run c cs
    · rw [hText] at h
      cases extra with
      | zero => cases h
      | succ extra =>
        rw [List.replicate_succ, List.cons.injEq] at h
        rw [List.replicate_succ, ih h.2, hQuote]
    · exact absurd (List.eq_of_mem_replicate (h ▸ hText ▸ List.mem_cons_self)) hFirst

theorem readBasicLines_replicate (hRest : rest.head? ≠ some '"') {extra : Nat} (h : extra ≤ 2) :
    readBasicLines false (List.replicate extra '"' ++ '"' :: '"' :: '"' :: rest) =
      some (List.replicate extra '"', rest) := by
  have hClosing := closing_replicate hRest h
  rw [replicate_append_closing h, readBasicLines.eq_def]
  simp [startsClosing_of_closing, hClosing]

theorem readBasicLines_of_quote (hOpen : startsClosing '"' ('"' :: tail) = false) :
    readBasicLines false ('"' :: tail) = prepend '"' (readBasicLines false tail) := by
  rw [readBasicLines.eq_def]
  simp [hOpen]

theorem readBasicLines_of_shown (hShown : c = '\n' ∨ isPlain c = true) (hReturn : c ≠ '\r')
    (hQuote : c ≠ '"') (hBackslash : c ≠ '\\') :
    readBasicLines false (c :: tail) = prepend c (readBasicLines false tail) := by
  rw [readBasicLines.eq_def]
  simp [hShown, hReturn, hQuote, hBackslash]

theorem startsFold_eq_false {first : Char} (hBlank : isBlank first = false) (hLine : first ≠ '\n')
    (hReturn : first ≠ '\r') : startsFold (first :: tail) = false := by
  simp [startsFold, skipBlanks, hBlank, newline?, hLine, hReturn]

theorem readBasicLines_of_short (hEscape : shortEscape? e = some c) (hBlank : isBlank e = false)
    (hLine : e ≠ '\n') (hReturn : e ≠ '\r') (hShort : e ≠ 'u') (hLong : e ≠ 'U') :
    readBasicLines false ('\\' :: e :: tail) = prepend c (readBasicLines false tail) := by
  have hFold : startsFold (e :: tail) = false := startsFold_eq_false hBlank hLine hReturn
  rw [readBasicLines.eq_def]
  simp [hFold, hEscape, hShort, hLong]

theorem readBasicLines_of_code {a b : Char} (hCode : scalar? ['0', '0', a, b] = some c) :
    readBasicLines false ('\\' :: 'u' :: '0' :: '0' :: a :: b :: tail) =
      prepend c (readBasicLines false tail) := by
  have hFold : startsFold ('u' :: '0' :: '0' :: a :: b :: tail) = false :=
    startsFold_eq_false (by decide) (by decide) (by decide)
  rw [readBasicLines.eq_def]
  simp [hFold, hCode]

theorem readBasicLines_escapeChar (hQuote : c ≠ '"') (hLine : c ≠ '\n') :
    readBasicLines false (escapeChar c ++ tail) = prepend c (readBasicLines false tail) := by
  obtain ⟨e, hText, hEscape, hBlank, hFeed, hReturn, hShort, hLong⟩ | ⟨a, b, hText, hCode⟩ |
    ⟨hText, hBackslash, hControl⟩ := escapeChar_cases c
  · rw [hText]
    exact readBasicLines_of_short hEscape hBlank hFeed hReturn hShort hLong
  · rw [hText]
    exact readBasicLines_of_code hCode
  · rw [hText]
    exact readBasicLines_of_shown (.inr (isPlain_of_not_isControl hControl hLine))
      (ne_return_of_not_isControl hControl) hQuote hBackslash

theorem readBasicLines_escapeBasicLines (hRun : run ≤ 2) (cs : List Char)
    (hRest : rest.head? ≠ some '"') :
    readBasicLines false (escapeBasicLines run cs ++ '"' :: '"' :: '"' :: rest) =
      some (cs, rest) := by
  induction cs generalizing run with
  | nil => exact readBasicLines_replicate hRest (Nat.zero_le 2)
  | cons c cs ih =>
    by_cases hQuote : c = '"'
    · subst hQuote
      by_cases hFull : run = 2
      · rw [escapeBasicLines, if_pos rfl, if_pos hFull, List.cons_append, List.cons_append,
          readBasicLines_of_short rfl (by decide) (by decide) (by decide) (by decide) (by decide),
          ih (Nat.zero_le 2)]
        rfl
      · have hFront := length_takeWhile_escapeBasicLines hRun ('"' :: cs)
        obtain ⟨extra, hExtra, hText⟩ | hOpen :=
          replicate_or_not_startsClosing (Nat.le_of_add_right_le hFront) rest
        · rw [hText, eq_replicate_of_escapeBasicLines hText]
          exact readBasicLines_replicate hRest hExtra
        · rw [escapeBasicLines, if_pos rfl, if_neg hFull, List.cons_append] at hOpen ⊢
          rw [readBasicLines_of_quote hOpen, ih (by omega)]
          rfl
    by_cases hLine : c = '\n'
    · rw [escapeBasicLines, if_neg hQuote, if_pos hLine, List.cons_append,
        readBasicLines_of_shown (.inl rfl) (by decide) (by decide) (by decide),
        ih (Nat.zero_le 2), hLine]
      rfl
    · rw [escapeBasicLines, if_neg hQuote, if_neg hLine, List.append_assoc,
        readBasicLines_escapeChar hQuote hLine, ih (Nat.zero_le 2)]
      rfl

end BasicLines

section Quoted

variable {cs rest text : List Char}

theorem styleOf_cases (cs : List Char) :
    styleOf cs = .basic ∨
    (styleOf cs = .literal ∧ (∀ c ∈ cs, isControl c = false) ∧ '\'' ∉ cs ∧ '\n' ∉ cs) ∨
    styleOf cs = .basicLines ∨
    (styleOf cs = .literalLines ∧ (∀ c ∈ cs, isControl c = false) ∧
      runsShort '\'' 0 cs = true) := by
  grind [styleOf]

theorem readQuoted_of_double (h : ∀ tail, text ≠ '"' :: '"' :: tail) :
    readQuoted ('"' :: text) = readBasic text := by
  rw [readQuoted]
  exact h

theorem readQuoted_of_single (h : ∀ tail, text ≠ '\'' :: '\'' :: tail) :
    readQuoted ('\'' :: text) = readLiteral text := by
  rw [readQuoted]
  exact h

theorem readQuoted_basic (cs : List Char) (hRest : rest.head? ≠ some '"') :
    readQuoted (quoteChars .basic cs ++ rest) = some (cs, rest) := by
  have hText : quoteChars .basic cs ++ rest = '"' :: (cs.flatMap escapeBasic ++ '"' :: rest) := by
    simp [quoteChars]
  rw [hText, readQuoted_of_double, readBasic_flatMap_escapeBasic]
  intro tail hTail
  cases cs with
  | nil =>
    rw [List.flatMap_nil, List.nil_append, List.cons.injEq] at hTail
    exact hRest (by rw [hTail.2]; rfl)
  | cons c cs =>
    obtain ⟨first, text, hFirst, hQuote⟩ := escapeBasic_eq_cons c
    rw [List.flatMap_cons, hFirst] at hTail
    exact hQuote (List.cons.inj hTail).1

theorem readQuoted_literal (hQuotes : '\'' ∉ cs) (hPlain : ∀ c ∈ cs, isPlain c = true)
    (hRest : rest.head? ≠ some '\'') :
    readQuoted (quoteChars .literal cs ++ rest) = some (cs, rest) := by
  have hText : quoteChars .literal cs ++ rest = '\'' :: (cs ++ '\'' :: rest) := by
    simp [quoteChars]
  rw [hText, readQuoted_of_single, readLiteral_append hQuotes hPlain]
  intro tail hTail
  cases cs with
  | nil =>
    rw [List.nil_append, List.cons.injEq] at hTail
    exact hRest (by rw [hTail.2]; rfl)
  | cons c cs =>
    rw [List.cons_append, List.cons.injEq] at hTail
    exact hQuotes (hTail.1 ▸ List.mem_cons_self)

theorem dropNewline_of_head {first : Char} (hLine : first ≠ '\n') (hReturn : first ≠ '\r') :
    dropNewline (first :: text) = first :: text := by
  simp [dropNewline, newline?, hLine, hReturn]

/-- A line end right behind the opening quotes is passed over, so that one is written there whenever
the value has one of its own. -/
theorem dropNewline_opening (hHead : '\n' ∉ cs → dropNewline text = text) :
    dropNewline (opening cs ++ text) = text := by
  by_cases hLine : '\n' ∈ cs
  · simp [opening, hLine, dropNewline, newline?]
  · simp [opening, hLine, hHead hLine]

theorem dropNewline_escapeBasicLines (hLine : '\n' ∉ cs) :
    dropNewline (escapeBasicLines 0 cs ++ '"' :: text) = escapeBasicLines 0 cs ++ '"' :: text := by
  cases cs with
  | nil => exact dropNewline_of_head (by decide) (by decide)
  | cons c cs =>
    have hNext : c ≠ '\n' := fun h => hLine (h ▸ List.mem_cons_self)
    by_cases hQuote : c = '"'
    · rw [escapeBasicLines, if_pos hQuote, if_neg (by decide)]
      exact dropNewline_of_head (by decide) (by decide)
    · rw [escapeBasicLines, if_neg hQuote, if_neg hNext]
      obtain ⟨first, tail, hFirst, rfl | ⟨rfl, hReturn⟩⟩ := escapeChar_eq_cons c
      · rw [hFirst]
        exact dropNewline_of_head (by decide) (by decide)
      · rw [hFirst]
        exact dropNewline_of_head hNext hReturn

theorem readQuoted_basicLines (cs : List Char) (hRest : rest.head? ≠ some '"') :
    readQuoted (quoteChars .basicLines cs ++ rest) = some (cs, rest) := by
  have hText : quoteChars .basicLines cs ++ rest = '"' :: '"' :: '"' ::
      (opening cs ++ (escapeBasicLines 0 cs ++ '"' :: '"' :: '"' :: rest)) := by
    simp [quoteChars]
  rw [hText, readQuoted, dropNewline_opening dropNewline_escapeBasicLines,
    readBasicLines_escapeBasicLines (Nat.zero_le 2) cs hRest]

theorem readQuoted_literalLines (hControl : ∀ c ∈ cs, isControl c = false)
    (hShort : runsShort '\'' 0 cs = true) (hRest : rest.head? ≠ some '\'') :
    readQuoted (quoteChars .literalLines cs ++ rest) = some (cs, rest) := by
  have hText : quoteChars .literalLines cs ++ rest = '\'' :: '\'' :: '\'' ::
      (opening cs ++ (cs ++ '\'' :: '\'' :: '\'' :: rest)) := by
    simp [quoteChars]
  rw [hText, readQuoted, dropNewline_opening,
    readLiteralLines_append hShort (Nat.zero_le 2) hControl hRest]
  intro hLine
  cases cs with
  | nil => exact dropNewline_of_head (by decide) (by decide)
  | cons c cs =>
    rw [List.mem_cons, not_or] at hLine
    exact dropNewline_of_head (Ne.symm hLine.1)
      (ne_return_of_not_isControl (hControl c List.mem_cons_self))

theorem readQuoted_textChars (s : String) (hDouble : rest.head? ≠ some '"')
    (hSingle : rest.head? ≠ some '\'') :
    readQuoted (textChars s ++ rest) = some (s.toList, rest) := by
  rw [textChars]
  obtain hStyle | ⟨hStyle, hControl, hQuotes, hLine⟩ | hStyle | ⟨hStyle, hControl, hShort⟩ :=
    styleOf_cases s.toList
  · rw [hStyle]
    exact readQuoted_basic _ hDouble
  · rw [hStyle]
    refine readQuoted_literal hQuotes (fun c hc => ?_) hSingle
    exact isPlain_of_not_isControl (hControl c hc) (ne_of_mem_of_not_mem hc hLine)
  · rw [hStyle]
    exact readQuoted_basicLines _ hDouble
  · rw [hStyle]
    exact readQuoted_literalLines hControl hShort hSingle

end Quoted

end TargetCatalog.Toml
