import TargetCatalog.Proofs.Toml.Key
import TargetCatalog.Proofs.Toml.Value

/-!
# Reading written lines

The headers and settings of a written document are read back line by line. `HasLines` says what the
lines of a text are whatever the fuel, as long as there is some for every character, so that the
lines of a document can be put together one by one from behind. A rendered document is therefore
read as the tables that its settings and sections add up to.
-/

namespace TargetCatalog.Toml

open Text

section Parts

variable {rest : List Char}

theorem skipBlanks_settingChars (v : Setting) :
    skipBlanks (settingChars v ++ rest) = settingChars v ++ rest := by
  cases v with
  | text value =>
    obtain ⟨quote, text, hText, hQuote⟩ := textChars_eq_cons value
    rw [settingChars, hText]
    exact skipBlanks_of_not (by rcases hQuote with rfl | rfl <;> decide)
  | number value =>
    obtain ⟨d, digits, hDigits, hd⟩ := toDigits_eq_cons value
    have hSpace : d ≠ ' ' := ne_of_class hd (by decide)
    have hTab : d ≠ '\t' := ne_of_class hd (by decide)
    rw [settingChars, hDigits]
    exact skipBlanks_of_not (by simp [isBlank, hSpace, hTab])
  | texts values =>
    obtain ⟨text, hText⟩ := textsChars_eq_cons values
    rw [settingChars, hText]
    exact skipBlanks_of_not (by decide)

theorem readAssignment_lineChars (key : String) {v : Setting} (hv : v.Readable)
    (rest : List Char) :
    readAssignment (lineChars (key, v) ++ rest) =
      some (.assignment ⟨[], key, v.toDatum⟩, '\n' :: rest) := by
  have hText : lineChars (key, v) ++ rest =
      ['.'].intercalate (([] ++ [key]).map keyChars) ++
        ' ' :: '=' :: ' ' :: (settingChars v ++ '\n' :: rest) := by
    simp [lineChars]
  have hFuel : (settingChars v).length + 2 ≤
      2 * (' ' :: (settingChars v ++ '\n' :: rest)).length + 2 := by
    simp only [List.length_cons, List.length_append]
    omega
  have hBlanks (text : List Char) : skipBlanks (' ' :: text) = skipBlanks text := rfl
  have hEqual (text : List Char) : skipBlanks (' ' :: '=' :: text) = '=' :: text := rfl
  rw [readAssignment, hText,
    readKey_intercalate (by decide) key (by simp; decide) (by simp [hEqual])]
  simp only [hEqual, hBlanks, skipBlanks_settingChars, Option.bind_eq_bind, Option.bind_some]
  rw [show nestingLimit - 1 = 78 + 1 from rfl, readValue_settingChars hv hFuel 78 rest]
  rfl

theorem readHeader_of_double {path : List String} (hPath : path.length < nestingLimit - 1)
    (key : String) :
    readHeader ('[' :: (['.'].intercalate ((path ++ [key]).map keyChars) ++ ']' :: ']' :: rest)) =
      some (.header true path key, rest) := by
  rw [readHeader, readKey_of_bracket hPath]
  rfl

theorem readHeader_of_single {path : List String} (hPath : path.length < nestingLimit - 1)
    (key : String) :
    readHeader (['.'].intercalate ((path ++ [key]).map keyChars) ++ ']' :: rest) =
      some (.header false path key, rest) := by
  rw [readHeader]
  · rw [readKey_of_bracket hPath]
    rfl
  · exact intercalate_keyChars_ne_bracket (by simp)

theorem headerChars_eq_cons (b : Block) : ∃ text, headerChars b = '[' :: text := by
  cases hDouble : b.double with
  | true => exact ⟨_, by rw [headerChars, if_pos hDouble]; rfl⟩
  | false => exact ⟨_, by rw [headerChars, if_neg (by simp [hDouble])]; rfl⟩

/-- A header is a bracket and what is read behind it. -/
theorem headerChars_append (b : Block) (hPath : b.path.length < nestingLimit - 1)
    (rest : List Char) :
    ∃ text, headerChars b ++ rest = '[' :: text ∧
      readHeader text = some (.header b.double b.path b.key, '\n' :: rest) := by
  cases hDouble : b.double with
  | true =>
    refine ⟨_, ?_, readHeader_of_double hPath b.key⟩
    simp [headerChars, hDouble]
  | false =>
    refine ⟨_, ?_, readHeader_of_single hPath b.key⟩
    simp [headerChars, hDouble]

end Parts

def assignmentOf (line : String × Setting) : Assignment :=
  ⟨[], line.1, line.2.toDatum⟩

namespace Block

def lines (b : Block) : List Line :=
  .header b.double b.path b.key :: (b.settings.map assignmentOf).map .assignment

def toSection (b : Block) : Section :=
  ⟨b.double, b.path, b.key, b.settings.map assignmentOf⟩

/-- What a reader takes: not too many tables on the way to this one, and no number too large. -/
structure Readable (b : Block) : Prop where
  path : b.path.length < nestingLimit - 1
  settings : ∀ line ∈ b.settings, line.2.Readable

end Block

/-- What the lines of a text are, whatever the fuel, as long as there is some for every character
and for the end. -/
def HasLines (cs : List Char) (lines : List Line) : Prop :=
  ∀ fuel, cs.length < fuel → readLines fuel cs = some lines

theorem hasLines_nil : HasLines [] [] := by
  intro fuel hFuel
  obtain ⟨spare, rfl⟩ : ∃ spare, fuel = spare + 1 := ⟨fuel - 1, by simp at hFuel; omega⟩
  rfl

namespace HasLines

variable {rest : List Char} {lines : List Line}

theorem newline (h : HasLines rest lines) : HasLines ('\n' :: rest) lines := by
  intro fuel hFuel
  rw [List.length_cons] at hFuel
  obtain ⟨spare, rfl⟩ : ∃ spare, fuel = spare + 1 := ⟨fuel - 1, by omega⟩
  have hRest := h spare (by omega)
  simp [readLines, skipBlanks, isBlank, lineEnd?, newline?, hRest]

/-- A line that holds something, whether its text is that of a header or of a setting. -/
theorem line (h : HasLines rest lines) {c : Char} {text : List Char} {l : Line}
    (hBlank : isBlank c = false) (hc : c ≠ '#' ∧ c ≠ '\n' ∧ c ≠ '\r')
    (hLine : (if c = '[' then readHeader text else readAssignment (c :: text)) =
      some (l, '\n' :: rest))
    (hLength : rest.length < (c :: text).length) : HasLines (c :: text) (l :: lines) := by
  intro fuel hFuel
  rw [List.length_cons] at hFuel hLength
  -- A line has a character of its own, so what is left of the fuel is enough for the rest.
  obtain ⟨spare, rfl⟩ : ∃ spare, fuel = spare + 1 := ⟨fuel - 1, by omega⟩
  have hRest := h spare (by omega)
  have hEnd : lineEnd? ('\n' :: rest) = some rest := rfl
  by_cases hBracket : c = '['
  · subst hBracket
    rw [if_pos rfl] at hLine
    simp [readLines, skipBlanks_of_not hBlank, hLine, hEnd, hRest]
  · rw [if_neg hBracket] at hLine
    simp [readLines, skipBlanks_of_not hBlank, hc, hBracket, hLine, hEnd, hRest]

theorem assignment (h : HasLines rest lines) (key : String) {v : Setting} (hv : v.Readable) :
    HasLines (lineChars (key, v) ++ rest) (.assignment ⟨[], key, v.toDatum⟩ :: lines) := by
  have hLine := readAssignment_lineChars key hv rest
  have hLength : rest.length < (lineChars (key, v) ++ rest).length := by
    simp only [lineChars, List.length_append, List.length_cons]
    omega
  obtain ⟨first, text, hText, hFirst⟩ := keyChars_eq_cons key
  have hSpace : first ≠ ' ' := hFirst ' ' (by decide) (by decide) (by decide)
  have hTab : first ≠ '\t' := hFirst '\t' (by decide) (by decide) (by decide)
  have hComment : first ≠ '#' := hFirst '#' (by decide) (by decide) (by decide)
  have hFeed : first ≠ '\n' := hFirst '\n' (by decide) (by decide) (by decide)
  have hReturn : first ≠ '\r' := hFirst '\r' (by decide) (by decide) (by decide)
  have hBracket : first ≠ '[' := hFirst '[' (by decide) (by decide) (by decide)
  simp only [lineChars, hText, List.cons_append] at hLine hLength ⊢
  refine h.line (by simp [isBlank, hSpace, hTab]) ⟨hComment, hFeed, hReturn⟩ ?_ hLength
  rw [if_neg hBracket]
  exact hLine

theorem header (h : HasLines rest lines) (b : Block) (hPath : b.path.length < nestingLimit - 1) :
    HasLines (headerChars b ++ rest) (.header b.double b.path b.key :: lines) := by
  have hLength : rest.length < (headerChars b ++ rest).length := by
    obtain ⟨text, hText⟩ := headerChars_eq_cons b
    simp only [hText, List.length_append, List.length_cons]
    omega
  obtain ⟨text, hText, hHeader⟩ := headerChars_append b hPath rest
  rw [hText] at hLength ⊢
  exact h.line (by decide) (by decide) (by rw [if_pos rfl, hHeader]) hLength

theorem settings (h : HasLines rest lines) {settings : List (String × Setting)}
    (hSettings : ∀ line ∈ settings, line.2.Readable) :
    HasLines (settings.flatMap lineChars ++ rest)
      ((settings.map assignmentOf).map .assignment ++ lines) := by
  induction settings with
  | nil => exact h
  | cons line settings ih =>
    obtain ⟨hHead, hTail⟩ := List.forall_mem_cons.mp hSettings
    rw [List.flatMap_cons, List.append_assoc]
    exact (ih hTail).assignment line.1 hHead

theorem block (h : HasLines rest lines) {b : Block} (hBlock : b.Readable) :
    HasLines (blockChars b ++ rest) (b.lines ++ lines) := by
  rw [blockChars, List.append_assoc]
  exact (h.settings hBlock.settings).header b hBlock.path

end HasLines

theorem hasLines_blocksChars {blocks : List Block} (h : ∀ b ∈ blocks, b.Readable) :
    HasLines (blocksChars blocks) (blocks.flatMap Block.lines) := by
  induction blocks with
  | nil => exact hasLines_nil
  | cons b blocks ih =>
    obtain ⟨hHead, hTail⟩ := List.forall_mem_cons.mp h
    exact ((ih hTail).block hHead).newline

theorem hasLines_documentChars {settings : List (String × Setting)} {blocks : List Block}
    (hSettings : ∀ line ∈ settings, line.2.Readable) (hBlocks : ∀ b ∈ blocks, b.Readable) :
    HasLines (documentChars settings blocks)
      ((settings.map assignmentOf).map .assignment ++ blocks.flatMap Block.lines) := by
  cases settings with
  | nil =>
    cases blocks with
    | nil => exact hasLines_nil
    | cons b blocks =>
      obtain ⟨hHead, hTail⟩ := List.forall_mem_cons.mp hBlocks
      exact (hasLines_blocksChars hTail).block hHead
  | cons line settings => exact (hasLines_blocksChars hBlocks).settings hSettings

/-- A document does not start with a byte order mark. -/
theorem dropMark_documentChars (settings : List (String × Setting)) (blocks : List Block) :
    dropMark (documentChars settings blocks) = documentChars settings blocks := by
  cases settings with
  | nil =>
    cases blocks with
    | nil => rfl
    | cons b blocks =>
      obtain ⟨text, hText⟩ := headerChars_eq_cons b
      simp [documentChars, blocksChars, blockChars, hText, dropMark]
  | cons line settings =>
    obtain ⟨first, text, hText, hFirst⟩ := keyChars_eq_cons line.1
    have hMark : first ≠ '\uFEFF' := hFirst '\uFEFF' (by decide) (by decide) (by decide)
    simp [documentChars, lineChars, hText, dropMark, hMark]

theorem sections_append (body : List Assignment) (lines : List Line) :
    sections (body.map .assignment ++ lines) =
      (body ++ (sections lines).1, (sections lines).2) := by
  induction body with
  | nil => rfl
  | cons a body ih => simp [sections, ih]

theorem sections_flatMap (blocks : List Block) :
    sections (blocks.flatMap Block.lines) = ([], blocks.map Block.toSection) := by
  induction blocks with
  | nil => rfl
  | cons b blocks ih =>
    rw [List.flatMap_cons, Block.lines, List.cons_append, sections, sections_append, ih,
      List.append_nil]
    rfl

/-- A rendered document is read as its settings, to which its sections are added one by one. -/
theorem read?_render {settings : List (String × Setting)} {blocks : List Block}
    (hSettings : ∀ line ∈ settings, line.2.Readable) (hBlocks : ∀ b ∈ blocks, b.Readable) :
    read? (render settings blocks) = (do
      let root ← Entries.assignAll (settings.map assignmentOf) []
      let root ← (blocks.map Block.toSection).foldlM Entries.addSection root
      some root.toDatum) := by
  have hLines := hasLines_documentChars hSettings hBlocks _ (Nat.lt_succ_self _)
  simp [read?, render, dropMark_documentChars, hLines, build, sections_append, sections_flatMap,
    Option.bind_assoc, -List.map_map]

end TargetCatalog.Toml
