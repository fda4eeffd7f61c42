/-!
# White space, cutting and joining

Names, compiler identifiers and entries of member lists are read without the white space at their
ends; white space is the Unicode property `White_Space` throughout. A separator cuts a text into
pieces, always one more than there are separators, so that pieces may be empty. `words` cuts at
white space and drops the empty pieces. Joining puts the separator back: `join_split` says that
nothing is lost. The functions work on character lists and are then lifted to strings.
-/

namespace TargetCatalog.Text

/-- A character with the Unicode property `White_Space`. -/
def isSpace (c : Char) : Bool :=
  let n := c.toNat
  (0x9 ≤ n && n ≤ 0xD) || n == 0x20 || n == 0x85 || n == 0xA0 || n == 0x1680 ||
    (0x2000 ≤ n && n ≤ 0x200A) || n == 0x2028 || n == 0x2029 || n == 0x202F || n == 0x205F ||
    n == 0x3000

/-- The characters left when the white space at both ends is dropped. -/
def trimChars (cs : List Char) : List Char :=
  ((cs.dropWhile isSpace).reverse.dropWhile isSpace).reverse

def trim (s : String) : String :=
  .ofList (trimChars s.toList)

@[simp] theorem toList_trim (s : String) : (trim s).toList = trimChars s.toList := by
  simp [trim]

@[simp] theorem trimChars_nil : trimChars [] = [] := rfl

theorem mem_of_mem_trimChars {c : Char} {cs : List Char} (h : c ∈ trimChars cs) : c ∈ cs := by
  have hFront : c ∈ cs.dropWhile isSpace := by
    simpa using (List.dropWhile_sublist isSpace).mem (List.mem_reverse.mp h)
  exact (List.dropWhile_sublist isSpace).mem hFront

/-- The pieces of a string between the occurrences of a separator. -/
def split (sep : Char) (s : String) : List String :=
  (s.toList.splitOn sep).map .ofList

theorem not_sep_of_mem_splitOnP {sep : Char → Bool} {cs piece : List Char} {c : Char}
    (hPiece : piece ∈ cs.splitOnP sep) (hc : c ∈ piece) : sep c = false := by
  induction cs generalizing piece with
  | nil =>
    rw [List.splitOnP_nil, List.mem_singleton] at hPiece
    subst hPiece
    cases hc
  | cons first cs ih =>
    rw [List.splitOnP_cons_eq_if_modifyHead] at hPiece
    split at hPiece
    · rcases List.mem_cons.mp hPiece with rfl | hPiece
      · cases hc
      · exact ih hPiece hc
    · rename_i hFirst
      obtain ⟨head, pieces, hCons⟩ := List.exists_cons_of_ne_nil (List.splitOnP_ne_nil sep cs)
      rw [hCons, List.modifyHead_cons] at hPiece
      rcases List.mem_cons.mp hPiece with rfl | hPiece
      · rcases List.mem_cons.mp hc with rfl | hc
        · simpa using hFirst
        · exact ih (hCons ▸ List.mem_cons_self) hc
      · exact ih (hCons ▸ List.mem_cons_of_mem _ hPiece) hc

theorem not_mem_of_mem_splitOn {sep : Char} {cs piece : List Char}
    (h : piece ∈ cs.splitOn sep) : sep ∉ piece := by
  intro hSep
  simpa using not_sep_of_mem_splitOnP h hSep

def wordsChars (cs : List Char) : List (List Char) :=
  (cs.splitOnP isSpace).filter fun piece => !piece.isEmpty

def words (s : String) : List String :=
  (wordsChars s.toList).map .ofList

/-- The strings one after the other, with a separator between neighbours. -/
def join (sep : String) (pieces : List String) : String :=
  .ofList (sep.toList.intercalate (pieces.map String.toList))

@[simp] theorem toList_join (sep : String) (pieces : List String) :
    (join sep pieces).toList = sep.toList.intercalate (pieces.map String.toList) := by
  simp [join]

theorem join_split (sep : Char) (s : String) : join (.singleton sep) (split sep s) = s := by
  apply String.toList_inj.mp
  simp [split, Function.comp_def, List.intercalate_splitOn]

end TargetCatalog.Text
