import Mathlib.Data.List.Basic
import TargetCatalog.Proofs.Text.Padding

/-!
# Texts with separators

Cutting at a separator and joining with it are `List.splitOn` and `List.intercalate`. The pieces
that are cut out of a text are what stands between two separators in it, where its ends count as
separators, and pieces that are free of the separator come back when they are joined and cut again.
A list is read from a joined text in the same way, where the empty text stands for no piece: only
the list of one empty piece is lost.
-/

namespace TargetCatalog.Text

theorem intercalate_append {sep : List Char} {pieces more : List (List Char)} (h : pieces ≠ [])
    (hMore : more ≠ []) :
    sep.intercalate (pieces ++ more) = sep.intercalate pieces ++ sep ++ sep.intercalate more := by
  induction pieces with
  | nil => exact absurd rfl h
  | cons piece pieces ih =>
    cases pieces with
    | nil =>
      rw [List.singleton_append, List.intercalate_cons_of_ne_nil hMore, List.intercalate_singleton]
    | cons next rest => simpa using ih (List.cons_ne_nil next rest)

theorem intercalate_prefix_intercalate {sep : List Char} {pieces more : List (List Char)}
    (h : pieces <+: more) : sep.intercalate pieces <+: sep.intercalate more := by
  obtain ⟨rest, rfl⟩ := h
  rcases eq_or_ne pieces [] with rfl | hPieces
  · exact List.nil_prefix
  · rcases eq_or_ne rest [] with rfl | hRest
    · simp
    · rw [intercalate_append hPieces hRest, List.append_assoc]
      exact List.prefix_append _ _

/-- Each piece of a joined text has a separator in front of it, if the text has one at its ends. -/
theorem cons_intercalate {sep : Char} {pieces : List (List Char)} (h : pieces ≠ []) :
    sep :: [sep].intercalate pieces = pieces.flatMap (sep :: ·) := by
  induction pieces with
  | nil => exact absurd rfl h
  | cons piece pieces ih =>
    cases pieces with
    | nil => simp
    | cons next rest =>
      rw [List.intercalate_cons_cons, List.append_assoc, List.singleton_append,
        ih (List.cons_ne_nil next rest)]
      rfl

theorem mem_splitOn_iff (sep : Char) (cs piece : List Char) :
    piece ∈ cs.splitOn sep ↔ sep ∉ piece ∧ ∃ before after,
      sep :: cs ++ [sep] = before ++ sep :: piece ++ sep :: after := by
  constructor
  · intro h
    have hText : sep :: [sep].intercalate (cs.splitOn sep) =
        (cs.splitOn sep).flatMap (sep :: ·) :=
      cons_intercalate (List.splitOn_ne_nil sep cs)
    obtain ⟨front, back, hPieces⟩ := List.append_of_mem h
    rw [List.intercalate_splitOn, hPieces, List.flatMap_append, List.flatMap_cons] at hText
    refine ⟨not_mem_of_mem_splitOn h, front.flatMap (sep :: ·), ?_⟩
    cases back with
    | nil => exact ⟨[], by simp [hText]⟩
    | cons next back =>
      exact ⟨next ++ back.flatMap (sep :: ·) ++ [sep], by simp [hText]⟩
  · rintro ⟨hFree, before, after, hText⟩
    have hAlone : piece.splitOn sep = [piece] := List.splitOn_eq_singleton hFree
    obtain ⟨first, front, hBefore⟩ := List.exists_cons_of_ne_nil (List.splitOn_ne_nil sep before)
    obtain ⟨back, last, hAfter⟩ :=
      (List.eq_nil_or_concat' _).resolve_left (List.splitOn_ne_nil sep after)
    -- The text with a separator at either end is cut at its ends, and around the piece.
    have hEnds : (sep :: cs ++ [sep]).splitOn sep =
        [] :: (cs.splitOn sep ++ [[]]) := by
      rw [List.cons_append, ← List.nil_append (sep :: (cs ++ [sep])),
        List.splitOn_append_cons_self, List.splitOn_append_cons_self]
      rfl
    have hMiddle : (before ++ sep :: piece ++ sep :: after).splitOn sep =
        first :: (front ++ piece :: back ++ [last]) := by
      rw [List.splitOn_append_cons_self, List.splitOn_append_cons_self, hBefore, hAlone, hAfter]
      simp
    rw [hText, hMiddle] at hEnds
    have hPieces := List.append_inj_left' (List.cons.inj hEnds).2 rfl
    rw [← hPieces]
    exact List.mem_append_right front List.mem_cons_self

/-- The piece holds no separator and stands between two of them, where either end of the text counts
as one. -/
def IsPiece (sep : Char) (s piece : String) : Prop :=
  sep ∉ piece.toList ∧ ∃ before after,
    sep :: s.toList ++ [sep] = before ++ sep :: piece.toList ++ sep :: after

theorem mem_split_iff (sep : Char) (s piece : String) :
    piece ∈ split sep s ↔ IsPiece sep s piece := by
  rw [IsPiece, ← mem_splitOn_iff, split, List.mem_map]
  constructor
  · rintro ⟨cs, hcs, rfl⟩
    rwa [String.toList_ofList]
  · intro h
    exact ⟨piece.toList, h, String.ofList_toList⟩

theorem not_mem_of_mem_split {sep : Char} {s piece : String} (h : piece ∈ split sep s) :
    sep ∉ piece.toList := by
  obtain ⟨cs, hcs, rfl⟩ := List.mem_map.mp h
  rw [String.toList_ofList]
  exact not_mem_of_mem_splitOn hcs

/-- Pieces are read back exactly when the separator does not occur in them. -/
theorem split_join_eq_iff {sep : Char} {pieces : List String} (hSome : pieces ≠ []) :
    split sep (join (.singleton sep) pieces) = pieces ↔ ∀ piece ∈ pieces, sep ∉ piece.toList := by
  constructor
  · intro h piece hPiece
    rw [← h] at hPiece
    exact not_mem_of_mem_split hPiece
  · intro hFree
    have hChars : ∀ cs ∈ pieces.map String.toList, sep ∉ cs := by
      simpa using hFree
    have hCut : ([sep].intercalate (pieces.map String.toList)).splitOn sep =
        pieces.map String.toList :=
      List.splitOn_intercalate sep hChars (by simpa using hSome)
    rw [split, toList_join, String.toList_singleton, hCut, List.map_map]
    simp

theorem join_cons (sep first : String) (rest : List String) :
    join sep (first :: rest) = first ++ String.join (rest.map (sep ++ ·)) := by
  induction rest generalizing first with
  | nil => simp [join]
  | cons next rest ih =>
    have hNext : join sep (first :: next :: rest) = first ++ sep ++ join sep (next :: rest) := by
      apply String.toList_inj.mp
      simp
    rw [hNext, ih, List.map_cons, String.join_cons, String.append_assoc, String.append_assoc]

/-- A character of a joined text that is none of the separator is one of a piece. -/
theorem mem_join_iff {sep : String} {c : Char} (h : c ∉ sep.toList) (pieces : List String) :
    c ∈ (join sep pieces).toList ↔ ∃ piece ∈ pieces, c ∈ piece.toList := by
  induction pieces with
  | nil => simp [join]
  | cons piece pieces ih =>
    cases pieces with
    | nil => simp
    | cons next rest =>
      rw [toList_join] at ih ⊢
      rw [List.map_cons, List.intercalate_cons_of_ne_nil (by simp), List.mem_append,
        List.mem_append, ih, List.exists_mem_cons_iff]
      simp [h]

/-- The empty text is what one empty piece is joined to, and no piece at all. -/
theorem join_eq_empty_iff {sep : Char} {pieces : List String} :
    join (.singleton sep) pieces = "" ↔ pieces = [] ∨ pieces = [""] := by
  constructor
  · intro h
    have hChars : [sep].intercalate (pieces.map String.toList) = [] := by
      simpa using congrArg String.toList h
    match pieces with
    | [] => exact .inl rfl
    | [piece] => exact .inr (by simpa using hChars)
    | _ :: _ :: _ => simp at hChars
  · rintro (rfl | rfl) <;> rfl

/-- The pieces of a joined text; the empty text has none. -/
def readList (sep : Char) (s : String) : List String :=
  if s = "" then [] else split sep s

theorem not_mem_of_mem_readList {sep : Char} {s piece : String} (h : piece ∈ readList sep s) :
    sep ∉ piece.toList := by
  rw [readList] at h
  split at h
  · cases h
  · exact not_mem_of_mem_split h

theorem readList_join_eq_iff (sep : Char) (pieces : List String) :
    readList sep (join (.singleton sep) pieces) = pieces ↔
      (∀ piece ∈ pieces, sep ∉ piece.toList) ∧ pieces ≠ [""] := by
  rw [readList]
  split
  · rename_i hEmpty
    obtain rfl | rfl := join_eq_empty_iff.mp hEmpty <;> simp
  · rename_i hText
    obtain ⟨hSome, hOther⟩ := not_or.mp (mt join_eq_empty_iff.mpr hText)
    rw [split_join_eq_iff hSome]
    exact (and_iff_left hOther).symm

end TargetCatalog.Text
