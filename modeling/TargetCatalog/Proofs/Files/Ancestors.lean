import Mathlib.Data.List.Chain
import Mathlib.Data.List.Infix
import TargetCatalog.Files.Path
import TargetCatalog.Proofs.Text.Separator

/-!
# The paths above a path

The parent of a path is a start of its text, and has one component less. So the paths above a path
are those of the shorter starts of its components, down to the root or the empty path.
-/

namespace TargetCatalog.Path

open Text

section Texts

theorem toList_toString (p : Path) : p.toString.toList =
    (if p.absolute then [separator] else []) ++
      [separator].intercalate (p.pieces.map String.toList) := by
  rw [toString, String.toList_append, toList_join, String.toList_singleton]
  cases p.absolute <;> rfl

theorem toString_ofString (s : String) : (ofString s).toString = s := by
  rw [ofString]
  split
  · rename_i rest hRest
    apply String.toList_inj.mp
    rw [toString, join_split, hRest]
    simp
  · rw [toString, join_split, String.ofList_toList]
    simp

theorem separator_notMem_pieces_ofString (s : String) :
    ∀ piece ∈ (ofString s).pieces, separator ∉ piece.toList := by
  intro piece hPiece
  rw [ofString] at hPiece
  split at hPiece
  · exact not_mem_of_mem_split hPiece
  · exact not_mem_of_mem_split hPiece

theorem ofString_of_head_ne {s : String} (h : s.toList.head? ≠ some separator) :
    ofString s = ⟨false, split separator s⟩ := by
  rw [ofString]
  split
  · rename_i rest hRest
    rw [hRest] at h
    exact absurd rfl h
  · rw [String.ofList_toList]

theorem absolute_ofString_of_head {s : String} (h : s.toList.head? = some separator) :
    (ofString s).absolute = true := by
  obtain ⟨rest, hRest⟩ := List.head?_eq_some_iff.mp h
  rw [ofString, hRest]
  rfl

/-- A relative path without components has no text. -/
theorem eq_empty_of_components_eq_nil {s : String} (h : (ofString s).components = [])
    (hRelative : (ofString s).absolute = false) : s = "" := by
  have hHead : s.toList.head? ≠ some separator := by
    intro hRoot
    rw [absolute_ofString_of_head hRoot] at hRelative
    cases hRelative
  rw [ofString_of_head_ne hHead] at h
  cases hText : s.toList with
  | nil => exact String.toList_eq_nil_iff.mp hText
  | cons c cs =>
    have hFirst : c ≠ separator := by simpa [hText] using hHead
    obtain ⟨piece, pieces, hPieces⟩ :=
      List.exists_cons_of_ne_nil (List.splitOn_ne_nil separator cs)
    have hChars : s.toList.splitOn separator = (c :: piece) :: pieces := by
      rw [hText, List.splitOn_cons_eq_if_modifyHead, if_neg (by simpa using hFirst), hPieces]
      rfl
    simp [components, split, hChars, significant, isComponent] at h

/-- The text of a directory with a name behind it: a separator is put between the two unless the
directory ends in one or has no text. -/
def joinedText (directory name : String) : String :=
  if directory.toList.getLast?.all (· = separator) then directory ++ name
  else directory ++ .singleton separator ++ name

theorem toList_joinedText (directory name : String) : (joinedText directory name).toList =
    if directory.toList.getLast?.all (· = separator) then directory.toList ++ name.toList
    else directory.toList ++ separator :: name.toList := by
  rw [joinedText]
  split
  · rw [String.toList_append]
  · simp

/-- What stands in front of the last piece is empty or ends in a separator. -/
theorem exists_lead (absolute : Bool) (front : List (List Char)) : ∃ lead : List Char,
    lead.getLast?.all (· = separator) = true ∧ ∀ last,
      (if absolute then [separator] else []) ++ [separator].intercalate (front ++ [last]) =
        lead ++ last := by
  rcases eq_or_ne front [] with rfl | hFront
  · refine ⟨if absolute then [separator] else [], ?_, fun last => ?_⟩
    · cases absolute <;> rfl
    · rw [List.nil_append, List.intercalate_singleton]
  · refine ⟨(if absolute then [separator] else []) ++ [separator].intercalate front ++
      [separator], by simp, fun last => ?_⟩
    rw [intercalate_append hFront (List.cons_ne_nil last []), List.intercalate_singleton]
    simp

theorem toString_child {p : Path} (h : ∀ piece ∈ p.pieces, separator ∉ piece.toList)
    (name : String) : (p.child name).toString = joinedText p.toString name := by
  apply String.toList_inj.mp
  rw [toList_joinedText]
  obtain hNil | ⟨front, last, hPieces⟩ := List.eq_nil_or_concat' p.pieces
  · rw [toList_toString, toList_toString, child, hNil]
    cases p.absolute <;> simp
  obtain ⟨lead, hOpen, hLead⟩ := exists_lead p.absolute (front.map String.toList)
  have hText : p.toString.toList = lead ++ last.toList := by
    rw [toList_toString, hPieces, List.map_append, List.map_singleton, hLead]
  rw [hText]
  by_cases hLast : last = ""
  · have hChild : p.child name = { p with pieces := front ++ [name] } := by
      rw [child, hPieces, hLast, if_pos (by simp), List.dropLast_concat]
    rw [hChild, hLast, String.toList_empty, List.append_nil, if_pos hOpen, toList_toString,
      List.map_append, List.map_singleton, hLead]
  · have hChild : p.child name = { p with pieces := p.pieces ++ [name] } := by
      rw [child, hPieces, if_neg (by simpa using hLast)]
    have hClosed : ¬ (lead ++ last.toList).getLast?.all (· = separator) = true := by
      obtain ⟨cs, c, hc⟩ := (List.eq_nil_or_concat' last.toList).resolve_left
        (mt String.toList_eq_nil_iff.mp hLast)
      have hNe : c ≠ separator := by
        rintro rfl
        exact h last (by simp [hPieces]) (by simp [hc])
      rw [hc, ← List.append_assoc, List.getLast?_concat]
      simpa using hNe
    have hSome : p.pieces.map String.toList ≠ [] := by simp [hPieces]
    rw [hChild, if_neg hClosed, ← hText, toList_toString, toList_toString, List.map_append,
      List.map_singleton, intercalate_append hSome (List.cons_ne_nil _ []),
      List.intercalate_singleton]
    simp

end Texts

section Ancestors

theorem components_eq_nil_iff (p : Path) : p.components = [] ↔ p.parent? = none := by
  cases hTrim : trimEnd (!p.absolute) p.pieces with
  | nil =>
    have hNone : p.components = [] := by
      rw [components, ← significant_trimEnd, hTrim]
      rfl
    refine iff_of_true hNone ?_
    rw [parent?, hTrim]
  | cons piece rest =>
    refine iff_of_false ?_ ?_
    · exact significant_ne_nil _ (by simp [hTrim])
    · rw [parent?, hTrim]
      exact Option.some_ne_none _

theorem components_ne_nil_of_parent? {p parent : Path} (h : p.parent? = some parent) :
    p.components ≠ [] := by
  rw [Ne, components_eq_nil_iff, h]
  exact Option.some_ne_none parent

/-- A parent has fewer pieces, so that what holds at the top and is passed down holds everywhere. -/
@[elab_as_elim]
theorem parent_induction {holds : Path → Prop} (p : Path)
    (top : ∀ p, p.parent? = none → holds p)
    (below : ∀ p parent, p.parent? = some parent → holds parent → holds p) : holds p := by
  induction p using (measure fun p : Path => p.pieces.length).wf.induction with
  | h p ih =>
    cases hParent : p.parent? with
    | none => exact top p hParent
    | some parent => exact below p parent hParent (ih parent (length_pieces_parent? hParent))

theorem ancestors_of_root {p : Path} (h : p.parent? = none) : p.ancestors = [p] := by
  rw [ancestors]
  split
  · rfl
  · simp_all

theorem ancestors_of_parent {p parent : Path} (h : p.parent? = some parent) :
    p.ancestors = p :: parent.ancestors := by
  rw [ancestors]
  split
  · simp_all
  · simp_all

/-- From a path upwards one component less is left at a time, until there is none. -/
theorem map_components_ancestors (p : Path) :
    p.ancestors.map components = p.components.inits.reverse := by
  induction p using parent_induction with
  | top p hRoot =>
    rw [ancestors_of_root hRoot, List.map_singleton, (components_eq_nil_iff p).mpr hRoot]
    rfl
  | below p parent hParent ih =>
    have hNe := components_ne_nil_of_parent? hParent
    have hInits : p.components.inits = p.components.dropLast.inits ++ [p.components] := by
      conv_lhs => rw [← List.dropLast_concat_getLast hNe, List.inits_append]
      simp [List.dropLast_concat_getLast hNe]
    rw [ancestors_of_parent hParent, List.map_cons, ih, components_parent? hParent, hInits,
      List.reverse_append]
    rfl

theorem trimEnd_prefix_self (keepDot : Bool) (pieces : List String) :
    trimEnd keepDot pieces <+: pieces := by
  induction pieces generalizing keepDot with
  | nil => exact List.prefix_rfl
  | cons piece rest ih =>
    have hTail := ih false
    rw [trimEnd]
    split
    · split
      · exact (List.prefix_cons_inj piece).mpr List.nil_prefix
      · exact List.nil_prefix
    · rename_i next more hTrim
      rw [hTrim] at hTail
      exact (List.prefix_cons_inj piece).mpr hTail

variable {p q : Path}

theorem getLast?_trimEnd (keepDot : Bool) (pieces : List String) :
    (trimEnd keepDot pieces).getLast? = (significant keepDot pieces).getLast? := by
  induction pieces generalizing keepDot with
  | nil => rfl
  | cons piece rest ih =>
    have hTail := ih false
    rw [trimEnd]
    split
    · rename_i hTrim
      rw [hTrim] at hTail
      have hNone : significant false rest = [] := List.getLast?_eq_none_iff.mp hTail.symm
      cases hCounts : isComponent keepDot piece <;> simp [significant, hCounts, hNone]
    · rename_i next more hTrim
      rw [hTrim] at hTail
      obtain ⟨name, names, hNames⟩ : ∃ name names, significant false rest = name :: names := by
        refine List.exists_cons_of_ne_nil fun hNone => ?_
        rw [hNone] at hTail
        simp at hTail
      rw [List.getLast?_cons_cons, hTail]
      cases hCounts : isComponent keepDot piece <;> simp [significant, hCounts, hNames]

/-- A path loses its last component. What is left of the text is a start of it, and ends in the
component before, if there is one. -/
structure IsParent (p q : Path) : Prop where
  parent? : p.parent? = some q
  absolute : q.absolute = p.absolute
  text : q.toString.toList <+: p.toString.toList
  components : q.components = p.components.dropLast
  last : q.pieces.getLast? = q.components.getLast?
  fewer : q.components.length < p.components.length

theorem pieces_prefix_of_parent? (h : p.parent? = some q) :
    q.absolute = p.absolute ∧ q.pieces <+: p.pieces := by
  rw [Path.parent?] at h
  split at h
  · cases h
  · rename_i piece rest hTrim
    cases h
    have hWhole : piece :: rest <+: p.pieces := hTrim ▸ trimEnd_prefix_self (!p.absolute) p.pieces
    exact ⟨rfl, (trimEnd_prefix_self _ _).trans ((List.dropLast_prefix _).trans hWhole)⟩

theorem getLast?_of_parent? (h : p.parent? = some q) :
    q.pieces.getLast? = q.components.getLast? := by
  rw [Path.parent?] at h
  split at h
  · cases h
  · cases h
    rw [components, significant_trimEnd, getLast?_trimEnd]

theorem isParent_of_parent? (h : p.parent? = some q) : IsParent p q := by
  obtain ⟨hAbsolute, hPieces⟩ := pieces_prefix_of_parent? h
  have hComponents := components_parent? h
  refine ⟨h, hAbsolute, ?_, hComponents, getLast?_of_parent? h, ?_⟩
  · rw [toList_toString, toList_toString, hAbsolute]
    exact (List.prefix_append_right_inj _).mpr
      (intercalate_prefix_intercalate (hPieces.map String.toList))
  · have hLength := List.length_pos_of_ne_nil (components_ne_nil_of_parent? h)
    rw [hComponents, List.length_dropLast]
    omega

theorem exists_ancestors_eq_cons (p : Path) : ∃ above, p.ancestors = p :: above := by
  rw [ancestors]
  exact ⟨_, rfl⟩

theorem isChain_ancestors (p : Path) : p.ancestors.IsChain IsParent := by
  induction p using parent_induction with
  | top p hRoot =>
    rw [ancestors_of_root hRoot]
    exact .singleton p
  | below p parent hParent hAbove =>
    obtain ⟨above, hEq⟩ := exists_ancestors_eq_cons parent
    rw [hEq] at hAbove
    rw [ancestors_of_parent hParent, hEq]
    exact .cons_cons (isParent_of_parent? hParent) hAbove

theorem length_ancestors (p : Path) : p.ancestors.length = p.components.length + 1 := by
  rw [← List.length_map components, map_components_ancestors]
  simp

/-- What a path passes on to its parent holds of every path above. -/
theorem forall_mem_ancestors {holds : Path → Prop}
    (hStep : ∀ p q, IsParent p q → holds p → holds q) (h : holds p) :
    ∀ q ∈ p.ancestors, holds q := by
  refine (isChain_ancestors p).induction holds _ (fun x y => hStep x y) fun _ => ?_
  obtain ⟨above, hEq⟩ := exists_ancestors_eq_cons p
  simpa [hEq] using h

theorem pieces_eq_nil_of_parent? (h : p.parent? = some q) (hComponents : q.components = []) :
    q.pieces = [] := by
  rw [Path.parent?] at h
  split at h
  · cases h
  · cases h
    rw [components, significant_trimEnd] at hComponents
    by_contra hPieces
    exact significant_ne_nil _ hPieces hComponents

/-- The way up ends where no component is left. Unless that is where it starts, no piece is left. -/
theorem exists_top (p : Path) : ∃ top, p.ancestors.getLast? = some top ∧ top.components = [] ∧
    top.absolute = p.absolute ∧ (top = p ∨ top.pieces = []) := by
  obtain ⟨above, hAncestors⟩ := exists_ancestors_eq_cons p
  obtain ⟨top, hTop⟩ : ∃ top, p.ancestors.getLast? = some top :=
    ⟨_, by rw [hAncestors]; exact List.getLast?_cons⟩
  have hLast : (p.ancestors.map components).getLast? = some [] := by
    rw [map_components_ancestors, List.getLast?_reverse]
    cases p.components <;> rfl
  have hComponents : top.components = [] := by simpa [hTop] using hLast
  have hKept : ∀ q ∈ p.ancestors,
      q.absolute = p.absolute ∧ (q = p ∨ (q.components = [] → q.pieces = [])) := by
    refine forall_mem_ancestors (fun x y hParent hx => ?_) ⟨rfl, .inl rfl⟩
    exact ⟨hParent.absolute.trans hx.1, .inr (pieces_eq_nil_of_parent? hParent.parent?)⟩
  obtain ⟨hAbsolute, hPieces⟩ := hKept top (List.mem_of_getLast? hTop)
  exact ⟨top, hTop, hComponents, hAbsolute, hPieces.imp_right fun h => h hComponents⟩

/-- The way up from a path ends at the root or the empty path. -/
theorem toString_top {s : String} {top : Path} (hComponents : top.components = [])
    (hAbsolute : top.absolute = (ofString s).absolute)
    (hPieces : top = ofString s ∨ top.pieces = []) :
    top.toString = (if (ofString s).absolute then "/" else "") ∨
      (ofString s).absolute = true ∧ top = ofString s := by
  obtain rfl | hPieces := hPieces
  · cases hRoot : (ofString s).absolute with
    | true => exact .inr ⟨rfl, rfl⟩
    | false =>
      rw [toString_ofString]
      exact .inl (eq_empty_of_components_eq_nil hComponents hRoot)
  · left
    rw [toString, hPieces, ← hAbsolute, join, List.map_nil, List.intercalate_nil, String.ofList_nil,
      String.append_empty]

theorem separator_notMem_of_mem_ancestors (s : String) :
    ∀ q ∈ (ofString s).ancestors, ∀ piece ∈ q.pieces, separator ∉ piece.toList := by
  refine forall_mem_ancestors (fun x y hParent hx piece hPiece => ?_)
    (separator_notMem_pieces_ofString s)
  exact hx piece ((pieces_prefix_of_parent? hParent.parent?).2.subset hPiece)

end Ancestors

end TargetCatalog.Path
