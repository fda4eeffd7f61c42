import TargetCatalog.Text.Split

/-!
# Paths

A path is kept as it is written: whether it starts at the root, and the pieces between its slashes.
Empty pieces and single dots say nothing, except for a dot at the very start of a relative path; the
other pieces are the components. The parent of a path is found in the text alone: it is what is left
when the last component is taken away (`components_parent?`).
-/

namespace TargetCatalog

structure Path where
  absolute : Bool
  pieces : List String
  deriving Repr, DecidableEq, Inhabited

namespace Path

def separator : Char := '/'

def ofString (s : String) : Path :=
  match s.toList with
  | '/' :: rest => ⟨true, Text.split separator (.ofList rest)⟩
  | cs => ⟨false, Text.split separator (.ofList cs)⟩

def toString (p : Path) : String :=
  (if p.absolute then "/" else "") ++ Text.join (.singleton separator) p.pieces

def isEmpty (p : Path) : Bool :=
  !p.absolute && (p.pieces == [] || p.pieces == [""])

def child (p : Path) (name : String) : Path :=
  let stem := if p.pieces.getLast? = some "" then p.pieces.dropLast else p.pieces
  { p with pieces := stem ++ [name] }

/-- A piece that is a component; a dot is one only where `keepDot` allows it. -/
def isComponent (keepDot : Bool) (piece : String) : Bool :=
  piece != "" && (keepDot || piece != ".")

/-- The pieces that are components; only the first may be a dot, if `keepDot` allows it. -/
def significant (keepDot : Bool) : List String → List String
  | [] => []
  | piece :: rest =>
    if isComponent keepDot piece then piece :: significant false rest else significant false rest

def components (p : Path) : List String :=
  significant (!p.absolute) p.pieces

/-- The pieces up to the last component. -/
def trimEnd (keepDot : Bool) : List String → List String
  | [] => []
  | piece :: rest =>
    match trimEnd false rest with
    | [] => if isComponent keepDot piece then [piece] else []
    | next :: rest => piece :: next :: rest

theorem length_trimEnd_le (keepDot : Bool) (pieces : List String) :
    (trimEnd keepDot pieces).length ≤ pieces.length := by
  induction pieces generalizing keepDot with
  | nil => simp [trimEnd]
  | cons piece rest ih =>
    have h := ih false
    simp only [trimEnd]
    split
    · split <;> simp
    · rename_i next tail eq
      rw [eq] at h
      simpa using h

def parent? (p : Path) : Option Path :=
  match trimEnd (!p.absolute) p.pieces with
  | [] => none
  | piece :: rest => some { p with pieces := trimEnd (!p.absolute) (piece :: rest).dropLast }

theorem significant_trimEnd (keepDot : Bool) (pieces : List String) :
    significant keepDot (trimEnd keepDot pieces) = significant keepDot pieces := by
  induction pieces generalizing keepDot with
  | nil => rfl
  | cons piece rest ih =>
    have tail := ih false
    simp only [trimEnd]
    split
    · rename_i eq
      rw [eq] at tail
      have none_left : significant false rest = [] := tail.symm
      cases counts : isComponent keepDot piece <;> simp [significant, counts, none_left]
    · rename_i next more eq
      rw [eq] at tail
      simp only [significant.eq_def keepDot, tail]

theorem significant_ne_nil (keepDot : Bool) {pieces : List String}
    (h : trimEnd keepDot pieces ≠ []) : significant keepDot pieces ≠ [] := by
  induction pieces generalizing keepDot with
  | nil => exact absurd rfl h
  | cons piece rest ih =>
    simp only [trimEnd] at h
    split at h
    · cases counts : isComponent keepDot piece <;> simp [significant, counts] at h ⊢
    · rename_i next more eq
      have inner := ih false (eq ▸ List.cons_ne_nil next more)
      cases counts : isComponent keepDot piece <;> simp [significant, counts, inner]

theorem significant_dropLast (keepDot : Bool) (pieces : List String) :
    significant keepDot (trimEnd keepDot pieces).dropLast =
      (significant keepDot pieces).dropLast := by
  induction pieces generalizing keepDot with
  | nil => rfl
  | cons piece rest ih =>
    have tail := ih false
    have kept := significant_trimEnd false rest
    simp only [trimEnd]
    split
    · rename_i eq
      rw [eq] at kept
      have none_left : significant false rest = [] := kept.symm
      cases counts : isComponent keepDot piece <;> simp [significant, counts, none_left]
    · rename_i next more eq
      have inner := significant_ne_nil false (eq ▸ List.cons_ne_nil next more)
      rw [eq] at tail
      rw [List.dropLast_cons_of_ne_nil (List.cons_ne_nil next more)]
      simp only [significant.eq_def keepDot, tail]
      cases counts : isComponent keepDot piece
      · rfl
      · exact (List.dropLast_cons_of_ne_nil inner).symm

theorem length_pieces_parent? {p q : Path} (h : p.parent? = some q) :
    q.pieces.length < p.pieces.length := by
  simp only [parent?] at h
  split at h
  · cases h
  · rename_i piece rest eq
    have shorter := length_trimEnd_le (!p.absolute) p.pieces
    have trimmed := length_trimEnd_le (!p.absolute) (piece :: rest).dropLast
    rw [eq] at shorter
    simp only [Option.some.injEq] at h
    subst h
    simp only [List.length_dropLast, List.length_cons] at shorter trimmed ⊢
    omega

theorem components_parent? {p q : Path} (h : p.parent? = some q) :
    q.components = p.components.dropLast := by
  simp only [parent?] at h
  split at h
  · cases h
  · rename_i piece rest eq
    simp only [Option.some.injEq] at h
    subst h
    simp only [components, significant_trimEnd]
    rw [← eq, significant_dropLast]

/-- A path, its parent, the parent of that, and so on. -/
def ancestors (p : Path) : List Path :=
  p :: match _h : p.parent? with
    | none => []
    | some parent => ancestors parent
termination_by p.pieces.length
decreasing_by exact length_pieces_parent? _h

end Path

end TargetCatalog
