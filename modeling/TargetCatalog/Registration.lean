/-!
# Registration

What the catalogues have in common. A catalogue keeps its entries in order, and beside them the
position of each by its name, where a name has one position at most: a new one takes the place of
the old. A registration may be refused, and a query may have no answer; each cause has its sentence.
-/

namespace TargetCatalog

/-- Why an architecture or a machine is not registered, or a query has no answer. -/
inductive RegistryError where
  | missingArchName
  | invalidAlignment (arch : String) (alignment : UInt32)
  | duplicateCompiler (arch compiler : String)
  | duplicateArch (name : String)
  | unknownArch (machine arch : String)
  | duplicateMachine (name : String)
  | machineNotFound (name : String)
  deriving Repr, DecidableEq

def RegistryError.message : RegistryError → String
  | missingArchName => "architecture record has no name"
  | invalidAlignment arch alignment =>
    "architecture '" ++ arch ++ "' has invalid alignment " ++
      .ofList (Nat.toDigits 10 alignment.toNat) ++ " (must be >= 1)"
  | duplicateCompiler arch compiler =>
    "architecture '" ++ arch ++ "' lists flags for compiler '" ++ compiler ++ "' more than once"
  | duplicateArch name => "duplicate architecture '" ++ name ++ "'"
  | unknownArch machine arch =>
    "machine '" ++ machine ++ "' references unknown architecture '" ++ arch ++ "'"
  | duplicateMachine name => "duplicate machine '" ++ name ++ "'"
  | machineNotFound name => "machine not found: " ++ name

/-- A registration in a catalogue. If it is refused, what it has changed before stays changed. -/
abbrev Registration (σ α : Type) :=
  EStateM RegistryError σ α

/-- Positions of named entries. -/
structure NameIndex where
  entries : List (String × Nat) := []
  deriving Repr, DecidableEq, Inhabited

namespace NameIndex

def empty : NameIndex :=
  {}

def find? (x : NameIndex) (name : String) : Option Nat :=
  x.entries.lookup name

def contains (x : NameIndex) (name : String) : Bool :=
  (x.find? name).isSome

def insert (x : NameIndex) (name : String) (position : Nat) : NameIndex :=
  ⟨(name, position) :: x.entries.filter (·.1 ≠ name)⟩

@[simp] theorem find?_empty (name : String) : empty.find? name = none := rfl

theorem lookup_filter_ne {n name : String} (h : n ≠ name) (entries : List (String × Nat)) :
    (entries.filter (·.1 ≠ name)).lookup n = entries.lookup n := by
  induction entries with
  | nil => rfl
  | cons entry rest ih =>
    obtain ⟨key, position⟩ := entry
    by_cases hKey : key = name
    · have hn : (n == key) = false := beq_eq_false_iff_ne.mpr (hKey ▸ h)
      rw [List.filter_cons_of_neg (by simpa using hKey), ih, List.lookup_cons, hn]
    · rw [List.filter_cons_of_pos (by simpa using hKey), List.lookup_cons, List.lookup_cons, ih]

theorem find?_insert (x : NameIndex) (name : String) (position : Nat) (n : String) :
    (x.insert name position).find? n = if n = name then some position else x.find? n := by
  by_cases h : n = name
  · simp [find?, insert, h]
  · have hn : (n == name) = false := beq_eq_false_iff_ne.mpr h
    rw [if_neg h, find?, insert, List.lookup_cons, hn]
    exact lookup_filter_ne h x.entries

@[simp] theorem contains_iff (x : NameIndex) (name : String) :
    x.contains name = true ↔ ∃ position, x.find? name = some position :=
  Option.isSome_iff_exists

end NameIndex

end TargetCatalog
