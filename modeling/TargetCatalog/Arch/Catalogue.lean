import TargetCatalog.Arch.Basic
import TargetCatalog.Registration

/-!
# The catalogue of architectures

Architectures in the order in which they were registered, found by position or, through an index, by
name. Registration only ever appends, so a position once given keeps its meaning.
-/

namespace TargetCatalog

structure ArchIndex where
  position : Nat
  deriving Repr, DecidableEq, Inhabited

/-- Architectures in the order of their registration, and their positions by name. -/
structure ArchCatalogue where
  archs : List Architecture := []
  index : NameIndex := .empty
  deriving Repr, DecidableEq, Inhabited

namespace ArchCatalogue

def empty : ArchCatalogue :=
  {}

def size (c : ArchCatalogue) : Nat :=
  c.archs.length

def isEmpty (c : ArchCatalogue) : Bool :=
  c.archs.isEmpty

def names (c : ArchCatalogue) : List String :=
  c.archs.map (·.name)

def lookup (c : ArchCatalogue) (name : String) : Option ArchIndex :=
  (c.index.find? name).map ArchIndex.mk

def get? (c : ArchCatalogue) (index : ArchIndex) : Option Architecture :=
  c.archs[index.position]?

def find? (c : ArchCatalogue) (name : String) : Option Architecture :=
  (c.lookup name).bind c.get?

def push (c : ArchCatalogue) (arch : Architecture) : ArchCatalogue where
  archs := c.archs ++ [arch]
  index := c.index.insert arch.name c.size

/-- Appends the architecture that a declaration describes, and gives its position. -/
def register (d : ArchDef) : Registration ArchCatalogue ArchIndex := do
  let arch ← MonadExcept.ofExcept d.validate
  let c ← get
  if c.index.contains arch.name then throw (.duplicateArch arch.name)
  set (c.push arch)
  return ⟨c.size⟩

end ArchCatalogue

end TargetCatalog
