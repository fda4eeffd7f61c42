import TargetCatalog.FlagTable
import TargetCatalog.Registration
import TargetCatalog.Text.Lower
import TargetCatalog.Text.Split

/-!
# Architectures

An architecture is a named instruction-set extension with the flags that compilers need for it, the
alignment it asks for, and descriptions of how its presence is tested. `ArchDef` is the record as it
is declared, and `Architecture` the record once it has been found to be in order. A compiler is
known by a name in which case and surrounding white space do not count.
-/

namespace TargetCatalog

/-- The normal form of a compiler's name. -/
structure CompilerId where
  text : String
  deriving Repr, DecidableEq, Inhabited

def CompilerId.ofString (s : String) : CompilerId :=
  ⟨Text.lower (Text.trim s)⟩

theorem CompilerId.text_inj {a b : CompilerId} : a.text = b.text ↔ a = b := by
  cases a
  cases b
  simp

/-- A test for a capability, kept as it is declared. -/
structure Check where
  name : String
  params : List String := []
  deriving Repr, DecidableEq, Inhabited

structure ArchDef where
  name : String := ""
  environment : Option String := none
  header : Option String := none
  alignment : UInt32 := 1
  checks : List Check := []
  flags : FlagTable := .empty
  deriving Repr, DecidableEq, Inhabited

namespace ArchDef

def named (name : String) : ArchDef :=
  { name := name }

def withAlignment (d : ArchDef) (alignment : UInt32) : ArchDef :=
  { d with alignment := alignment }

def withFlags (d : ArchDef) (compiler : String) (flags : List String) : ArchDef :=
  { d with flags := d.flags.append compiler flags }

end ArchDef

/-- An architecture in order: it has a trimmed name and an alignment of at least one, and its flags
are listed under the identifiers of their compilers. -/
structure Architecture where
  name : String
  environment : Option String
  header : Option String
  alignment : UInt32
  checks : List Check
  flagTable : FlagTable
  deriving Repr, DecidableEq, Inhabited

/-- Files flags under the identifiers of their compilers; no compiler may come twice. -/
def normalizeFlags (arch : String) :
    List (String × List String) → FlagTable → Except RegistryError FlagTable
  | [], table => .ok table
  | (key, flags) :: rest, table =>
    let compiler := (CompilerId.ofString key).text
    if table.contains compiler then .error (.duplicateCompiler arch compiler)
    else normalizeFlags arch rest (table.insert compiler flags)

def ArchDef.validate (d : ArchDef) : Except RegistryError Architecture :=
  let name := Text.trim d.name
  if name = "" then .error .missingArchName
  else if d.alignment = 0 then .error (.invalidAlignment name d.alignment)
  else do
    let table ← normalizeFlags name d.flags.entries .empty
    return {
      name := name
      environment := d.environment
      header := d.header
      alignment := d.alignment
      checks := d.checks
      flagTable := table
    }

namespace Architecture

/-- A compiler can build for the architecture: it has flags, or no compiler needs any. -/
def supports (a : Architecture) (compiler : CompilerId) : Bool :=
  a.flagTable.isEmpty || a.flagTable.contains compiler.text

def flags (a : Architecture) (compiler : CompilerId) : List String :=
  (a.flagTable.find? compiler.text).getD []

end Architecture

end TargetCatalog
