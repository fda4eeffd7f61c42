import TargetCatalog.Json.Printer
import TargetCatalog.Registry.Basic

/-!
# Queries

The three questions that a build script asks of a finished registry, with the set of architectures
that are available as the script lists them, and the two forms in which the answers are passed on: a
line of separated fields, and compact JSON.
-/

namespace TargetCatalog

structure ArchSet where
  names : List String
  deriving Repr, DecidableEq, Inhabited

namespace ArchSet

def ofNames (names : List String) : ArchSet :=
  ⟨names.eraseDups⟩

/-- Stands between the names of a set that is written as text. -/
def separator : Char := ';'

/-- The set of the names that stand in a text; names are trimmed, and empty ones do not count. -/
def parse (s : String) : ArchSet :=
  ofNames (((Text.split separator s).map Text.trim).filter (· ≠ ""))

def contains (s : ArchSet) (name : String) : Bool :=
  s.names.contains name

def size (s : ArchSet) : Nat :=
  s.names.length

def isEmpty (s : ArchSet) : Bool :=
  s.names.isEmpty

theorem contains_ofNames (names : List String) (name : String) :
    (ofNames names).contains name = true ↔ name ∈ names := by
  simp [ofNames, contains]

end ArchSet

/-- An architecture that a compiler can build for, and the flags it needs. -/
structure ArchFlags where
  arch : String
  flags : List String
  deriving Repr, DecidableEq, Inhabited

namespace Registry

def archFlags (r : Registry) (compiler : CompilerId) : List ArchFlags :=
  (r.archs.archs.filter (·.supports compiler)).map fun a => ⟨a.name, a.flags compiler⟩

/-- The names of the machines that have only available members, in catalogue order. -/
def machinesMatching (r : Registry) (available : ArchSet) : List String :=
  (r.machines.machines.filter fun m => m.archs.all available.contains).map (·.name)

/-- The flags that a compiler needs for the members of a machine, member after member. -/
def machineFlags (r : Registry) (compiler : CompilerId) (machine : String) :
    Except RegistryError (List String) :=
  match r.members? machine with
  | some members => .ok (members.flatMap (·.flags compiler))
  | none => .error (.machineNotFound machine)

end Registry

inductive Answer where
  | archFlags (records : List ArchFlags)
  | machines (names : List String)
  | flags (names : List String)
  deriving Repr, DecidableEq

/-- Stands between the items of a list. -/
def listSeparator : String := ";"

/-- Stands between an architecture and its flags. -/
def fieldSeparator : String := ","

/-- Stands between the flags of a machine. -/
def flagSeparator : String := " "

namespace ArchFlags

def fields (record : ArchFlags) : List String :=
  record.arch :: record.flags

def text (record : ArchFlags) : String :=
  Text.join fieldSeparator record.fields

def toDatum (record : ArchFlags) : Datum :=
  .record [("arch", .text record.arch), ("flags", .ofTexts record.flags)]

end ArchFlags

namespace Answer

def text : Answer → String
  | archFlags records => Text.join listSeparator (records.map ArchFlags.text)
  | machines names => Text.join listSeparator names
  | flags names => Text.join flagSeparator names

def toDatum : Answer → Datum
  | archFlags records => .list (records.map ArchFlags.toDatum)
  | machines names => .ofTexts names
  | flags names => .ofTexts names

def json (a : Answer) : String :=
  Json.render a.toDatum

end Answer

end TargetCatalog
