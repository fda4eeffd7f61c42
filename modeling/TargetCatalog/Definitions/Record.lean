import TargetCatalog.Datum
import TargetCatalog.Definitions.Basic

/-!
# Definitions as plain data

Each declaration is written as a record that leaves out the fields at their defaults, and read from
a record in which fields may come in any order and unknown ones are passed over, or from the list of
its fields. A compiler is passed by its name. `Architecture` and `Machine` are written as well.
-/

namespace TargetCatalog

/-- A field that is left out where it has no value. -/
def optionalField {α : Type} (name : String) (value : Option α) : List (String × α) :=
  match value with
  | some value => [(name, value)]
  | none => []

def ofOptionalText (value : Option String) : Datum :=
  match value with
  | some value => .text value
  | none => .null

def optionalText? : Datum → Option (Option String)
  | .null => some none
  | .text value => some (some value)
  | _ => none

def alignment? : Datum → Option UInt32
  | .int value => if 0 ≤ value ∧ value < UInt32.size then some (.ofNat value.toNat) else none
  | _ => none

namespace CompilerId

def toDatum (c : CompilerId) : Datum :=
  .text c.text

def ofDatum? (d : Datum) : Option CompilerId :=
  d.text?.map ofString

end CompilerId

def FlagTable.toDatum (t : FlagTable) : Datum :=
  .record (t.entries.map fun (key, flags) => (key, .ofTexts flags))

def FlagTable.ofDatum? : Datum → Option FlagTable
  | .record fields => do
    let entries ← fields.mapM fun (key, value) => (value.texts?).map (key, ·)
    some (.ofList entries)
  | _ => none

namespace Check

def toDatum (c : Check) : Datum :=
  .record [("name", .text c.name), ("params", .ofTexts c.params)]

def ofDatum? (surplus : Surplus) (d : Datum) : Option Check := do
  let fields ← d.fields? surplus ["name", "params"]
  let name ← decodeField fields "name" Datum.text? none
  let params ← decodeField fields "params" Datum.texts? (some [])
  some { name := name, params := params }

end Check

namespace ArchDef

def fieldNames : List String :=
  ["name", "environment", "include", "alignment", "check", "flags"]

/-- The fields of a written architecture. -/
def fields (d : ArchDef) : List (String × Datum) :=
  [("name", .text d.name)] ++
  optionalField "environment" (d.environment.map .text) ++
  optionalField "include" (d.header.map .text) ++
  optionalField "alignment" (if d.alignment = 1 then none else some (.int d.alignment.toNat)) ++
  optionalField "check"
    (if d.checks = [] then none else some (.list (d.checks.map Check.toDatum))) ++
  optionalField "flags" (if d.flags.isEmpty then none else some d.flags.toDatum)

def toDatum (d : ArchDef) : Datum :=
  .record d.fields

def ofDatum? (surplus : Surplus) (d : Datum) : Option ArchDef := do
  let fields ← d.fields? surplus fieldNames
  let name ← decodeField fields "name" Datum.text? (some "")
  let environment ← decodeField fields "environment" optionalText? (some none)
  let header ← decodeField fields "include" optionalText? (some none)
  let alignment ← decodeField fields "alignment" alignment? (some 1)
  let checks ← decodeField fields "check"
    (fun value => value.items? >>= List.mapM (Check.ofDatum? surplus)) (some [])
  let flags ← decodeField fields "flags" FlagTable.ofDatum? (some .empty)
  some {
    name := name
    environment := environment
    header := header
    alignment := alignment
    checks := checks
    flags := flags
  }

end ArchDef

def Architecture.toDatum (a : Architecture) : Datum :=
  .record [
    ("name", .text a.name),
    ("environment", ofOptionalText a.environment),
    ("include", ofOptionalText a.header),
    ("alignment", .int a.alignment.toNat),
    ("checks", .list (a.checks.map Check.toDatum)),
    ("compiler-flags", a.flagTable.toDatum)]

/-- A machine by the names of its members. -/
def Machine.toDatum (m : Machine) : Datum :=
  .record [
    ("name", .text m.name),
    ("archs", .ofTexts m.archs),
    ("alignment", .int m.alignment.toNat)]

namespace MemberList

def toDatum : MemberList → Datum
  | list entries => .ofTexts entries
  | words text => .text text

def ofDatum? : Datum → Option MemberList
  | .text text => some (words text)
  | d => d.texts?.map list

end MemberList

namespace MachineDef

def toDatum (d : MachineDef) : Datum :=
  .record [("name", .text d.name), ("archs", d.archs.toDatum)]

def ofDatum? (surplus : Surplus) (d : Datum) : Option MachineDef := do
  let fields ← d.fields? surplus ["name", "archs"]
  let name ← decodeField fields "name" Datum.text? none
  let archs ← decodeField fields "archs" MemberList.ofDatum? (some (.list []))
  some { name := name, archs := archs }

end MachineDef

namespace Definitions

def toDatum (d : Definitions) : Datum :=
  .record [
    ("arch", .list (d.archs.map ArchDef.toDatum)),
    ("machine", .list (d.machines.map MachineDef.toDatum))]

def ofDatum? (surplus : Surplus) (d : Datum) : Option Definitions := do
  let fields ← d.fields? surplus ["arch", "machine"]
  let archs ← decodeField fields "arch"
    (fun value => value.items? >>= List.mapM (ArchDef.ofDatum? surplus)) (some [])
  let machines ← decodeField fields "machine"
    (fun value => value.items? >>= List.mapM (MachineDef.ofDatum? surplus)) (some [])
  some { archs := archs, machines := machines }

end Definitions

end TargetCatalog
