import TargetCatalog.Arch.Catalogue
import TargetCatalog.Machine.Expansion

/-!
# The catalogue of machines

A machine is a target with a fixed list of member architectures. A declaration is registered as a
whole: either every machine it expands to is resolved against the architectures and appended, or
nothing is.
-/

namespace TargetCatalog

structure Machine where
  name : String
  archs : List String
  members : List ArchIndex
  /-- The largest alignment of a member; one if there is no member. -/
  alignment : UInt32
  deriving Repr, DecidableEq, Inhabited

namespace MachineVariant

def resolveMembers (machine : String) (archs : ArchCatalogue) :
    List String → Except RegistryError (List ArchIndex)
  | [] => .ok []
  | name :: rest =>
    match archs.lookup name with
    | none => .error (.unknownArch machine name)
    | some index => (resolveMembers machine archs rest).map (index :: ·)

def resolve (v : MachineVariant) (archs : ArchCatalogue) : Except RegistryError Machine := do
  let members ← resolveMembers v.name archs v.archs
  return {
    name := v.name
    archs := v.archs
    members := members
    alignment := (((members.filterMap archs.get?).map (·.alignment)).max?).getD 1
  }

/-- The machines that variants describe; none may have a name that stands in the index, or that an
earlier one of the batch has. -/
def resolveAll (archs : ArchCatalogue) (index : NameIndex) (batch : List String) :
    List MachineVariant → Except RegistryError (List Machine)
  | [] => .ok []
  | v :: rest =>
    if index.contains v.name || batch.contains v.name then .error (.duplicateMachine v.name)
    else do
      let machine ← v.resolve archs
      let machines ← resolveAll archs index (v.name :: batch) rest
      return machine :: machines

end MachineVariant

/-- Machines in the order of their registration, and their positions by name. -/
structure MachineCatalogue where
  machines : List Machine := []
  index : NameIndex := .empty
  deriving Repr, DecidableEq, Inhabited

namespace MachineCatalogue

def empty : MachineCatalogue :=
  {}

def size (c : MachineCatalogue) : Nat :=
  c.machines.length

def isEmpty (c : MachineCatalogue) : Bool :=
  c.machines.isEmpty

def names (c : MachineCatalogue) : List String :=
  c.machines.map (·.name)

def find? (c : MachineCatalogue) (name : String) : Option Machine :=
  (c.index.find? name).bind fun position => c.machines[position]?

def push (c : MachineCatalogue) (m : Machine) : MachineCatalogue where
  machines := c.machines ++ [m]
  index := c.index.insert m.name c.size

/-- Appends the machines that a declaration expands to once all of them are resolved, and gives
them. -/
def register (archs : ArchCatalogue) (name : String) (entries : List String) :
    Registration MachineCatalogue (List Machine) := do
  let c ← get
  let batch ← MonadExcept.ofExcept <|
    MachineVariant.resolveAll archs c.index [] (expand name entries)
  batch.forM fun machine => modify (·.push machine)
  return (← get).machines.drop c.size

end MachineCatalogue

end TargetCatalog
