import TargetCatalog.Machine.Catalogue

/-!
# Registries

A registry is built in a first phase, in which architectures and machines are declared in any order,
as long as a machine comes after its members, and only answers questions in a second. The steps of
the first phase are values themselves, so that a whole run can be spoken of; a step that fails
leaves everything as it was.
-/

namespace TargetCatalog

structure Registry where
  archs : ArchCatalogue
  machines : MachineCatalogue
  deriving Repr, DecidableEq, Inhabited

namespace Registry

def arch? (r : Registry) (name : String) : Option Architecture :=
  r.archs.find? name

def machine? (r : Registry) (name : String) : Option Machine :=
  r.machines.find? name

/-- The member architectures of the machine with a name, in declared order. -/
def members? (r : Registry) (name : String) : Option (List Architecture) :=
  (r.machine? name).map fun m => m.members.filterMap r.archs.get?

end Registry

structure RegistryBuilder where
  archs : ArchCatalogue := .empty
  machines : MachineCatalogue := .empty
  deriving Repr, DecidableEq, Inhabited

inductive BuildStep where
  | arch (declaration : ArchDef)
  | machine (name : String) (entries : List String)
  deriving Repr, DecidableEq

inductive Added where
  | arch (index : ArchIndex)
  | machines (machines : List Machine)
  deriving Repr, DecidableEq

namespace RegistryBuilder

def empty : RegistryBuilder :=
  {}

def registerArch (d : ArchDef) : Registration RegistryBuilder ArchIndex := fun b =>
  match (ArchCatalogue.register d).run b.archs with
  | .ok index archs => .ok index { b with archs := archs }
  | .error e archs => .error e { b with archs := archs }

def registerMachine (name : String) (entries : List String) :
    Registration RegistryBuilder (List Machine) := fun b =>
  match (MachineCatalogue.register b.archs name entries).run b.machines with
  | .ok added machines => .ok added { b with machines := machines }
  | .error e machines => .error e { b with machines := machines }

def finish (b : RegistryBuilder) : Registry :=
  ⟨b.archs, b.machines⟩

def attempt : BuildStep → Registration RegistryBuilder Added
  | .arch d => return .arch (← registerArch d)
  | .machine name entries => return .machines (← registerMachine name entries)

def step (b : RegistryBuilder) (s : BuildStep) : Except RegistryError Added × RegistryBuilder :=
  match (attempt s).run b with
  | .ok added after => (.ok added, after)
  | .error e after => (.error e, after)

/-- The outcomes of a run of steps, and the builder after it. -/
def run (b : RegistryBuilder) : List BuildStep → List (Except RegistryError Added) × RegistryBuilder
  | [] => ([], b)
  | s :: rest =>
    let (outcome, after) := b.step s
    let (outcomes, last) := run after rest
    (outcome :: outcomes, last)

/-- Takes the steps one after the other, up to the first that is refused. -/
def runAll (steps : List BuildStep) : Registration RegistryBuilder Unit :=
  steps.forM fun s => discard (attempt s)

end RegistryBuilder

end TargetCatalog
