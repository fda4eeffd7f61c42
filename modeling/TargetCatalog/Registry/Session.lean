import TargetCatalog.Registry.Basic

/-!
# Sessions

Several catalogues of either kind, side by side and numbered. A machine may be resolved against any
of the catalogues of architectures.
-/

namespace TargetCatalog

structure Session where
  archs : Nat → ArchCatalogue
  machines : Nat → MachineCatalogue

inductive SessionStep where
  | arch (archs : Nat) (declaration : ArchDef)
  | machine (machines archs : Nat) (name : String) (entries : List String)
  deriving Repr, DecidableEq

namespace Session

def empty : Session :=
  ⟨fun _ => .empty, fun _ => .empty⟩

def setArchs (s : Session) (k : Nat) (c : ArchCatalogue) : Session :=
  { s with archs := fun n => if n = k then c else s.archs n }

def setMachines (s : Session) (k : Nat) (c : MachineCatalogue) : Session :=
  { s with machines := fun n => if n = k then c else s.machines n }

def step (s : Session) : SessionStep → Except RegistryError Added × Session
  | .arch archs d =>
    match (ArchCatalogue.register d).run (s.archs archs) with
    | .ok index after => (.ok (.arch index), s.setArchs archs after)
    | .error e after => (.error e, s.setArchs archs after)
  | .machine machines archs name entries =>
    match (MachineCatalogue.register (s.archs archs) name entries).run (s.machines machines) with
    | .ok added after => (.ok (.machines added), s.setMachines machines after)
    | .error e after => (.error e, s.setMachines machines after)

def run (s : Session) (steps : List SessionStep) : Session :=
  steps.foldl (fun s step => (s.step step).2) s

end Session

end TargetCatalog
