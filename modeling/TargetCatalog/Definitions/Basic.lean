import TargetCatalog.Registry.Basic

/-!
# Definitions

What a definitions file declares: architectures and machines, each in the order of the file. The
members of a machine are listed one by one, or written as words in a single string.
-/

namespace TargetCatalog

inductive MemberList where
  | list (entries : List String)
  | words (text : String)
  deriving Repr, DecidableEq

instance : Inhabited MemberList :=
  ⟨.list []⟩

def MemberList.entries : MemberList → List String
  | list entries => entries
  | words text => Text.words text

structure MachineDef where
  name : String
  archs : MemberList := .list []
  deriving Repr, DecidableEq, Inhabited

structure Definitions where
  archs : List ArchDef := []
  machines : List MachineDef := []
  deriving Repr, DecidableEq, Inhabited

namespace Definitions

/-- The steps that register every architecture and then every machine. -/
def steps (d : Definitions) : List BuildStep :=
  d.archs.map .arch ++ d.machines.map fun m => .machine m.name m.archs.entries

def toRegistry (d : Definitions) : Except RegistryError Registry :=
  match (RegistryBuilder.runAll d.steps).run .empty with
  | .ok _ builder => .ok builder.finish
  | .error e _ => .error e

end Definitions

end TargetCatalog
