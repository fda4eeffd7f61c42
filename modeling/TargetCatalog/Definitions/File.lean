import TargetCatalog.Definitions.Record
import TargetCatalog.Files.Access
import TargetCatalog.Toml.Reader
import TargetCatalog.Toml.Writer

/-!
# Definitions files

Definitions as TOML text: every architecture and every machine is a table of its own, the checks of
an architecture are tables below it, and its flags are one more. A definitions file is searched for
by name in a directory and in every directory above it, going by the text of the path. Loading tells
a file that is not there from one that cannot be read and from one that holds no definitions.
-/

namespace TargetCatalog

open Toml

def Check.settings (c : Check) : List (String × Setting) :=
  [("name", .text c.name), ("params", .texts c.params)]

namespace ArchDef

/-- The settings of an architecture that stand in its own table. -/
def settings (d : ArchDef) : List (String × Setting) :=
  [("name", .text d.name)] ++
  optionalField "environment" (d.environment.map .text) ++
  optionalField "include" (d.header.map .text) ++
  optionalField "alignment" (if d.alignment = 1 then none else some (.number d.alignment.toNat))

def flagSettings (d : ArchDef) : List (String × Setting) :=
  d.flags.entries.map fun (key, flags) => (key, .texts flags)

def blocks (d : ArchDef) : List Block :=
  ⟨true, [], "arch", d.settings⟩ ::
    d.checks.map (fun c => ⟨true, ["arch"], "check", c.settings⟩) ++
    if d.flags.isEmpty then [] else [⟨false, ["arch"], "flags", d.flagSettings⟩]

end ArchDef

def MemberList.setting : MemberList → Setting
  | list entries => .texts entries
  | words text => .text text

def MachineDef.settings (d : MachineDef) : List (String × Setting) :=
  [("name", .text d.name), ("archs", d.archs.setting)]

def MachineDef.block (d : MachineDef) : Block :=
  ⟨true, [], "machine", d.settings⟩

namespace Definitions

/-- The settings before the first section: the lists that are empty. -/
def settings (d : Definitions) : List (String × Setting) :=
  (if d.archs = [] then [("arch", .texts [])] else []) ++
    if d.machines = [] then [("machine", .texts [])] else []

def blocks (d : Definitions) : List Block :=
  d.archs.flatMap ArchDef.blocks ++ d.machines.map MachineDef.block

def toToml (d : Definitions) : String :=
  Toml.render d.settings d.blocks

def ofToml? (s : String) : Option Definitions :=
  Toml.read? s >>= ofDatum? .ignored

end Definitions

inductive LoadError where
  | notFound (path : Path)
  | unreadable
  | malformed
  deriving Repr, DecidableEq

def LoadError.message : LoadError → String
  | notFound path => "definitions file not found: " ++ path.toString
  | unreadable => "I/O error"
  | malformed => "TOML parse error"

namespace Definitions

variable {m : Type → Type} [Monad m]

def fileName : String := "capreg.toml"

def candidates (start : Path) : List Path :=
  start.ancestors.map (·.child fileName)

/-- The first of some paths at which there is a file. -/
def firstFile (files : FileAccess m) : List Path → m (Option Path)
  | [] => return none
  | path :: rest => do if ← files.isFile path then return some path else firstFile files rest

def search (files : FileAccess m) (start : Path) : m (Option Path) :=
  firstFile files (candidates start)

def ofContent (content : Option ByteArray) : Except LoadError Definitions :=
  match content.bind String.fromUTF8? with
  | none => .error .unreadable
  | some text =>
    match ofToml? text with
    | none => .error .malformed
    | some definitions => .ok definitions

def load (files : FileAccess m) (path : Path) : m (Except LoadError Definitions) := do
  if ← files.isPresent path then return ofContent (← files.content path)
  else return .error (.notFound path)

end Definitions

end TargetCatalog
