import TargetCatalog.CommandLine.Options
import TargetCatalog.Definitions.Builtin
import TargetCatalog.Definitions.File
import TargetCatalog.Query

/-!
# A run of the program

From the arguments to what is printed: the definitions are chosen and loaded, the registry is built,
and the query is asked, in this order, so that the first thing that goes wrong is the one reported.
-/

namespace TargetCatalog.CommandLine

inductive Failure where
  | loading (path : Path) (error : LoadError)
  | building (error : RegistryError)
  | missing (option : String) (mode : Mode)
  | query (error : RegistryError)
  deriving Repr, DecidableEq

def Failure.message : Failure → String
  | loading path error => "loading " ++ path.toString ++ ": " ++ error.message
  | building error => "building capability registry: " ++ error.message
  | missing option mode => "--" ++ option ++ " is required for mode " ++ mode.name
  | query error => error.message

inductive Outcome where
  | answered (line : String)
  | failed (failure : Failure)
  | version
  | help
  | misuse
  deriving Repr, DecidableEq

def versionLine : String := "capreg 0.1.0"

def usageLine : String :=
  "Usage: capreg --mode <arch_flags|machines|machine_flags> [--compiler <id>] [--archs <a;b>] " ++
    "[--machine <name>] [--defs <file>] [--format <text|json>] [-v]"

namespace Outcome

def exitCode : Outcome → UInt8
  | answered _ | version | help => 0
  | failed _ => 1
  | misuse => 2

def output : Outcome → String
  | answered line => line ++ "\n"
  | version => versionLine ++ "\n"
  | help => usageLine ++ "\n"
  | failed _ | misuse => ""

def report : Outcome → String
  | failed failure => "error: " ++ failure.message ++ "\n"
  | misuse => "error: " ++ usageLine ++ "\n"
  | answered _ | version | help => ""

end Outcome

def require (option : String) (mode : Mode) (value : Option String) : Except Failure String :=
  match value with
  | some value => .ok value
  | none => .error (.missing option mode)

def answer (r : Registry) (o : Options) : Except Failure Answer := do
  match o.mode with
  | .archFlags =>
    let compiler ← require "compiler" o.mode o.compiler
    return .archFlags (r.archFlags (.ofString compiler))
  | .machines =>
    let archs ← require "archs" o.mode o.archs
    return .machines (r.machinesMatching (.parse archs))
  | .machineFlags =>
    let compiler ← require "compiler" o.mode o.compiler
    let machine ← require "machine" o.mode o.machine
    match r.machineFlags (.ofString compiler) machine with
    | .ok flags => return .flags flags
    | .error e => throw (.query e)

def Format.render (f : Format) (a : Answer) : String :=
  match f with
  | text => a.text
  | json => a.json

def respond (d : Definitions) (o : Options) : Except Failure String := do
  match d.toRegistry with
  | .error e => throw (.building e)
  | .ok r => return o.format.render (← answer r o)

variable {m : Type → Type} [Monad m]

/-- The file that the definitions come from: the one that is named, or else the nearest one above
the working directory. -/
def definitionsPath (files : FileAccess m) (directory : Path) (o : Options) : m (Option Path) :=
  match o.definitions with
  | some path => return some (.ofString path)
  | none => Definitions.search files directory

/-- The definitions that a query is asked of. The built-in ones count where there is no file. -/
def definitions (files : FileAccess m) (directory : Path) (o : Options) :
    m (Except Failure Definitions) := do
  match ← definitionsPath files directory o with
  | none => return .ok .builtin
  | some path =>
    match ← Definitions.load files path with
    | .ok d => return .ok d
    | .error e => return .error (.loading path e)

def run (files : FileAccess m) (directory : Path) (args : List String) (fallback : Option String) :
    m Outcome := do
  match readArguments args fallback with
  | .version => return .version
  | .help => return .help
  | .misuse => return .misuse
  | .accepted o =>
    match ← definitions files directory o with
    | .error f => return .failed f
    | .ok d =>
      match respond d o with
      | .error f => return .failed f
      | .ok line => return .answered line

end TargetCatalog.CommandLine
