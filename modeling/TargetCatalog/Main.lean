import TargetCatalog.CommandLine.Run

/-!
# The program

Runs a query on the file system of the machine. Everything is decided in `CommandLine.run`; here the
file system is asked, and the outcome is printed.
-/

namespace TargetCatalog

/-- An answer of the file system, or `fallback` where it gives an error. -/
def orElse {α : Type} (fallback : α) (action : IO α) : IO α :=
  tryCatch action fun _ => return fallback

/-- The file system that the program runs on. A path without text leads nowhere. -/
def systemFiles : FileAccess IO where
  isPresent p :=
    if p.isEmpty then return false
    else orElse false do return (← (← IO.FS.realPath p.toString).pathExists)
  isFile p :=
    if p.isEmpty then return false
    else orElse false do
      let metadata ← (← IO.FS.realPath p.toString).metadata
      return metadata.type == .file
  content p := orElse none do return some (← IO.FS.readBinFile p.toString)

end TargetCatalog

open TargetCatalog in
def main (args : List String) : IO UInt32 := do
  let directory ← IO.currentDir
  let fallback ← IO.getEnv "CAPREG_DEFS"
  let outcome ← CommandLine.run systemFiles (.ofString directory.toString) args fallback
  IO.print outcome.output
  IO.eprint outcome.report
  return outcome.exitCode.toUInt32
