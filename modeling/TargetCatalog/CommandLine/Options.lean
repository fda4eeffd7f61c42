import TargetCatalog.Text.Split

/-!
# Command-line arguments

A run of the program asks one query. Its options may come in any order, each at most once, with
their values behind an equals sign or in the next argument; an argument that is a value may not look
like an option. The definitions file may also be named by a variable of the environment, which an
option overrides.
-/

namespace TargetCatalog.CommandLine

inductive Mode where
  | archFlags
  | machines
  | machineFlags
  deriving Repr, DecidableEq

def Mode.name : Mode → String
  | archFlags => "arch_flags"
  | machines => "machines"
  | machineFlags => "machine_flags"

def Mode.ofString? (s : String) : Option Mode :=
  if s = "arch_flags" ∨ s = "arch-flags" then some .archFlags
  else if s = "machines" then some .machines
  else if s = "machine_flags" ∨ s = "machine-flags" then some .machineFlags
  else none

inductive Format where
  | text
  | json
  deriving Repr, DecidableEq

def Format.ofString? (s : String) : Option Format :=
  if s = "text" then some .text
  else if s = "json" then some .json
  else none

structure Options where
  mode : Mode
  compiler : Option String := none
  archs : Option String := none
  machine : Option String := none
  definitions : Option String := none
  format : Format := .text
  deriving Repr, DecidableEq

structure Draft where
  mode : Option Mode := none
  compiler : Option String := none
  archs : Option String := none
  machine : Option String := none
  definitions : Option String := none
  format : Option Format := none
  /-- A log was asked for; this has no influence on the answer. -/
  verbose : Bool := false
  deriving Repr, DecidableEq

inductive ValueOption where
  | mode
  | compiler
  | archs
  | machine
  | definitions
  | format
  deriving Repr, DecidableEq

inductive FlagOption where
  | verbose
  | version
  | help
  deriving Repr, DecidableEq

def ValueOption.ofName? (name : String) : Option ValueOption :=
  if name = "mode" then some .mode
  else if name = "compiler" then some .compiler
  else if name = "archs" then some .archs
  else if name = "machine" then some .machine
  else if name = "defs" then some .definitions
  else if name = "format" then some .format
  else none

def FlagOption.ofName? (name : String) : Option FlagOption :=
  if name = "verbose" then some .verbose
  else if name = "version" then some .version
  else if name = "help" then some .help
  else none

def FlagOption.ofLetter? (c : Char) : Option FlagOption :=
  if c = 'v' then some .verbose
  else if c = 'V' then some .version
  else if c = 'h' then some .help
  else none

/-- A value that has not been given before. -/
def once {α : Type} (old : Option α) (new : Option α) : Option (Option α) :=
  match old, new with
  | none, some value => some (some value)
  | _, _ => none

def pathText? (s : String) : Option String :=
  if s = "" then none else some s

def Draft.set (d : Draft) (option : ValueOption) (value : String) : Option Draft :=
  match option with
  | .mode => (once d.mode (Mode.ofString? value)).map fun v => { d with mode := v }
  | .compiler => (once d.compiler (some value)).map fun v => { d with compiler := v }
  | .archs => (once d.archs (some value)).map fun v => { d with archs := v }
  | .machine => (once d.machine (some value)).map fun v => { d with machine := v }
  | .definitions =>
    (once d.definitions (pathText? value)).map fun v => { d with definitions := v }
  | .format => (once d.format (Format.ofString? value)).map fun v => { d with format := v }

/-- What a list of arguments asks for. -/
inductive Reading (α : Type) where
  | accepted (value : α)
  | version
  | help
  | misuse
  deriving Repr, DecidableEq

/-- An argument that is no value: it starts with a hyphen and does not stop there. -/
def looksLikeOption (arg : String) : Bool :=
  match arg.toList with
  | '-' :: _ :: _ => true
  | _ => false

def Draft.flag (d : Draft) (option : FlagOption) : Reading Draft :=
  match option with
  | .verbose => if d.verbose then .misuse else .accepted { d with verbose := true }
  | .version => .version
  | .help => .help

def Draft.letters (d : Draft) : List Char → Reading Draft
  | [] => .accepted d
  | c :: rest =>
    match FlagOption.ofLetter? c with
    | none => .misuse
    | some option =>
      match d.flag option with
      | .accepted d => letters d rest
      | other => other

/-- An option's name, and its value if an equals sign divides the two. -/
def nameAndValue (cs : List Char) : String × Option String :=
  (.ofList (cs.takeWhile (· ≠ '=')),
    if cs.contains '=' then some (.ofList ((cs.dropWhile (· ≠ '=')).drop 1)) else none)

/-- An argument by the hyphens it starts with. -/
inductive Argument where
  /-- Two hyphens alone: no option follows. -/
  | finish
  | long (name : String) (value : Option String)
  | short (letters : List Char)
  | plain
  deriving Repr, DecidableEq

def Argument.ofString (s : String) : Argument :=
  match s.toList with
  | ['-', '-'] => finish
  | '-' :: '-' :: rest =>
    let (name, value) := nameAndValue rest
    long name value
  | '-' :: c :: rest => short (c :: rest)
  | _ => plain

def Draft.read (d : Draft) : List String → Reading Draft
  | [] => .accepted d
  | arg :: rest =>
    match Argument.ofString arg with
    | .finish => if rest = [] then .accepted d else .misuse
    | .plain => .misuse
    | .short letters =>
      match d.letters letters with
      | .accepted d => read d rest
      | other => other
    | .long name value =>
      match ValueOption.ofName? name, FlagOption.ofName? name, value with
      | some option, _, some value =>
        match d.set option value with
        | some d => read d rest
        | none => .misuse
      | some option, _, none =>
        match rest with
        | [] => .misuse
        | value :: rest =>
          if looksLikeOption value then .misuse
          else
            match d.set option value with
            | some d => read d rest
            | none => .misuse
      | none, some option, none =>
        match d.flag option with
        | .accepted d => read d rest
        | other => other
      | none, some _, some _ => .misuse
      | none, none, _ => .misuse

/-- The options that a complete draft stands for. Where no option names a definitions file,
the variable does. -/
def Draft.complete (d : Draft) (fallback : Option String) : Option Options := do
  let mode ← d.mode
  let definitions ←
    match d.definitions, fallback with
    | some path, _ => some (some path)
    | none, some path => (pathText? path).map some
    | none, none => some none
  some {
    mode := mode
    compiler := d.compiler
    archs := d.archs
    machine := d.machine
    definitions := definitions
    format := d.format.getD .text
  }

/-- What the arguments, together with the variable that may name a definitions file, ask for. -/
def readArguments (args : List String) (fallback : Option String) : Reading Options :=
  match Draft.read {} args with
  | .accepted d =>
    match d.complete fallback with
    | some options => .accepted options
    | none => .misuse
  | .version => .version
  | .help => .help
  | .misuse => .misuse

end TargetCatalog.CommandLine
