import TargetCatalog.Toml.Number
import TargetCatalog.Toml.Quoted
import TargetCatalog.Toml.Table

/-!
# Reading TOML

A document is read in two stages. The first gives its lines: headers, and keys with their values.
The second lets the tables grow line by line, section by section, and refuses what they do not
permit. Lists and inline tables may lie in each other, and dotted keys may have parts, only up to a
limit; that limit also bounds the recursion, and fuel bounds the number of items.
-/

namespace TargetCatalog.Toml

/-- Lists and inline tables lie in each other, and keys have parts, less often than this. -/
def nestingLimit : Nat := 80

def readKeyPart (cs : List Char) : Option (List Char × List Char) :=
  match cs with
  | '"' :: rest => readBasic rest
  | '\'' :: rest => readLiteral rest
  | cs =>
    let part := cs.takeWhile isBareKey
    if part.isEmpty then none else some (part, cs.dropWhile isBareKey)

/-- The parts of a key with dots between them, blanks around each part, and the text behind. -/
def readKeyParts : Nat → List Char → Option (List String × List Char)
  | 0, _ => none
  | limit + 1, cs => do
    let (part, rest) ← readKeyPart (skipBlanks cs)
    match skipBlanks rest with
    | '.' :: rest =>
      let (parts, rest) ← readKeyParts limit rest
      some (.ofList part :: parts, rest)
    | rest => some ([.ofList part], rest)

/-- A key: the parts before the last one, and the last one. -/
def readKey (cs : List Char) : Option ((List String × String) × List Char) := do
  let (parts, rest) ← readKeyParts (nestingLimit - 1) cs
  let key ← parts.getLast?
  some ((parts.dropLast, key), rest)

mutual

/-- A value. The first number bounds the steps, the second one the lists and tables that may still
be opened. -/
def readValue : Nat → Nat → List Char → Option (Datum × List Char)
  | 0, _, _ => none
  | fuel + 1, depth, cs =>
    match cs with
    | '[' :: rest =>
      if depth = 0 then none
      else
        (readItems fuel (depth - 1) (skipSpacing false rest)).map fun (items, rest) =>
          (.list items, rest)
    | '\x7b' :: rest =>
      if depth = 0 then none
      else
        match skipBlanks rest with
        | '\x7d' :: rest => some (.record [], rest)
        | rest =>
          match readInline fuel (depth - 1) rest with
          | none => none
          | some (assignments, rest) =>
            (Entries.assignAll assignments []).map fun entries => (entries.toDatum, rest)
    | 't' :: 'r' :: 'u' :: 'e' :: rest => some (.bool true, rest)
    | 'f' :: 'a' :: 'l' :: 's' :: 'e' :: rest => some (.bool false, rest)
    | cs =>
      match readQuoted cs with
      | some (text, rest) => some (.text (.ofList text), rest)
      | none => readNumeric cs

/-- The values of a list up to the bracket that closes it, which may follow a comma. -/
def readItems : Nat → Nat → List Char → Option (List Datum × List Char)
  | 0, _, _ => none
  | fuel + 1, depth, cs =>
    match cs with
    | ']' :: rest => some ([], rest)
    | cs =>
      match readValue fuel depth cs with
      | none => none
      | some (item, rest) =>
        match skipSpacing false rest with
        | ']' :: rest => some ([item], rest)
        | ',' :: rest =>
          (readItems fuel depth (skipSpacing false rest)).map fun (items, rest) =>
            (item :: items, rest)
        | _ => none

/-- The assignments of an inline table up to the brace that closes it. -/
def readInline : Nat → Nat → List Char → Option (List Assignment × List Char)
  | 0, _, _ => none
  | fuel + 1, depth, cs =>
    match readKey cs with
    | none => none
    | some ((path, key), rest) =>
      match rest with
      | '=' :: rest =>
        match readValue fuel depth (skipBlanks rest) with
        | none => none
        | some (value, rest) =>
          match skipBlanks rest with
          | '\x7d' :: rest => some ([⟨path, key, value⟩], rest)
          | ',' :: rest =>
            (readInline fuel depth rest).map fun (assignments, rest) =>
              (⟨path, key, value⟩ :: assignments, rest)
          | _ => none
      | _ => none

end

/-- What a line of a document says. -/
inductive Line where
  | header (double : Bool) (path : List String) (key : String)
  | assignment (assignment : Assignment)

def readHeader (cs : List Char) : Option (Line × List Char) :=
  match cs with
  | '[' :: rest => do
    let ((path, key), rest) ← readKey rest
    match rest with
    | ']' :: ']' :: rest => some (.header true path key, rest)
    | _ => none
  | rest => do
    let ((path, key), rest) ← readKey rest
    match rest with
    | ']' :: rest => some (.header false path key, rest)
    | _ => none

def readAssignment (cs : List Char) : Option (Line × List Char) := do
  let ((path, key), rest) ← readKey cs
  match rest with
  | '=' :: rest =>
    let (value, rest) ← readValue (2 * rest.length + 2) (nestingLimit - 1) (skipBlanks rest)
    some (.assignment ⟨path, key, value⟩, rest)
  | _ => none

def readLines : Nat → List Char → Option (List Line)
  | 0, _ => none
  | fuel + 1, cs =>
    match skipBlanks cs with
    | [] => some []
    | c :: cs =>
      if c = '#' ∨ c = '\n' ∨ c = '\r' then do
        let rest ← lineEnd? (c :: cs)
        readLines fuel rest
      else do
        let (line, rest) ← if c = '[' then readHeader cs else readAssignment (c :: cs)
        let rest ← lineEnd? rest
        let lines ← readLines fuel rest
        some (line :: lines)

structure Section where
  double : Bool
  path : List String
  key : String
  body : List Assignment

def sections : List Line → List Assignment × List Section
  | [] => ([], [])
  | .assignment a :: lines =>
    let (body, rest) := sections lines
    (a :: body, rest)
  | .header double path key :: lines =>
    let (body, rest) := sections lines
    ([], ⟨double, path, key, body⟩ :: rest)

def Entries.addSection (entries : Entries) (s : Section) : Option Entries :=
  entries.descend (if s.double then pushTable s.key s.body else putTable s.key s.body) s.path

def build (lines : List Line) : Option Entries := do
  let (body, rest) := sections lines
  let root ← Entries.assignAll body []
  rest.foldlM Entries.addSection root

def dropMark (cs : List Char) : List Char :=
  match cs with
  | '\uFEFF' :: rest => rest
  | cs => cs

def read? (s : String) : Option Datum := do
  let cs := dropMark s.toList
  let lines ← readLines (cs.length + 1) cs
  let root ← build lines
  some root.toDatum

end TargetCatalog.Toml
