import TargetCatalog.Datum

/-!
# Tables of a TOML document

The tree that grows while the lines of a document are read. A table remembers how it came to be,
since that decides who may add to it: a table with a header of its own is closed to dotted keys, a
table made by dotted keys is closed to headers, and a table that a header only passed through is
open to one header of its own. A key is never given two values.
-/

namespace TargetCatalog.Toml

inductive Origin where
  /-- It has a header of its own. -/
  | header
  /-- The header of a table inside it named it on the way. -/
  | implied
  /-- A dotted key named it on the way. -/
  | dotted
  deriving Repr, DecidableEq

/-- What a key of a document may hold: a value, a table, or a list of tables, of which the last one
is still open. -/
inductive Node where
  | value (value : Datum)
  | table (origin : Origin) (entries : List (String × Node))
  | tables (earlier : List (List (String × Node))) (last : List (String × Node))
  deriving Inhabited

abbrev Entries := List (String × Node)

/-- A key with its value: the keys of the tables on the way to it, its own key, and the value. -/
structure Assignment where
  path : List String
  key : String
  value : Datum
  deriving Inhabited

namespace Entries

def node? (entries : Entries) (key : String) : Option Node :=
  List.lookup key entries

def replace (key : String) (node : Node) : Entries → Entries
  | [] => []
  | (k, n) :: rest => if k = key then (k, node) :: rest else (k, n) :: replace key node rest

/-- Gives a value to a key below a path of dotted keys. -/
def assign (key : String) (value : Datum) : List String → Entries → Option Entries
  | [], entries =>
    match entries.node? key with
    | some _ => none
    | none => some (entries ++ [(key, .value value)])
  | step :: path, entries =>
    match entries.node? step with
    | none => do
      let inner ← assign key value path []
      some (entries ++ [(step, .table .dotted inner)])
    | some (.table origin inner) =>
      if origin = .header ∨ (origin = .implied ∧ path = []) then none
      else do
        let inner ← assign key value path inner
        some (entries.replace step (.table origin inner))
    | some (.tables earlier last) =>
      if path = [] then none
      else do
        let last ← assign key value path last
        some (entries.replace step (.tables earlier last))
    | some (.value _) => none

def assignAll (assignments : List Assignment) (entries : Entries) : Option Entries :=
  assignments.foldlM (fun entries a => entries.assign a.key a.value a.path) entries

/-- Changes the table that a header's path leads to. -/
def descend (change : Entries → Option Entries) : List String → Entries → Option Entries
  | [], entries => change entries
  | step :: path, entries =>
    match entries.node? step with
    | none => do
      let inner ← descend change path []
      some (entries ++ [(step, .table .implied inner)])
    | some (.table origin inner) => do
      let inner ← descend change path inner
      some (entries.replace step (.table origin inner))
    | some (.tables earlier last) => do
      let last ← descend change path last
      some (entries.replace step (.tables earlier last))
    | some (.value _) => none

def putTable (key : String) (body : List Assignment) (parent : Entries) : Option Entries :=
  match parent.node? key with
  | none => do
    let inner ← assignAll body []
    some (parent ++ [(key, .table .header inner)])
  | some (.table .implied inner) => do
    let inner ← assignAll body inner
    some (parent.replace key (.table .header inner))
  | some _ => none

def pushTable (key : String) (body : List Assignment) (parent : Entries) : Option Entries :=
  match parent.node? key with
  | none => do
    let inner ← assignAll body []
    some (parent ++ [(key, .tables [] inner)])
  | some (.tables earlier last) => do
    let inner ← assignAll body []
    some (parent.replace key (.tables (earlier ++ [last]) inner))
  | some _ => none

end Entries

mutual

/-- The value that a node stands for once the document is complete. -/
def Node.toDatum : Node → Datum
  | .value value => value
  | .table _ entries => .record (entriesToFields entries)
  | .tables earlier last => .list (tablesToItems earlier ++ [.record (entriesToFields last)])

def entriesToFields : List (String × Node) → List (String × Datum)
  | [] => []
  | entry :: rest => entryToField entry :: entriesToFields rest

def entryToField : String × Node → String × Datum
  | (key, node) => (key, node.toDatum)

def tablesToItems : List (List (String × Node)) → List Datum
  | [] => []
  | entries :: rest => .record (entriesToFields entries) :: tablesToItems rest

end

def Entries.toDatum (entries : Entries) : Datum :=
  .record (entriesToFields entries)

end TargetCatalog.Toml
