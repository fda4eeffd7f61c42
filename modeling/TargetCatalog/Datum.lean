/-!
# Data trees

A definitions file and a record passed as text are both read into a tree of plain values before
they are given a meaning. A record is a list of named fields, or just the list of its values in the
order in which its fields are declared; `Datum.fields?` brings both into the first form.
-/

namespace TargetCatalog

/-- A plain value: what a text format can hold before it is decoded. -/
inductive Datum where
  | null
  | bool (value : Bool)
  | int (value : Int)
  | real (literal : String)
  | text (value : String)
  | list (items : List Datum)
  | record (fields : List (String × Datum))
  deriving Repr, Inhabited

/-- What becomes of surplus items when a record is written as the list of its values. -/
inductive Surplus where
  | refused
  | ignored
  deriving Repr, DecidableEq

namespace Datum

def text? : Datum → Option String
  | text value => some value
  | _ => none

def items? : Datum → Option (List Datum)
  | list items => some items
  | _ => none

def texts? (d : Datum) : Option (List String) :=
  d.items? >>= List.mapM text?

def ofTexts (values : List String) : Datum :=
  list (values.map text)

/-- The named fields of a record whose fields are declared in the order `names`. -/
def fields? (surplus : Surplus) (names : List String) : Datum → Option (List (String × Datum))
  | record fields => some fields
  | list items =>
    if surplus = .refused ∧ names.length < items.length then none else some (names.zip items)
  | _ => none

end Datum

def fieldValue? (fields : List (String × Datum)) (name : String) : Option Datum :=
  (fields.reverse.find? (·.1 == name)).map (·.2)

/-- The decoded value of a field; `absent` stands for a field that is not there. -/
def decodeField {α : Type} (fields : List (String × Datum)) (name : String)
    (decode : Datum → Option α) (absent : Option α) : Option α :=
  match fieldValue? fields name with
  | some value => decode value
  | none => absent

end TargetCatalog
