import TargetCatalog.Datum
import TargetCatalog.Text.Digits

/-!
# Writing JSON

Compact JSON text: no white space, the short escapes where JSON has them, `\u00xx` for the other
control characters, and every other character as it is.
-/

namespace TargetCatalog.Json

open Text

/-- A character as it stands between the quotes of a JSON string. -/
def escapeChar (c : Char) : List Char :=
  if c = '"' then ['\\', '"']
  else if c = '\\' then ['\\', '\\']
  else if c = '\x08' then ['\\', 'b']
  else if c = '\x0c' then ['\\', 'f']
  else if c = '\n' then ['\\', 'n']
  else if c = '\r' then ['\\', 'r']
  else if c = '\t' then ['\\', 't']
  else if c.toNat < 0x20 then
    ['\\', 'u', '0', '0', lowerHexDigit (c.toNat / 16), lowerHexDigit (c.toNat % 16)]
  else [c]

def quoteChars (cs : List Char) : List Char :=
  '"' :: cs.flatMap escapeChar ++ ['"']

def intChars (n : Int) : List Char :=
  if n < 0 then '-' :: Nat.toDigits 10 n.natAbs else Nat.toDigits 10 n.natAbs

mutual

def chars : Datum → List Char
  | .null => ['n', 'u', 'l', 'l']
  | .bool true => ['t', 'r', 'u', 'e']
  | .bool false => ['f', 'a', 'l', 's', 'e']
  | .int value => intChars value
  | .real literal => literal.toList
  | .text value => quoteChars value.toList
  | .list items => '[' :: itemsChars items ++ [']']
  | .record fields => '\x7b' :: fieldsChars fields ++ ['\x7d']

def itemsChars : List Datum → List Char
  | [] => []
  | [item] => chars item
  | item :: next :: rest => chars item ++ ',' :: itemsChars (next :: rest)

def fieldsChars : List (String × Datum) → List Char
  | [] => []
  | [field] => fieldChars field
  | field :: next :: rest => fieldChars field ++ ',' :: fieldsChars (next :: rest)

def fieldChars : String × Datum → List Char
  | (name, value) => quoteChars name.toList ++ ':' :: chars value

end

def render (d : Datum) : String :=
  .ofList (chars d)

end TargetCatalog.Json
