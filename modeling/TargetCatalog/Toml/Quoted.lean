import TargetCatalog.Text.Digits
import TargetCatalog.Toml.Character

/-!
# Quoted strings

The four kinds of TOML strings. Basic strings stand in double quotes and know escapes; literal
strings stand in single quotes and mean what they show. Each has a form in tripled quotes that may
run over several lines: a line end right after the opening quotes does not count, every other line
end counts as a line feed, and up to two quotes may stand before the closing ones.

The readers start behind the opening quotes and give the characters of the string and the text
behind its closing quotes.
-/

namespace TargetCatalog.Toml

open Text

def shortEscape? (c : Char) : Option Char :=
  if c = 'b' then some '\x08'
  else if c = 't' then some '\t'
  else if c = 'n' then some '\n'
  else if c = 'f' then some '\x0c'
  else if c = 'r' then some '\r'
  else if c = '"' then some '"'
  else if c = '\\' then some '\\'
  else none

def prepend (c : Char) (read : Option (List Char × List Char)) : Option (List Char × List Char) :=
  read.map fun (text, rest) => (c :: text, rest)

def readBasic : List Char → Option (List Char × List Char)
  | [] => none
  | c :: cs =>
    if c = '"' then some ([], cs)
    else if c = '\\' then
      match cs with
      | 'u' :: a :: b :: c :: d :: rest =>
        match scalar? [a, b, c, d] with
        | some char => prepend char (readBasic rest)
        | none => none
      | 'U' :: a :: b :: c :: d :: e :: f :: g :: h :: rest =>
        match scalar? [a, b, c, d, e, f, g, h] with
        | some char => prepend char (readBasic rest)
        | none => none
      | escape :: rest =>
        match shortEscape? escape with
        | some char => prepend char (readBasic rest)
        | none => none
      | [] => none
    else if isPlain c then prepend c (readBasic cs)
    else none

def readLiteral : List Char → Option (List Char × List Char)
  | [] => none
  | c :: cs =>
    if c = '\'' then some ([], cs)
    else if isPlain c then prepend c (readLiteral cs)
    else none

/-- The quotes that belong to a string whose closing quotes have begun, of which three are read:
up to two more come before them. -/
def closing (quote : Char) : List Char → List Char × List Char
  | a :: b :: rest =>
    if a = quote then
      if b = quote then ([quote, quote], rest) else ([quote], b :: rest)
    else ([], a :: b :: rest)
  | [a] => if a = quote then ([quote], []) else ([], [a])
  | [] => ([], [])

def startsClosing (quote : Char) (cs : List Char) : Bool :=
  [quote, quote, quote].isPrefixOf cs

/-- Only blanks are left on the line. -/
def startsFold (cs : List Char) : Bool :=
  (newline? (skipBlanks cs)).isSome

/-- A basic string over several lines. The flag tells that a backslash has ended a line, so that
blanks and line ends are passed over. -/
def readBasicLines : Bool → List Char → Option (List Char × List Char)
  | _, [] => none
  | folding, c :: cs =>
    if folding ∧ (isBlank c ∨ c = '\n') then readBasicLines true cs
    else if c = '\r' then
      if cs.head? = some '\n' then readBasicLines folding cs else none
    else if c = '"' then
      if startsClosing '"' (c :: cs) then some (closing '"' (cs.drop 2))
      else prepend c (readBasicLines false cs)
    else if c = '\\' then
      if startsFold cs then readBasicLines true cs
      else
        match cs with
        | 'u' :: a :: b :: c :: d :: rest =>
          match scalar? [a, b, c, d] with
          | some char => prepend char (readBasicLines false rest)
          | none => none
        | 'U' :: a :: b :: c :: d :: e :: f :: g :: h :: rest =>
          match scalar? [a, b, c, d, e, f, g, h] with
          | some char => prepend char (readBasicLines false rest)
          | none => none
        | escape :: rest =>
          match shortEscape? escape with
          | some char => prepend char (readBasicLines false rest)
          | none => none
        | [] => none
    else if c = '\n' ∨ isPlain c then prepend c (readBasicLines false cs)
    else none

def readLiteralLines : List Char → Option (List Char × List Char)
  | [] => none
  | c :: cs =>
    if c = '\r' then
      if cs.head? = some '\n' then readLiteralLines cs else none
    else if c = '\'' then
      if startsClosing '\'' (c :: cs) then some (closing '\'' (cs.drop 2))
      else prepend c (readLiteralLines cs)
    else if c = '\n' ∨ isPlain c then prepend c (readLiteralLines cs)
    else none

def dropNewline (cs : List Char) : List Char :=
  (newline? cs).getD cs

/-- A string of any of the four kinds, from its opening quote on. -/
def readQuoted : List Char → Option (List Char × List Char)
  | '"' :: '"' :: '"' :: rest => readBasicLines false (dropNewline rest)
  | '\'' :: '\'' :: '\'' :: rest => readLiteralLines (dropNewline rest)
  | '"' :: rest => readBasic rest
  | '\'' :: rest => readLiteral rest
  | _ => none

end TargetCatalog.Toml
