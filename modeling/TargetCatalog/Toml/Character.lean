/-!
# Characters and spacing

The classes of characters in a TOML document, and what may stand between its tokens. Blanks are
spaces and tabs; a line ends with a line feed, with or without a carriage return before it; a
comment runs from `#` to the end of its line and holds no control character but the tab.
-/

namespace TargetCatalog.Toml

def isBlank (c : Char) : Bool :=
  c == ' ' || c == '\t'

/-- A character that a comment, or a literal string, may hold. -/
def isPlain (c : Char) : Bool :=
  c == '\t' || (0x20 ≤ c.toNat && c.toNat != 0x7F)

def isBareKey (c : Char) : Bool :=
  c.isAlphanum || c == '_' || c == '-'

def skipBlanks (cs : List Char) : List Char :=
  cs.dropWhile isBlank

def newline? : List Char → Option (List Char)
  | '\n' :: rest => some rest
  | '\r' :: '\n' :: rest => some rest
  | _ => none

/-- What follows a line of which only blanks and a comment are left. -/
def lineEnd? (cs : List Char) : Option (List Char) :=
  let rest := match skipBlanks cs with
    | '#' :: comment => comment.dropWhile isPlain
    | rest => rest
  if rest.isEmpty then some [] else newline? rest

/-- Passes over blanks, line ends and comments, as they may stand between the values of a list.
The flag tells that the text starts inside a comment. -/
def skipSpacing : Bool → List Char → List Char
  | _, [] => []
  | true, c :: cs =>
    if c = '\n' then skipSpacing false cs
    else if c = '\r' ∧ cs.head? = some '\n' then skipSpacing true cs
    else if isPlain c then skipSpacing true cs
    else c :: cs
  | false, c :: cs =>
    if isBlank c ∨ c = '\n' then skipSpacing false cs
    else if c = '\r' ∧ cs.head? = some '\n' then skipSpacing false cs
    else if c = '#' then skipSpacing true cs
    else c :: cs

end TargetCatalog.Toml
