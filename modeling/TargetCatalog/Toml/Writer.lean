import TargetCatalog.Datum
import TargetCatalog.Text.Digits
import TargetCatalog.Text.Split
import TargetCatalog.Toml.Character

/-!
# Writing TOML

A document is written as its top-level settings followed by its sections, each with a header and an
empty line before it. A string is written in the plainest style that can hold it: escapes appear
only where no style without them will do.
-/

namespace TargetCatalog.Toml

open Text

/-- A value that a written document may hold. -/
inductive Setting where
  | text (value : String)
  | number (value : Nat)
  | texts (values : List String)
  deriving Repr, DecidableEq

def Setting.toDatum : Setting → Datum
  | text value => .text value
  | number value => .int value
  | texts values => .ofTexts values

/-- A header, with single or double brackets, and the settings below it. -/
structure Block where
  double : Bool
  path : List String
  key : String
  settings : List (String × Setting)
  deriving Repr, DecidableEq

inductive Style where
  | basic
  | literal
  | basicLines
  | literalLines
  deriving Repr, DecidableEq

/-- A character that only an escape can show. -/
def isControl (c : Char) : Bool :=
  (c.toNat < 0x20 && c != '\t' && c != '\n') || c.toNat == 0x7F

/-- No more than two of these characters stand in a row; `run` of them have just been passed. -/
def runsShort (quote : Char) (run : Nat) : List Char → Bool
  | [] => true
  | c :: cs => if c = quote then run < 2 && runsShort quote (run + 1) cs else runsShort quote 0 cs

def styleOf (cs : List Char) : Style :=
  let plain := !cs.any isControl
  if plain && !cs.contains '\\' && !cs.contains '"' && !cs.contains '\n' then .basic
  else if plain && !cs.contains '\'' && !cs.contains '\n' then .literal
  else if plain && !cs.contains '\\' && runsShort '"' 0 cs then .basicLines
  else if plain && runsShort '\'' 0 cs then .literalLines
  else if cs.contains '\n' then .basicLines
  else .basic

/-- A character between the quotes of either basic style, quotes and line feeds apart. -/
def escapeChar (c : Char) : List Char :=
  if c = '\x08' then ['\\', 'b']
  else if c = '\t' then ['\\', 't']
  else if c = '\x0c' then ['\\', 'f']
  else if c = '\r' then ['\\', 'r']
  else if c = '\\' then ['\\', '\\']
  else if isControl c then
    ['\\', 'u', '0', '0', upperHexDigit (c.toNat / 16), upperHexDigit (c.toNat % 16)]
  else [c]

/-- A character between the quotes of a basic string on one line. -/
def escapeBasic (c : Char) : List Char :=
  if c = '"' then ['\\', '"'] else if c = '\n' then ['\\', 'n'] else escapeChar c

/-- The text between the quotes of a basic string over several lines: every third quote of a run is
escaped; `run` quotes have just been passed. -/
def escapeBasicLines (run : Nat) : List Char → List Char
  | [] => []
  | c :: cs =>
    if c = '"' then
      if run = 2 then '\\' :: '"' :: escapeBasicLines 0 cs else '"' :: escapeBasicLines (run + 1) cs
    else if c = '\n' then '\n' :: escapeBasicLines 0 cs
    else escapeChar c ++ escapeBasicLines 0 cs

/-- A line feed right behind the opening quotes, which does not belong to the value, if the value
runs over several lines. -/
def opening (cs : List Char) : List Char :=
  if cs.contains '\n' then ['\n'] else []

def quoteChars (style : Style) (cs : List Char) : List Char :=
  match style with
  | .basic => ['"'] ++ cs.flatMap escapeBasic ++ ['"']
  | .literal => ['\''] ++ cs ++ ['\'']
  | .basicLines => ['"', '"', '"'] ++ opening cs ++ escapeBasicLines 0 cs ++ ['"', '"', '"']
  | .literalLines => ['\'', '\'', '\''] ++ opening cs ++ cs ++ ['\'', '\'', '\'']

def textChars (s : String) : List Char :=
  quoteChars (styleOf s.toList) s.toList

def keyChars (s : String) : List Char :=
  let cs := s.toList
  let plain := !cs.any isControl && !cs.contains '\n'
  if !cs.isEmpty && cs.all isBareKey then cs
  else if plain && !cs.contains '\\' && !cs.contains '"' then quoteChars .basic cs
  else if plain && !cs.contains '\'' then quoteChars .literal cs
  else quoteChars .basic cs

/-- A list of strings: each on its own line if there are several. -/
def textsChars (values : List String) : List Char :=
  match values with
  | [] => ['[', ']']
  | [value] => '[' :: textChars value ++ [']']
  | values =>
    let lines := values.flatMap fun value => [' ', ' ', ' ', ' '] ++ textChars value ++ [',', '\n']
    '[' :: '\n' :: lines ++ [']']

def settingChars : Setting → List Char
  | .text value => textChars value
  | .number value => Nat.toDigits 10 value
  | .texts values => textsChars values

def lineChars (line : String × Setting) : List Char :=
  keyChars line.1 ++ [' ', '=', ' '] ++ settingChars line.2 ++ ['\n']

def headerChars (b : Block) : List Char :=
  let key := ['.'].intercalate ((b.path ++ [b.key]).map keyChars)
  if b.double then ['[', '['] ++ key ++ [']', ']', '\n'] else ['['] ++ key ++ [']', '\n']

def blockChars (b : Block) : List Char :=
  headerChars b ++ b.settings.flatMap lineChars

def blocksChars (blocks : List Block) : List Char :=
  blocks.flatMap fun b => '\n' :: blockChars b

/-- A document: its settings, then its sections. A document does not start with an empty line. -/
def documentChars (settings : List (String × Setting)) (blocks : List Block) : List Char :=
  if settings.isEmpty then (blocksChars blocks).drop 1
  else settings.flatMap lineChars ++ blocksChars blocks

def render (settings : List (String × Setting)) (blocks : List Block) : String :=
  .ofList (documentChars settings blocks)

end TargetCatalog.Toml
