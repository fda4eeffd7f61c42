import TargetCatalog.Datum
import TargetCatalog.Text.Digits

/-!
# Numbers and dates

Integers, real numbers, dates and times as they stand in a TOML document. Single underscores may
divide digits. An integer fits into 64 bits; a real number is kept as it is written, but one that
rounds to positive infinity in double precision is refused. A date or time has no place in a
definitions file, so it becomes a record of its own that holds no field of any other.
-/

namespace TargetCatalog.Toml

open Text

/-- Further digits, each with at most one underscore before it, and the text behind them. -/
def digitsTail (isDigit : Char → Bool) : List Char → List Char × List Char
  | [] => ([], [])
  | c :: cs =>
    if isDigit c then
      let (digits, rest) := digitsTail isDigit cs
      (c :: digits, rest)
    else if c = '_' then
      match cs with
      | [] => ([], ['_'])
      | d :: rest =>
        if isDigit d then
          let (digits, rest) := digitsTail isDigit rest
          (d :: digits, rest)
        else ([], '_' :: d :: rest)
    else ([], c :: cs)

/-- One or more digits, without their underscores, and the text behind them. -/
def digits? (isDigit : Char → Bool) : List Char → Option (List Char × List Char)
  | [] => none
  | c :: cs =>
    if isDigit c then
      let (digits, rest) := digitsTail isDigit cs
      some (c :: digits, rest)
    else none

def sign (cs : List Char) : Bool × List Char :=
  match cs with
  | '+' :: rest => (false, rest)
  | '-' :: rest => (true, rest)
  | cs => (false, cs)

/-- The digits of a whole number: a lone zero, or digits that do not start with a zero. -/
def whole? (cs : List Char) : Option (List Char × List Char) :=
  match cs with
  | '0' :: rest => some (['0'], rest)
  | cs => digits? Char.isDigit cs

/-- The number of a list of digits in a base of up to sixteen. -/
def ofDigits (base : Nat) (digits : List Char) : Nat :=
  digits.foldl (fun n c => base * n + (hexValue? c).getD 0) 0

def int64? (n : Int) : Option Datum :=
  if Int64.minValue.toInt ≤ n ∧ n ≤ Int64.maxValue.toInt then some (.int n) else none

def isOctalDigit (c : Char) : Bool :=
  '0' ≤ c && c ≤ '7'

def isBinaryDigit (c : Char) : Bool :=
  c == '0' || c == '1'

def readBased (base : Nat) (isDigit : Char → Bool) (cs : List Char) :
    Option (Datum × List Char) := do
  let (digits, rest) ← digits? isDigit cs
  let value ← int64? (ofDigits base digits)
  some (value, rest)

def readInteger (cs : List Char) : Option (Datum × List Char) :=
  match cs with
  | '0' :: 'x' :: rest => readBased 16 isHexDigit rest
  | '0' :: 'o' :: rest => readBased 8 isOctalDigit rest
  | '0' :: 'b' :: rest => readBased 2 isBinaryDigit rest
  | cs => do
    let (negative, rest) := sign cs
    let (digits, rest) ← whole? rest
    let magnitude : Int := Nat.ofDigitChars 10 digits 0
    let value ← int64? (if negative then -magnitude else magnitude)
    some (value, rest)

/-- The decimal number `mantissa * 10 ^ exponent` rounds to positive infinity in double precision:
it is at least the point half-way between the largest double and the next power of two. The first
two cases only keep the powers small. -/
def overflows (mantissa : Nat) (exponent : Int) : Bool :=
  let limit := (Nat.pow 2 54 - 1) * Nat.pow 2 970
  let magnitude := (Nat.toDigits 10 mantissa).length + exponent
  if mantissa = 0 ∨ magnitude < 300 then false
  else if 400 < magnitude then true
  else if 0 ≤ exponent then decide (limit ≤ mantissa * Nat.pow 10 exponent.toNat)
  else decide (limit * Nat.pow 10 (-exponent).toNat ≤ mantissa)

def fraction? (cs : List Char) : Option (List Char × List Char) :=
  match cs with
  | '.' :: rest => digits? Char.isDigit rest
  | _ => none

def exponent? (cs : List Char) : Option (Int × List Char) :=
  match cs with
  | e :: rest =>
    if e = 'e' ∨ e = 'E' then do
      let (negative, rest) := sign rest
      let (digits, rest) ← digits? Char.isDigit rest
      let magnitude : Int := Nat.ofDigitChars 10 digits 0
      some (if negative then -magnitude else magnitude, rest)
    else none
  | [] => none

def consumed (cs rest : List Char) : String :=
  .ofList (cs.take (cs.length - rest.length))

/-- A real number written with a fraction, an exponent or both. -/
def readDecimal (cs : List Char) : Option (Datum × List Char) := do
  let (negative, rest) := sign cs
  let (whole, rest) ← whole? rest
  let (fraction, exponent, rest) ←
    match fraction? rest with
    | some (fraction, rest) =>
      match exponent? rest with
      | some (exponent, rest) => some (fraction, exponent, rest)
      | none => some (fraction, 0, rest)
    | none => (exponent? rest).map fun (exponent, rest) => ([], exponent, rest)
  let mantissa := Nat.ofDigitChars 10 (whole ++ fraction) 0
  if !negative && overflows mantissa (exponent - fraction.length) then none
  else some (.real (consumed cs rest), rest)

def readNonFinite (cs : List Char) : Option (Datum × List Char) :=
  match (sign cs).2 with
  | 'i' :: 'n' :: 'f' :: rest => some (.real (consumed cs rest), rest)
  | 'n' :: 'a' :: 'n' :: rest => some (.real (consumed cs rest), rest)
  | _ => none

def fixedDigits? (count : Nat) (cs : List Char) : Option (Nat × List Char) :=
  let digits := cs.take count
  if digits.length = count ∧ digits.all Char.isDigit then
    some (Nat.ofDigitChars 10 digits 0, cs.drop count)
  else none

def after? (c : Char) : List Char → Option (List Char)
  | d :: rest => if d = c then some rest else none
  | [] => none

def isLeapYear (year : Nat) : Bool :=
  year % 4 == 0 && (year % 100 != 0 || year % 400 == 0)

def daysInMonth (year month : Nat) : Nat :=
  if month = 2 then (if isLeapYear year then 29 else 28)
  else if month ∈ [4, 6, 9, 11] then 30
  else 31

def skipDate (cs : List Char) : Option (List Char) := do
  let (year, rest) ← fixedDigits? 4 cs
  let rest ← after? '-' rest
  let (month, rest) ← fixedDigits? 2 rest
  let rest ← after? '-' rest
  let (day, rest) ← fixedDigits? 2 rest
  if 1 ≤ month ∧ month ≤ 12 ∧ 1 ≤ day ∧ day ≤ daysInMonth year month then some rest else none

def skipHourMinute (cs : List Char) : Option (List Char) := do
  let (hour, rest) ← fixedDigits? 2 cs
  let rest ← after? ':' rest
  let (minute, rest) ← fixedDigits? 2 rest
  if hour ≤ 23 ∧ minute ≤ 59 then some rest else none

/-- What follows a time of day; a minute may have a leap second. -/
def skipTime (cs : List Char) : Option (List Char) := do
  let rest ← skipHourMinute cs
  let rest ← after? ':' rest
  let (second, rest) ← fixedDigits? 2 rest
  if 60 < second then none
  else
    match rest with
    | '.' :: fraction =>
      let rest' := fraction.dropWhile Char.isDigit
      some (if rest'.length = fraction.length then rest else rest')
    | _ => some rest

def skipOffset (cs : List Char) : List Char :=
  match cs with
  | 'Z' :: rest => rest
  | 'z' :: rest => rest
  | '+' :: rest => (skipHourMinute rest).getD cs
  | '-' :: rest => (skipHourMinute rest).getD cs
  | _ => cs

def skipMoment (cs : List Char) : Option (List Char) :=
  match skipDate cs with
  | some (c :: rest) =>
    if c = 'T' ∨ c = 't' ∨ c = ' ' then
      match skipTime rest with
      | some rest => some (skipOffset rest)
      | none => some (c :: rest)
    else some (c :: rest)
  | some [] => some []
  | none => skipTime cs

def readMoment (cs : List Char) : Option (Datum × List Char) := do
  let rest ← skipMoment cs
  some (.record [("moment", .text (consumed cs rest))], rest)

def readNumeric (cs : List Char) : Option (Datum × List Char) :=
  readMoment cs <|> readDecimal cs <|> readNonFinite cs <|> readInteger cs

end TargetCatalog.Toml
