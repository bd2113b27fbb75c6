/-
The lexemes of TOML 1.0: blanks, comments, keys, strings, numbers, dates and times. Each reader takes the text that is
left and gives what it read with the text behind it.
-/
import SensorNode.Decimal.Reading
import SensorNode.Toml.Table

namespace SensorNode.Toml

/-- a reader of one lexeme -/
abbrev Read (α : Type) := List Char → Option (α × List Char)

def isDigit (c : Char) : Bool := '0' ≤ c ∧ c ≤ '9'

def isSpace (c : Char) : Bool := c = ' ' ∨ c = '\t'

def skipSpace (cs : List Char) : List Char := cs.dropWhile isSpace

/-- the rest behind an end of line -/
def newline? : List Char → Option (List Char)
  | '\n' :: rest => some rest
  | '\r' :: '\n' :: rest => some rest
  | _ => none

/-- characters that stand for themselves in strings and comments: no control character but the tab -/
def isTextChar (c : Char) : Bool := c = '\t' ∨ (' ' ≤ c ∧ c ≠ '\x7f')

/-- blanks and a comment, which end before the end of the line -/
def skipRemark (cs : List Char) : List Char :=
  match skipSpace cs with
  | '#' :: rest => rest.dropWhile isTextChar
  | rest => rest

/-- a remark up to the end of the line or of the text -/
def endOfLine? (cs : List Char) : Option (List Char) :=
  match skipRemark cs with
  | [] => some []
  | rest => newline? rest

/-- blanks, comments and ends of lines; each round drops at least one line -/
def skipLines : Nat → List Char → List Char
  | 0, cs => cs
  | fuel + 1, cs =>
    let rest := skipRemark cs
    match newline? rest with
    | some rest => skipLines fuel rest
    | none => rest

/-! ### Strings -/

def hexValue? (c : Char) : Option Nat :=
  if isDigit c then some (c.toNat - '0'.toNat)
  else if 'a' ≤ c ∧ c ≤ 'f' then some (c.toNat - 'a'.toNat + 10)
  else if 'A' ≤ c ∧ c ≤ 'F' then some (c.toNat - 'A'.toNat + 10)
  else none

/-- the character with a code of `width` hexadecimal digits; surrogates are none -/
def codePoint? (width : Nat) (cs : List Char) : Option (Char × List Char) :=
  if cs.length < width then none
  else do
    let ds ← (cs.take width).mapM hexValue?
    let n := ds.foldl (fun n d => n * 16 + d) 0
    if n.isValidChar then some (Char.ofNat n, cs.drop width) else none

/-- what follows a backslash -/
def escaped? : Read Char
  | 'b' :: rest => some ('\x08', rest)
  | 't' :: rest => some ('\t', rest)
  | 'n' :: rest => some ('\n', rest)
  | 'f' :: rest => some ('\x0c', rest)
  | 'r' :: rest => some ('\r', rest)
  | '"' :: rest => some ('"', rest)
  | '\\' :: rest => some ('\\', rest)
  | 'u' :: rest => codePoint? 4 rest
  | 'U' :: rest => codePoint? 8 rest
  | _ => none

/-- the rest of a string in double quotes -/
def basicString : Nat → Read (List Char)
  | 0, _ => none
  | _ + 1, [] => none
  | _ + 1, '"' :: rest => some ([], rest)
  | fuel + 1, '\\' :: rest => do
    let (c, rest) ← escaped? rest
    let (s, rest) ← basicString fuel rest
    return (c :: s, rest)
  | fuel + 1, c :: rest =>
    if isTextChar c then (basicString fuel rest).map fun r => (c :: r.1, r.2) else none

/-- the rest of a string in single quotes -/
def literalString (cs : List Char) : Option (List Char × List Char) :=
  let s := cs.takeWhile fun c => c ≠ '\'' ∧ isTextChar c
  match cs.drop s.length with
  | '\'' :: rest => some (s, rest)
  | _ => none

/-- blanks and ends of lines behind a backslash that ends a line -/
def skipFold : List Char → List Char
  | '\n' :: rest => skipFold rest
  | '\r' :: '\n' :: rest => skipFold rest
  | c :: rest => if isSpace c then skipFold rest else c :: rest
  | [] => []

/-- the end of a string in three quotes: up to two more quotes in front of them belong to it -/
def tripleEnd (quote : Char) (cs : List Char) : Option (List Char × List Char) :=
  let run := (cs.takeWhile (· = quote)).length
  if run < 3 then none
  else
    let inside := min (run - 3) 2
    some (List.replicate inside quote, cs.drop (inside + 3))

/-- the rest of a string in three double quotes -/
def longBasicString : Nat → Read (List Char)
  | 0, _ => none
  | fuel + 1, cs =>
    match tripleEnd '"' cs with
    | some r => some r
    | none =>
      match cs with
      | [] => none
      | '\\' :: rest =>
        match newline? (skipSpace rest) with
        | some rest => longBasicString fuel (skipFold rest)
        | none => do
          let (c, rest) ← escaped? rest
          let (s, rest) ← longBasicString fuel rest
          return (c :: s, rest)
      | c :: rest =>
        match newline? cs with
        | some rest => (longBasicString fuel rest).map fun r => ('\n' :: r.1, r.2)
        | none => if isTextChar c then (longBasicString fuel rest).map fun r => (c :: r.1, r.2) else none

/-- the rest of a string in three single quotes -/
def longLiteralString : Nat → Read (List Char)
  | 0, _ => none
  | fuel + 1, cs =>
    match tripleEnd '\'' cs with
    | some r => some r
    | none =>
      match cs with
      | [] => none
      | c :: rest =>
        match newline? cs with
        | some rest => (longLiteralString fuel rest).map fun r => ('\n' :: r.1, r.2)
        | none => if isTextChar c then (longLiteralString fuel rest).map fun r => (c :: r.1, r.2) else none

/-- without the end of line that directly follows an opening of three quotes -/
def skipFirstNewline (cs : List Char) : List Char := (newline? cs).getD cs

/-- a string of one line -/
def shortString? : Read String
  | '"' :: rest => (basicString (rest.length + 1) rest).map fun r => (String.ofList r.1, r.2)
  | '\'' :: rest => (literalString rest).map fun r => (String.ofList r.1, r.2)
  | _ => none

def string? (cs : List Char) : Option (String × List Char) :=
  match cs with
  | '"' :: '"' :: '"' :: rest =>
    (longBasicString (rest.length + 1) (skipFirstNewline rest)).map fun r => (String.ofList r.1, r.2)
  | '\'' :: '\'' :: '\'' :: rest =>
    (longLiteralString (rest.length + 1) (skipFirstNewline rest)).map fun r => (String.ofList r.1, r.2)
  | cs => shortString? cs

/-! ### Keys -/

def isBareKeyChar (c : Char) : Bool :=
  isDigit c ∨ ('a' ≤ c ∧ c ≤ 'z') ∨ ('A' ≤ c ∧ c ≤ 'Z') ∨ c = '_' ∨ c = '-'

def simpleKey? (cs : List Char) : Option (String × List Char) :=
  match cs.takeWhile isBareKeyChar with
  | [] => shortString? cs
  | key => some (String.ofList key, cs.dropWhile isBareKeyChar)

/-- simple keys with dots between them, blanks around each -/
def dottedKey? : Nat → Read (List String)
  | 0, _ => none
  | fuel + 1, cs => do
    let (key, rest) ← simpleKey? (skipSpace cs)
    match skipSpace rest with
    | '.' :: rest => (dottedKey? fuel rest).map fun r => (key :: r.1, r.2)
    | rest => some ([key], rest)

/-- values and keys nest less deep than this -/
def depthLimit : Nat := 80

/-- a key split into the tables on the way and its last part -/
def key? (cs : List Char) : Option ((List String × String) × List Char) := do
  let (keys, rest) ← dottedKey? (cs.length + 1) cs
  let last ← keys.getLast?
  if depthLimit ≤ keys.length then none else some ((keys.dropLast, last), rest)

/-! ### Numbers -/

/-- digits, of which any but the first may have one underscore in front -/
def moreDigits (digit : Char → Bool) : List Char → List Char × List Char
  | '_' :: c :: rest =>
    if digit c then
      let (ds, left) := moreDigits digit rest
      (c :: ds, left)
    else ([], '_' :: c :: rest)
  | c :: rest =>
    if digit c then
      let (ds, left) := moreDigits digit rest
      (c :: ds, left)
    else ([], c :: rest)
  | [] => ([], [])

def digits1? (digit : Char → Bool) : Read (List Char)
  | c :: rest =>
    if digit c then
      let (ds, left) := moreDigits digit rest
      some (c :: ds, left)
    else none
  | [] => none

/-- a sign, `true` for minus -/
def sign (cs : List Char) : Bool × List Char :=
  match cs with
  | '-' :: rest => (true, rest)
  | '+' :: rest => (false, rest)
  | rest => (false, rest)

/-- decimal digits without a leading zero -/
def decimalDigits? : Read (List Char)
  | '0' :: rest => some (['0'], rest)
  | cs => digits1? isDigit cs

def valueIn (base : Nat) (ds : List Char) : Nat :=
  ds.foldl (fun n c => n * base + (hexValue? c).getD 0) 0

/-- integers are those of 64 bits with sign -/
def integer (negative : Bool) (n : Nat) : Option Item :=
  if negative then (if n ≤ Nat.pow 2 63 then some (.integer (-(n : Int))) else none)
  else if n < Nat.pow 2 63 then some (.integer n) else none

def prefixed? (base : Nat) (digit : Char → Bool) (cs : List Char) : Option (Item × List Char) := do
  let (ds, rest) ← digits1? digit cs
  let item ← integer false (valueIn base ds)
  return (item, rest)

def isHexDigit (c : Char) : Bool := (hexValue? c).isSome

def isOctalDigit (c : Char) : Bool := '0' ≤ c ∧ c ≤ '7'

def isBinaryDigit (c : Char) : Bool := c = '0' ∨ c = '1'

def integer? (cs : List Char) : Option (Item × List Char) :=
  match cs with
  | '0' :: 'x' :: rest => prefixed? 16 isHexDigit rest
  | '0' :: 'o' :: rest => prefixed? 8 isOctalDigit rest
  | '0' :: 'b' :: rest => prefixed? 2 isBinaryDigit rest
  | cs => do
    let (negative, rest) := sign cs
    let (ds, rest) ← decimalDigits? rest
    let item ← integer negative (valueIn 10 ds)
    return (item, rest)

/-- the sign and the digits of an exponent; `none` in front of it means that there is no exponent here -/
def exponent? (cs : List Char) : Option (Option (Int × List Char)) :=
  match cs with
  | c :: rest =>
    if c = 'e' ∨ c = 'E' then
      let (down, rest) := sign rest
      some ((digits1? isDigit rest).map fun r =>
        let n : Int := valueIn 10 r.1
        (if down then -n else n, r.2))
    else none
  | [] => none

/-- A number with a fraction, an exponent or both, rounded to the nearest double. One too large is refused, unless it
is negative: then it is the negative infinity. -/
def decimalFloat (negative : Bool) (whole fraction : List Char) (exponent : Int) : Option Item :=
  let x := Decimal.nearest (valueIn 10 (whole ++ fraction)) (exponent - fraction.length)
  if negative then some (.float (-x)) else if x.isInf then none else some (.float x)

/-- `some none`: this is no float; `none`: it is one, and malformed -/
def float? (cs : List Char) : Option (Option (Item × List Char)) :=
  let (negative, rest) := sign cs
  match rest with
  | 'i' :: 'n' :: 'f' :: rest =>
    let x := Float.ofBits 0x7ff0000000000000
    some (some (.float (if negative then -x else x), rest))
  | 'n' :: 'a' :: 'n' :: rest => some (some (.float (Float.ofBits 0x7ff8000000000000), rest))
  | rest =>
    match decimalDigits? rest with
    | none => some none
    | some (whole, rest) =>
      match rest with
      | '.' :: body => do
        let (fraction, rest) ← digits1? isDigit body
        match exponent? rest with
        | none => return some (← decimalFloat negative whole fraction 0, rest)
        | some none => none
        | some (some (e, rest)) => return some (← decimalFloat negative whole fraction e, rest)
      | rest =>
        match exponent? rest with
        | none => some none
        | some none => none
        | some (some (e, rest)) => do return some (← decimalFloat negative whole [] e, rest)

/-! ### Dates and times -/

def numberOf (ds : List Char) : Nat := valueIn 10 ds

def daysInMonth (year month : Nat) : Nat :=
  if month = 2 then (if year % 4 = 0 ∧ (year % 100 ≠ 0 ∨ year % 400 = 0) then 29 else 28)
  else if month = 4 ∨ month = 6 ∨ month = 9 ∨ month = 11 then 30
  else 31

/-- a two-digit number between `least` and `most` -/
def twoDigits? (least most : Nat) : Read Nat
  | a :: b :: rest =>
    let n := numberOf [a, b]
    if isDigit a ∧ isDigit b ∧ least ≤ n ∧ n ≤ most then some (n, rest) else none
  | _ => none

/-- the rest behind `HH:MM:SS` with an optional fraction -/
def time? (cs : List Char) : Option (List Char) := do
  let (_, cs) ← twoDigits? 0 23 cs
  let cs ← match cs with
    | ':' :: rest => some rest
    | _ => none
  let (_, cs) ← twoDigits? 0 59 cs
  let cs ← match cs with
    | ':' :: rest => some rest
    | _ => none
  let (_, cs) ← twoDigits? 0 60 cs
  match cs with
  | '.' :: d :: rest => if isDigit d then some (rest.dropWhile isDigit) else some cs
  | _ => some cs

/-- the rest behind `Z` or a signed `HH:MM`, if there is an offset -/
def offset? (cs : List Char) : Option (List Char) :=
  let size (rest : List Char) : Option (List Char) := do
    let (_, rest) ← twoDigits? 0 23 rest
    match rest with
    | ':' :: rest => (twoDigits? 0 59 rest).map Prod.snd
    | _ => none
  match cs with
  | 'Z' :: rest => some rest
  | 'z' :: rest => some rest
  | '+' :: rest => size rest
  | '-' :: rest => size rest
  | rest => some rest

/-- the rest behind the month and the day of a date in `year` -/
def monthDay? (year : Nat) (cs : List Char) : Option (List Char) := do
  let (month, cs) ← twoDigits? 1 12 cs
  let cs ← match cs with
    | '-' :: rest => some rest
    | _ => none
  let (_, cs) ← twoDigits? 1 (daysInMonth year month) cs
  return cs

/-- a time with an offset may follow a date -/
def timeOfDay? (cs : List Char) : Option (List Char) :=
  match cs with
  | c :: rest =>
    if c = 'T' ∨ c = 't' ∨ (c = ' ' ∧ (rest.take 3).length = 3 ∧ (rest.take 2).all isDigit ∧ rest[2]? = some ':') then
      (time? rest).bind offset?
    else some cs
  | [] => some []

/-- the rest behind a date, a time or both; `some none`: the text does not look like any -/
def datetime? (cs : List Char) : Option (Option (List Char)) :=
  let head := (cs.takeWhile isDigit).length
  match cs.drop head with
  | '-' :: rest =>
    if head = 4 then do return some (← timeOfDay? (← monthDay? (numberOf (cs.take 4)) rest)) else some none
  | ':' :: _ => if head = 2 then (time? cs).map some else some none
  | _ => some none

end SensorNode.Toml
