/-
The reading of JSON text. `Raw` is what a text says before anything is asked of it: numbers beyond the range of
doubles and strings with half a surrogate pair are grammatical, and only fail when they are looked at; repeated keys
are kept. `Raw.toJson?` looks at everything, within a limit on nesting.
-/
import SensorNode.Decimal.Reading
import SensorNode.Json.Tree

namespace SensorNode.Json

/-- the tree of a grammatical text -/
inductive Raw
  | null
  | bool (b : Bool)
  /-- `none`: beyond the range of binary64 -/
  | number (n : Option Number)
  /-- `none`: an escaped surrogate without its partner -/
  | string (s : Option String)
  | array (items : List Raw)
  | object (members : List (Option String × Raw))
  deriving Inhabited

/-- a grammatical number: sign, digits before and after the point, and the exponent with its sign -/
structure Numeral where
  negative : Bool
  whole : List Char
  fraction : Option (List Char)
  exponent : Option (Bool × List Char)

def isDigit (c : Char) : Bool := '0' ≤ c ∧ c ≤ '9'

def digitValue (c : Char) : Nat := c.toNat - '0'.toNat

def isBlank (c : Char) : Bool := c = ' ' ∨ c = '\n' ∨ c = '\t' ∨ c = '\r'

def skipBlank (cs : List Char) : List Char := cs.dropWhile isBlank

/-! ### Numbers -/

/-- the largest integer that fits -/
def largestInteger : Nat := Nat.pow 2 64 - 1

/-- reads digits while the integer fits; what is left over, with the integer read so far -/
def gather (significand : Nat) : List Char → Nat × List Char
  | [] => (significand, [])
  | c :: rest =>
    let next := significand * 10 + digitValue c
    if next ≤ largestInteger then gather next rest else (significand, c :: rest)

/-- the exponent of a number; one beyond 2^31 only matters by its sign -/
def exponentOf : Option (Bool × List Char) → Option Int
  | none => some 0
  | some (down, ds) =>
    let n := ds.foldl (fun n c => n * 10 + digitValue c) 0
    if Nat.pow 2 31 ≤ n then none else some (if down then -(n : Int) else n)

/-- The number of a numeral: an integer if it is written as one and fits, and otherwise the digits that fit into 64
bits, scaled. Digits of the whole part that do not fit count as powers of ten, digits of the fraction that do not fit
are dropped. -/
def Numeral.number? (n : Numeral) : Option Number :=
  let signed (x : Float) : Number := .real (if n.negative then -x else x)
  let (whole, excess) := gather 0 n.whole
  match n.fraction, n.exponent, excess with
  | none, none, [] =>
    if n.negative then
      if whole = 0 ∨ Nat.pow 2 63 < whole then some (signed (Float.ofNat whole)) else some (.integer (-(whole : Int)))
    else some (.integer whole)
  | fraction, exponent, excess =>
    let ds := fraction.getD []
    let (significand, dropped) := gather whole ds
    let shift := (excess.length : Int) - ((ds.length - dropped.length : Nat) : Int)
    match exponentOf exponent with
    | some e => (Decimal.scaled significand (shift + e)).map signed
    | none =>
      match exponent with
      | some (false, _) => if significand = 0 then some (signed 0.0) else none
      | _ => some (signed 0.0)

/-- a run of digits, at least one -/
def digits1 (cs : List Char) : Option (List Char × List Char) :=
  match cs.takeWhile isDigit with
  | [] => none
  | ds => some (ds, cs.dropWhile isDigit)

/-- digits before the point: a zero stands alone -/
def wholePart (cs : List Char) : Option (List Char × List Char) :=
  match digits1 cs with
  | some ('0' :: _ :: _, _) => none
  | r => r

def fractionPart : List Char → Option (Option (List Char) × List Char)
  | '.' :: cs => (digits1 cs).map fun r => (some r.1, r.2)
  | cs => some (none, cs)

def exponentPart (cs : List Char) : Option (Option (Bool × List Char) × List Char) :=
  match cs with
  | c :: rest =>
    if c = 'e' ∨ c = 'E' then
      let (down, body) := match rest with
        | '+' :: r => (false, r)
        | '-' :: r => (true, r)
        | r => (false, r)
      (digits1 body).map fun r => (some (down, r.1), r.2)
    else some (none, cs)
  | [] => some (none, [])

def numeral (cs : List Char) : Option (Numeral × List Char) := do
  let (negative, cs) := match cs with
    | '-' :: r => (true, r)
    | r => (false, r)
  let (whole, cs) ← wholePart cs
  let (fraction, cs) ← fractionPart cs
  let (exponent, cs) ← exponentPart cs
  return (⟨negative, whole, fraction, exponent⟩, cs)

/-! ### Strings -/

/-- what a string is written with: characters, and 16-bit units behind `\u` -/
inductive Piece
  | char (c : Char)
  | unit (n : Nat)

def hexValue? (c : Char) : Option Nat :=
  if isDigit c then some (digitValue c)
  else if 'a' ≤ c ∧ c ≤ 'f' then some (c.toNat - 'a'.toNat + 10)
  else if 'A' ≤ c ∧ c ≤ 'F' then some (c.toNat - 'A'.toNat + 10)
  else none

/-- the character behind a backslash other than `u` -/
def escaped? : Char → Option Char
  | '"' => some '"'
  | '\\' => some '\\'
  | '/' => some '/'
  | 'b' => some '\x08'
  | 'f' => some '\x0c'
  | 'n' => some '\n'
  | 'r' => some '\r'
  | 't' => some '\t'
  | _ => none

/-- the pieces up to the closing quote; control characters must be escaped -/
def stringBody : List Char → Option (List Piece × List Char)
  | [] => none
  | '"' :: rest => some ([], rest)
  | '\\' :: 'u' :: a :: b :: c :: d :: rest => do
    let n := (((← hexValue? a) * 16 + (← hexValue? b)) * 16 + (← hexValue? c)) * 16 + (← hexValue? d)
    let (pieces, rest) ← stringBody rest
    return (.unit n :: pieces, rest)
  | '\\' :: e :: rest => do
    let c ← escaped? e
    let (pieces, rest) ← stringBody rest
    return (.char c :: pieces, rest)
  | c :: rest =>
    if c < ' ' ∨ c = '\\' then none
    else do
      let (pieces, rest) ← stringBody rest
      return (.char c :: pieces, rest)

def isHighSurrogate (n : Nat) : Bool := 0xd800 ≤ n ∧ n < 0xdc00

def isLowSurrogate (n : Nat) : Bool := 0xdc00 ≤ n ∧ n < 0xe000

/-- the characters of a string; a surrogate counts only next to its partner -/
def assemble : List Piece → Option (List Char)
  | [] => some []
  | .char c :: rest => (assemble rest).map (c :: ·)
  | .unit n :: .unit m :: rest =>
    if isHighSurrogate n then
      if isLowSurrogate m then
        (assemble rest).map (Char.ofNat (0x10000 + (n - 0xd800) * 0x400 + (m - 0xdc00)) :: ·)
      else none
    else if isLowSurrogate n then none
    else (assemble (.unit m :: rest)).map (Char.ofNat n :: ·)
  | .unit n :: rest =>
    if isHighSurrogate n || isLowSurrogate n then none else (assemble rest).map (Char.ofNat n :: ·)

def stringOf (pieces : List Piece) : Option String := (assemble pieces).map String.ofList

/-! ### Values -/

mutual

/-- a value at the front of the text; every step into it costs one unit of `fuel` -/
def value : Nat → List Char → Option (Raw × List Char)
  | 0, _ => none
  | fuel + 1, cs =>
    match skipBlank cs with
    | 'n' :: 'u' :: 'l' :: 'l' :: rest => some (.null, rest)
    | 't' :: 'r' :: 'u' :: 'e' :: rest => some (.bool true, rest)
    | 'f' :: 'a' :: 'l' :: 's' :: 'e' :: rest => some (.bool false, rest)
    | '"' :: rest => (stringBody rest).map fun r => (.string (stringOf r.1), r.2)
    | '[' :: rest =>
      match skipBlank rest with
      | ']' :: rest => some (.array [], rest)
      | rest => (items fuel rest).map fun r => (.array r.1, r.2)
    | '{' :: rest =>
      match skipBlank rest with
      | '}' :: rest => some (.object [], rest)
      | rest => (members fuel rest).map fun r => (.object r.1, r.2)
    | rest => (numeral rest).map fun r => (.number r.1.number?, r.2)

/-- the items of an array behind its bracket, at least one -/
def items : Nat → List Char → Option (List Raw × List Char)
  | 0, _ => none
  | fuel + 1, cs => do
    let (v, rest) ← value fuel cs
    match skipBlank rest with
    | ',' :: rest => (items fuel rest).map fun r => (v :: r.1, r.2)
    | ']' :: rest => some ([v], rest)
    | _ => none

/-- the members of an object behind its brace, at least one -/
def members : Nat → List Char → Option (List (Option String × Raw) × List Char)
  | 0, _ => none
  | fuel + 1, cs =>
    match skipBlank cs with
    | '"' :: rest => do
      let (pieces, rest) ← stringBody rest
      match skipBlank rest with
      | ':' :: rest =>
        let (v, rest) ← value fuel rest
        match skipBlank rest with
        | ',' :: rest => (members fuel rest).map fun r => ((stringOf pieces, v) :: r.1, r.2)
        | '}' :: rest => some ([(stringOf pieces, v)], rest)
        | _ => none
      | _ => none
    | _ => none

end

/-- the tree of a text that holds one value and nothing else -/
def Raw.ofChars? (cs : List Char) : Option Raw :=
  match value (2 * cs.length + 2) cs with
  | some (v, rest) => if (skipBlank rest).isEmpty then some v else none
  | none => none

def Raw.parse? (text : String) : Option Raw := Raw.ofChars? text.toList

/-! ### Looking at everything -/

/-- a whole text has at most this many arrays and objects inside one another -/
def nestingLimit : Nat := 127

mutual

/-- the value of a tree that nests at most `depth` deep; the last of several members with one key counts -/
def Raw.toJson? (depth : Nat) : Raw → Option Json
  | .null => some .null
  | .bool b => some (.bool b)
  | .number n => n.map .number
  | .string s => s.map .string
  | .array items => if depth = 0 then none else (Raw.toItems? (depth - 1) items).map .array
  | .object members =>
    if depth = 0 then none else (Raw.toMembers? (depth - 1) members).map fun ms => .object (sortedMembers ms)

def Raw.toItems? (depth : Nat) : List Raw → Option (List Json)
  | [] => some []
  | v :: vs => do
    let v ← Raw.toJson? depth v
    let vs ← Raw.toItems? depth vs
    return v :: vs

def Raw.toMembers? (depth : Nat) : List (Option String × Raw) → Option (List (String × Json))
  | [] => some []
  | (k, v) :: ms => do
    let k ← k
    let v ← Raw.toJson? depth v
    let ms ← Raw.toMembers? depth ms
    return (k, v) :: ms

end

/-- the value that a text holds -/
def parse? (text : String) : Option Json := (Raw.parse? text).bind (Raw.toJson? nestingLimit)

mutual

/-- a value as the tree of a text that holds it -/
def toRaw : Json → Raw
  | null => .null
  | bool b => .bool b
  | number n => .number (some n)
  | string s => .string (some s)
  | array items => .array (toRawItems items)
  | object members => .object (toRawMembers members)

def toRawItems : List Json → List Raw
  | [] => []
  | v :: vs => toRaw v :: toRawItems vs

def toRawMembers : List (String × Json) → List (Option String × Raw)
  | [] => []
  | (k, v) :: ms => (some k, toRaw v) :: toRawMembers ms

end

end SensorNode.Json
