/-
Layout of decimals: where positional notation ends, what an exponent looks like and whether a whole number keeps its
point. The two layouts in use are `wire` (numbers inside JSON) and `plain` (numbers inside messages).
-/
import SensorNode.Decimal.Shortest

namespace SensorNode.Decimal

/-- the decisions of a number format -/
structure Layout where
  /-- the places of the decimal point, counted from the first digit, for which the number is written positionally -/
  positional : Int → Bool
  /-- a whole number ends in `.0` -/
  keepsPoint : Bool
  /-- a positive exponent has its sign -/
  signsExponent : Bool
  notANumber : String
  infinity : String

/-- Numbers in JSON: positional from 0.00001 to below 10^16, a whole number keeps its point, and neither NaN nor
infinity has a text of its own. -/
def Layout.wire : Layout where
  positional point := -5 < point ∧ point ≤ 16
  keepsPoint := true
  signsExponent := true
  notANumber := "null"
  infinity := "null"

/-- Numbers in messages: always positional, whole numbers without a point. -/
def Layout.plain : Layout where
  positional _ := true
  keepsPoint := false
  signsExponent := false
  notANumber := "NaN"
  infinity := "inf"

/-- the decimal digits of `n` -/
def digitsOf (n : Nat) : List Char := Nat.toDigits 10 n

def zeros (n : Nat) : List Char := List.replicate n '0'

/-- digits with the decimal point after the first `point` of them, padded with zeros on either side -/
def placed (layout : Layout) (ds : List Char) (point : Int) : List Char :=
  if point ≤ 0 then ['0', '.'] ++ zeros (-point).toNat ++ ds
  else if ds.length ≤ point.toNat then
    ds ++ zeros (point.toNat - ds.length) ++ (if layout.keepsPoint then ['.', '0'] else [])
  else ds.take point.toNat ++ ['.'] ++ ds.drop point.toNat

/-- one digit, the point, the other digits and the exponent -/
def scientific (layout : Layout) (ds : List Char) (point : Int) : List Char :=
  let exponent := point - 1
  let sign := if exponent < 0 then ['-'] else if layout.signsExponent then ['+'] else []
  (match ds with
    | [] => []
    | [d] => [d]
    | d :: rest => d :: '.' :: rest) ++ ['e'] ++ sign ++ digitsOf exponent.natAbs

/-- the text of a decimal without its sign -/
def Value.text (layout : Layout) (d : Value) : List Char :=
  let ds := digitsOf d.digits
  let point := (ds.length : Int) + d.exponent
  if d.digits = 0 then ['0'] ++ (if layout.keepsPoint then ['.', '0'] else [])
  else if layout.positional point then placed layout ds point
  else scientific layout ds point

/-- the text of a binary64 number -/
def chars (layout : Layout) (x : Float) : List Char :=
  match Binary.ofBits? x.toBits with
  | some b => (if b.negative then ['-'] else []) ++ b.shortest.text layout
  | none =>
    if x.isNaN then layout.notANumber.toList
    else if x < 0.0 ∧ layout.infinity ≠ layout.notANumber then '-' :: layout.infinity.toList
    else layout.infinity.toList

/-- the text of a binary64 number -/
def text (layout : Layout) (x : Float) : String := String.ofList (chars layout x)

end SensorNode.Decimal
