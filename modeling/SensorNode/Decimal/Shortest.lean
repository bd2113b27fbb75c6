/-
Shortest decimals: the fewest digits that still read back as a given binary64 number. A number m · 2^q is what every
real of an interval around it rounds to; for 1, 2, … 17 digits the two neighbours of the number on that decimal grid
are tried, in whole numbers, and the first grid with a neighbour inside the interval wins.
-/
namespace SensorNode.Decimal

/-- `digits · 10^exponent` -/
structure Value where
  digits : Nat
  exponent : Int
  deriving DecidableEq, Repr

/-- the parts of a finite binary64 number, `± significand · 2^exponent` -/
structure Binary where
  negative : Bool
  significand : Nat
  exponent : Int
  /-- the neighbour below is half as far away as the one above -/
  lopsided : Bool
  deriving DecidableEq, Repr

/-- the parts of the number with these bits, if it is finite -/
def Binary.ofBits? (bits : UInt64) : Option Binary :=
  let field := ((bits >>> 52) &&& 0x7ff).toNat
  let fraction := (bits &&& 0xfffffffffffff).toNat
  let negative := bits >>> 63 = 1
  if field = 0x7ff then none
  else if field = 0 then some ⟨negative, fraction, -1074, false⟩
  else some ⟨negative, fraction + Nat.pow 2 52, (field : Int) - 1075, fraction = 0 ∧ 1 < field⟩

/-- the reals between `low / den` and `high / den`, around `mid / den`; the ends belong to it or not -/
structure Span where
  low : Nat
  mid : Nat
  high : Nat
  den : Nat
  closed : Bool

/-- the reals that round to the number; ends included when the significand is even -/
def Binary.span (b : Binary) : Span :=
  let shift := (b.exponent - 2).toNat
  let scale := Nat.pow 2 shift
  { low := (4 * b.significand - if b.lopsided then 1 else 2) * scale
    mid := 4 * b.significand * scale
    high := (4 * b.significand + 2) * scale
    den := Nat.pow 2 (2 - b.exponent).toNat
    closed := b.significand % 2 = 0 }

/-- number of decimal digits of `n` -/
def digitCount (n : Nat) : Nat := (Nat.toDigits 10 n).length

/-- digits before the decimal point of `num / den`, negative for zeros after the point -/
def pointOf (num den : Nat) : Int :=
  if den ≤ num then digitCount (num / den)
  else 1 - (digitCount ((den + num - 1) / num - 1) : Int)

/-- `c · 10^exponent` lies in the span -/
def Span.contains (s : Span) (c : Nat) (exponent : Int) : Bool :=
  let left := c * Nat.pow 10 exponent.toNat * s.den
  let up := Nat.pow 10 (-exponent).toNat
  if s.closed then s.low * up ≤ left ∧ left ≤ s.high * up else s.low * up < left ∧ left < s.high * up

/-- the neighbour on the grid of `10^exponent` that reads back, the nearer of two, the even one in a tie -/
def Span.onGrid? (s : Span) (exponent : Int) : Option Value :=
  let num := s.mid * Nat.pow 10 (-exponent).toNat
  let den := s.den * Nat.pow 10 exponent.toNat
  let below := num / den
  let rest := num % den
  let above := below + 1
  match s.contains below exponent, s.contains above exponent with
  | true, false => some ⟨below, exponent⟩
  | false, true => some ⟨above, exponent⟩
  | true, true =>
    if 2 * rest < den ∨ (2 * rest = den ∧ below % 2 = 0) then some ⟨below, exponent⟩ else some ⟨above, exponent⟩
  | false, false => none

/-- the first grid from `digits` digits on with a neighbour that reads back -/
def Span.search (s : Span) (point : Int) : Nat → Nat → Option Value
  | _, 0 => none
  | digits, more + 1 =>
    match s.onGrid? (point - digits) with
    | some d => some d
    | none => s.search point (digits + 1) more

/-- without trailing zeros; at most `fuel` of them are dropped -/
def Value.trim (d : Value) : Nat → Value
  | 0 => d
  | fuel + 1 =>
    if d.digits ≠ 0 ∧ d.digits % 10 = 0 then Value.trim ⟨d.digits / 10, d.exponent + 1⟩ fuel else d

/-- the fewest digits that read back as the number; zero is `0 · 10^0` -/
def Binary.shortest (b : Binary) : Value :=
  if b.significand = 0 then ⟨0, 0⟩
  else
    let s := b.span
    match s.search (pointOf s.mid s.den) 1 17 with
    | some d => d.trim 20
    | none => ⟨0, 0⟩

end SensorNode.Decimal
