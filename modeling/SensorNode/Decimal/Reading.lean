/-
Reading decimals. `nearest` is the correctly rounded number; `scaled` multiplies or divides the rounded significand by
a power of ten and may miss the nearest number by a unit in the last place.
-/
import SensorNode.Decimal.Shortest

namespace SensorNode.Decimal

/-- the binary64 number nearest to `digits · 10^exponent`; beyond the range it is infinite or zero -/
def nearest (digits : Nat) (exponent : Int) : Float :=
  let point := (digitCount digits : Int) + exponent
  if digits = 0 ∨ point < -400 then 0.0
  else if 400 < point then Float.ofBits 0x7ff0000000000000
  else Float.ofScientific digits (exponent < 0) exponent.natAbs

/-- the binary64 number nearest to `10^n` -/
def powerOfTen (n : Nat) : Float := Float.ofScientific 1 false n

/-- `x · 10^exponent` by one rounded product or quotient for each 308 powers of ten; `none` when it is infinite -/
def scaleBy (x : Float) (exponent : Int) : Option Float :=
  if exponent.natAbs ≤ 308 then
    if 0 ≤ exponent then
      let y := x * powerOfTen exponent.natAbs
      if y.isInf then none else some y
    else some (x / powerOfTen exponent.natAbs)
  else if x == 0.0 then some x
  else if h : 0 ≤ exponent then none
  else scaleBy (x / powerOfTen 308) (exponent + 308)
termination_by (-exponent).toNat
decreasing_by omega

/-- `significand · 10^exponent`, the significand rounded first -/
def scaled (significand : Nat) (exponent : Int) : Option Float :=
  scaleBy (Float.ofNat significand) exponent

end SensorNode.Decimal
