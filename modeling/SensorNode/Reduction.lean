/-
Reduction: several samples of one metric become the one reading of a cycle. Nothing is made of nothing: `reduce_nil`
and `isSome_reduce` say that there is a reading exactly when there is a sample.
-/
import SensorNode.Sample

namespace SensorNode

/-- how the samples of one cycle are made into one reading -/
inductive Reduction
  | mean
  | median
  | min
  | max
  deriving DecidableEq, Repr, Inhabited

namespace Reduction

/-- the arithmetic mean; the sum starts at negative zero, the neutral element, and runs from left to right -/
def meanOf (samples : List Sample) : Float :=
  samples.foldl (fun sum s => sum + s.value) (-0.0) / Float.ofNat samples.length

/-- the middle sample in the total order, or half the sum of the middle two -/
def medianOf (samples : List Sample) : Float :=
  let sorted := samples.mergeSort Sample.le
  let mid := sorted.length / 2
  let upper := (sorted.getD mid default).value
  if sorted.length % 2 = 0 then ((sorted.getD (mid - 1) default).value + upper) / 2.0 else upper

/-- the smaller of two numbers, a NaN counting as absent and the first winning a tie -/
def lesser (a b : Float) : Float := if a.isNaN then b else if b < a then b else a

/-- the larger of two numbers, a NaN counting as absent and the first winning a tie -/
def greater (a b : Float) : Float := if a.isNaN then b else if a < b then b else a

def positiveInfinity : Float := Float.ofBits 0x7ff0000000000000

def negativeInfinity : Float := Float.ofBits 0xfff0000000000000

def minOf (samples : List Sample) : Float :=
  samples.foldl (fun least s => lesser least s.value) positiveInfinity

def maxOf (samples : List Sample) : Float :=
  samples.foldl (fun most s => greater most s.value) negativeInfinity

/-- the reading made of `samples`, if there are any -/
def reduce (policy : Reduction) (samples : List Sample) : Option Float :=
  if samples.isEmpty then none else some <|
    match policy with
    | .mean => meanOf samples
    | .median => medianOf samples
    | .min => minOf samples
    | .max => maxOf samples

@[simp] theorem reduce_nil (policy : Reduction) : policy.reduce [] = none := rfl

theorem isSome_reduce (policy : Reduction) (samples : List Sample) :
    (policy.reduce samples).isSome ↔ samples ≠ [] := by
  cases samples <;> simp [reduce]

/-- the name of a policy in settings and messages -/
def name : Reduction → String
  | .mean => "mean"
  | .median => "median"
  | .min => "min"
  | .max => "max"

def ofName? : String → Option Reduction
  | "mean" => some .mean
  | "median" => some .median
  | "min" => some .min
  | "max" => some .max
  | _ => none

end Reduction

end SensorNode
