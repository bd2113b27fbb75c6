/-
Durations in whole milliseconds and their texts.
-/
namespace SensorNode

/-- a length of time in milliseconds -/
structure Duration where
  millis : Nat
  deriving DecidableEq, Repr, Inhabited

namespace Duration

def ofSeconds (n : Nat) : Duration := ⟨n * 1000⟩

/-- whole seconds, and the rest in nanoseconds -/
def parts (d : Duration) : Nat × Nat := (d.millis / 1000, d.millis % 1000 * 1000000)

/-- three digits of thousandths without trailing zeros, behind a point -/
def thousandths (n : Nat) : List Char :=
  if n = 0 then []
  else
    let ds := [n / 100, n / 10 % 10, n % 10]
    '.' :: ((ds.reverse.dropWhile (· = 0)).reverse.map Nat.digitChar)

/-- seconds from one second on, milliseconds below, and no time at all in nanoseconds -/
def text (d : Duration) : String :=
  if d.millis = 0 then "0ns"
  else if d.millis < 1000 then toString d.millis ++ "ms"
  else toString (d.millis / 1000) ++ String.ofList (thousandths (d.millis % 1000)) ++ "s"

end Duration

end SensorNode
