/-
JSON values. Integers of 64 bits stay integers; every other number is a binary64 number.
-/
namespace SensorNode

/-- a number: an integer between -2^63 and 2^64 - 1, or a binary64 number -/
inductive Json.Number
  | integer (n : Int)
  | real (x : Float)
  deriving Inhabited, DecidableEq

/-- a JSON value; the members of an object are listed in the order in which they are written -/
inductive Json
  | null
  | bool (b : Bool)
  | number (n : Json.Number)
  | string (s : String)
  | array (items : List Json)
  | object (members : List (String × Json))
  deriving Inhabited

namespace Json

/-- members in the order of their keys; of several with one key the last stays -/
def sortedMembers (members : List (String × Json)) : List (String × Json) :=
  let distinct := members.reverse.foldl
    (fun kept m => if kept.any (fun k => k.1 = m.1) then kept else m :: kept) []
  distinct.mergeSort fun a b => a.1 ≤ b.1

mutual

/-- the same value with the members of every object in key order -/
def sorted : Json → Json
  | null => null
  | bool b => bool b
  | number n => number n
  | string s => string s
  | array items => array (sortedItems items)
  | object members => object (sortedMembers (sortedEntries members))

def sortedItems : List Json → List Json
  | [] => []
  | v :: vs => sorted v :: sortedItems vs

def sortedEntries : List (String × Json) → List (String × Json)
  | [] => []
  | (k, v) :: ms => (k, sorted v) :: sortedEntries ms

end

/-- a binary64 number as JSON writes it: what is not finite has no number -/
def ofReal (x : Float) : Json := if x.isFinite then number (.real x) else null

end Json

end SensorNode
