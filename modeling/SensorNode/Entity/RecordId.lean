/-
Record identifiers: 128-bit identifiers that start with the time of their making, so that they sort by it (version 7),
written as groups of hexadecimal digits.
-/
import SensorNode.Entity.Basic

namespace SensorNode

namespace RecordId

/-- the lowest `width` hexadecimal digits of `n` -/
def hex (width n : Nat) : List Char :=
  match width with
  | 0 => []
  | width + 1 => hex width (n / 16) ++ [Nat.digitChar (n % 16)]

/-- The identifier for a time in milliseconds and random bits: 48 bits of time, the version, 12 random bits, the
variant and 62 random bits. -/
def make (millis random : Nat) : String :=
  let high := random / Nat.pow 2 62 % Nat.pow 2 12
  let low := random % Nat.pow 2 62
  String.ofList <|
    hex 8 (millis / Nat.pow 2 16) ++ ['-'] ++ hex 4 millis ++ ['-', '7'] ++ hex 3 high ++ ['-'] ++
    hex 4 (Nat.pow 2 15 + low / Nat.pow 2 48) ++ ['-'] ++ hex 12 low

end RecordId

/-- a record made at a time in milliseconds since the start of 1970, with random bits for its id -/
def ReadingsRecord.make (millis random : Nat) (requirementsId assetId deviceId : String) (values : Readings) :
    ReadingsRecord where
  recordId := RecordId.make millis random
  requirementsId := requirementsId
  assetId := assetId
  deviceId := deviceId
  timestamp := ⟨(millis / 1000 : Nat), millis % 1000 * 1000000⟩
  values := values

end SensorNode
