/-
Reading domain values out of JSON trees. A record may be written as an object, in which unknown members are skipped
and known ones must not repeat, or as an array of its fields in their order, of which only a tail may be left out.
-/
import SensorNode.Json.Raw

namespace SensorNode.Json

namespace Raw

def text? : Raw → Option String
  | .string s => s
  | _ => none

/-- any number, as a binary64 number -/
def real? : Raw → Option Float
  | .number (some (.integer n)) => some (Float.ofInt n)
  | .number (some (.real x)) => some x
  | _ => none

/-- an integer of 64 bits without sign -/
def word? : Raw → Option UInt64
  | .number (some (.integer n)) => if 0 ≤ n ∧ n < Nat.pow 2 64 then some (UInt64.ofNat n.toNat) else none
  | _ => none

def list? {α : Type} (item? : Raw → Option α) : Raw → Option (List α)
  | .array items => items.mapM item?
  | _ => none

/-- `null`, or a value -/
def nullable? {α : Type} (item? : Raw → Option α) : Raw → Option (Option α)
  | .null => some none
  | v => (item? v).map some

/-- one of several names: the name itself, or an object with the name as its only key and `null` under it -/
def choice? {α : Type} (ofName? : String → Option α) : Raw → Option α
  | .string s => s.bind ofName?
  | .object [(k, .null)] => k.bind ofName?
  | _ => none

end Raw

/-- the fields of a record as they were found -/
structure Fields where
  find : String → Option Raw
  /-- the record was written as an array -/
  positional : Bool

/-- The fields called `names`. In an object no known key repeats and every key is a proper string; in an array there
are no more items than names. -/
def Raw.fields? (names : List String) : Raw → Option Fields
  | .object members =>
    if members.any (fun m => m.1.isNone) then none
    else
      let known := members.filter fun m => names.any fun n => m.1 = some n
      if known.length = (known.map Prod.fst).eraseDups.length then
        some ⟨fun n => (known.find? fun m => m.1 = some n).map Prod.snd, false⟩
      else none
  | .array items =>
    if names.length < items.length then none
    else some ⟨fun n => (names.zip items).find? (fun p => p.1 = n) |>.map Prod.snd, true⟩
  | _ => none

namespace Fields

variable {α : Type}

/-- a field that must be there -/
def required? (fields : Fields) (name : String) (item? : Raw → Option α) : Option α :=
  (fields.find name).bind item?

/-- a field that has a value of its own when it is left out -/
def defaulted? (fields : Fields) (name : String) (missing : α) (item? : Raw → Option α) : Option α :=
  match fields.find name with
  | some v => item? v
  | none => some missing

/-- a nullable field that an object, but not an array, may leave out -/
def optional? (fields : Fields) (name : String) (item? : Raw → Option α) : Option (Option α) :=
  match fields.find name with
  | some v => v.nullable? item?
  | none => if fields.positional then none else some none

end Fields

end SensorNode.Json
