/-
The link to the ledger. A call over it may fail, and then the ledger knows nothing of it.
-/
import SensorNode.Ledger.Basic

namespace SensorNode

/-- what went wrong, and during what, outermost first -/
structure Failure where
  causes : List String
  deriving DecidableEq, Repr, Inhabited

namespace Failure

def of (cause : String) : Failure := ⟨[cause]⟩

def during (f : Failure) (context : String) : Failure := ⟨context :: f.causes⟩

def message (f : Failure) : String := ": ".intercalate f.causes

end Failure

/-- the calls that a node makes -/
inductive LedgerCall
  | subscribe (topic : Topic)
  | post
  | updateDevice
  | queryDevice
  | queryAssets
  | queryRequirements
  deriving DecidableEq, Repr, Inhabited

structure LedgerLink where
  ledger : Ledger
  /-- the calls that fail at present, each with what it fails with -/
  outages : Keyed LedgerCall String

namespace LedgerLink

def new : LedgerLink := ⟨.new, ∅⟩

/-- a call goes through, or fails -/
def attempt {α : Type} (k : LedgerLink) (call : LedgerCall) (value : α) : Except Failure α :=
  match k.outages.find? call with
  | some cause => .error (.of cause)
  | none => .ok value

def subscribe (k : LedgerLink) (topic : Topic) : Except Failure (Nat × LedgerLink) :=
  let (stream, ledger) := k.ledger.subscribe topic
  k.attempt (.subscribe topic) (stream, { k with ledger })

def post (k : LedgerLink) (record : ReadingsRecord) : Except Failure LedgerLink :=
  k.attempt .post { k with ledger := k.ledger.post record }

def updateDevice (k : LedgerLink) (id : String) (patch : DevicePatch) : Except Failure LedgerLink :=
  k.attempt .updateDevice { k with ledger := k.ledger.updateDevice id patch }

def queryDevice (k : LedgerLink) (id : String) : Except Failure (Option DeviceModel) :=
  k.attempt .queryDevice (k.ledger.devices.find? id)

def queryAssets (k : LedgerLink) : Except Failure (List Asset) := k.attempt .queryAssets k.ledger.assets.values

def queryRequirements (k : LedgerLink) (assetIds : List String) : Except Failure (List Requirements) :=
  k.attempt .queryRequirements (k.ledger.requirementsFor assetIds)

end LedgerLink

end SensorNode
