/-
The identity of a device on its network: its id, which never changes, and the entry that the ledger holds for it, once
the ledger has confirmed it.
-/
import SensorNode.Entity.Basic

namespace SensorNode

structure Identity where
  id : String
  /-- the confirmed entry; without one the device is not logged on -/
  model : Option DeviceModel
  deriving DecidableEq, Inhabited

namespace Identity

/-- not logged on -/
def ofId (id : String) : Identity := ⟨id, none⟩

def isLoggedOn (i : Identity) : Bool := i.model.isSome

def location? (i : Identity) : Option Location := i.model.map DeviceModel.location

/-- takes an entry in the place of the previous one, which it hands back -/
def adopt (i : Identity) (model : DeviceModel) : Option DeviceModel × Identity :=
  (i.model, { i with model := some model })

/-- logs off; hands back the entry there was -/
def clear (i : Identity) : Option DeviceModel × Identity := (i.model, { i with model := none })

end Identity

end SensorNode
