/-
What the ledger keeps: assets, devices and the requirements that ask a device to read metrics for an asset; and what a
device sends back: updates of its own entry and records of readings.
-/
import SensorNode.Geofence
import SensorNode.Instant
import SensorNode.Keyed
import SensorNode.Metric

namespace SensorNode

/-- a tracked physical thing -/
structure Asset where
  id : String
  name : String
  sku : Option String
  location : Location
  deriving Inhabited, DecidableEq

/-- the ledger's entry for a device -/
structure DeviceModel where
  id : String
  name : String
  hostname : String
  location : Location
  /-- the metrics it can read at present -/
  supports : List Metric
  deriving Inhabited, DecidableEq

/-- an order to read metrics for an asset -/
structure Requirements where
  id : String
  assetId : String
  metrics : List Metric
  /-- seconds between readings; zero asks for one reading -/
  period : UInt64
  deriving Inhabited, DecidableEq

/-- the fields of a device's entry to overwrite -/
structure DevicePatch where
  supports : Option (List Metric)
  location : Option Location
  deriving Inhabited, DecidableEq

/-- one reading for each metric that has one -/
abbrev Readings := Keyed Metric Float

/-- the readings of one cycle, as they are posted -/
structure ReadingsRecord where
  recordId : String
  requirementsId : String
  assetId : String
  deviceId : String
  timestamp : Instant
  values : Readings

/-- the entry with the given fields overwritten -/
def DevicePatch.apply (patch : DevicePatch) (device : DeviceModel) : DeviceModel :=
  { device with
    supports := patch.supports.getD device.supports
    location := patch.location.getD device.location }

/-- entity classes, each with its own stream of changes -/
inductive Topic
  | assets
  | devices
  | requirements
  deriving DecidableEq, Repr, Inhabited

def Topic.name : Topic → String
  | .assets => "assets"
  | .devices => "devices"
  | .requirements => "requirements"

/-- what happened to an entity -/
inductive ChangeKind
  | inserted
  | updated
  | removed
  deriving DecidableEq, Repr, Inhabited

def ChangeKind.name : ChangeKind → String
  | .inserted => "inserted"
  | .updated => "updated"
  | .removed => "removed"

def ChangeKind.ofName? : String → Option ChangeKind
  | "inserted" => some .inserted
  | "updated" => some .updated
  | "removed" => some .removed
  | _ => none

end SensorNode
