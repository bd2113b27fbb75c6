/-
The device as a whole. To the site it adds the life cycle and the two registers of its sensors: those that are fixed,
and those that scans of the sensor buses have discovered.
-/
import SensorNode.Site.Watch

namespace SensorNode

/-- where a device is in its life; it only moves forward -/
inductive Lifecycle
  | uninitialized
  | initialized
  | operating
  | closed
  deriving DecidableEq, Repr, Inhabited

def Lifecycle.name : Lifecycle → String
  | .uninitialized => "Uninitialized"
  | .initialized => "Initialized"
  | .operating => "Operating"
  | .closed => "Closed"

/-- the place of a state in the order of life -/
def Lifecycle.rank : Lifecycle → Nat
  | .uninitialized => 0
  | .initialized => 1
  | .operating => 2
  | .closed => 3

/-- the registers of a device -/
inductive Partition
  | fixed
  | discovered
  deriving DecidableEq, Repr, Inhabited

structure Device extends Site where
  lifecycle : Lifecycle
  fixed : Register
  discovered : Register
  /-- how long a scan of the buses may take -/
  scanTimeout : Duration

namespace Device

def new (id : String) (harvestTimeout scanTimeout : Duration) (policy : Reduction) (threshold : Float) : Device where
  toSite := .new id harvestTimeout policy threshold
  lifecycle := .uninitialized
  fixed := ∅
  discovered := ∅
  scanTimeout := scanTimeout

/-- the sensors in use; a fixed one hides a discovered one with its id -/
def supportedSensors (d : Device) : List Sensor :=
  d.fixed.values ++ d.discovered.values.filter fun s => !d.fixed.contains s.id

/-- the metrics of the sensors in use, in order -/
def supportedMetrics (d : Device) : List Metric := Metric.sortedSet (d.supportedSensors.flatMap Sensor.metrics)

def updateFleet (d : Device) (change : Fleet → Fleet) : Device :=
  { d with engine := { d.engine with fleet := change d.engine.fleet } }

/-- takes sensors out of a register, and then puts others into it -/
def place (d : Device) (partition : Partition) (added : List Sensor) (removed : List String) : Device :=
  let change (r : Register) : Register := Register.addAll (removed.foldl Keyed.erase r) added
  match partition with
  | .fixed => { d with fixed := change d.fixed }
  | .discovered => { d with discovered := change d.discovered }

/-- while the device is operating, the engine's pool is the sensors in use -/
def syncPool (d : Device) : Device :=
  if d.lifecycle = .operating then { d with engine := d.engine.replaceSensors d.supportedSensors } else d

end Device

end SensorNode
