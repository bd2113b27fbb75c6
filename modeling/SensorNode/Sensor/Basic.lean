/-
Sensors as the rest of the node sees them, and registers of sensors by id.
-/
import SensorNode.Keyed
import SensorNode.Metric

namespace SensorNode

/-- a sensor: which instrument it is, its id, and the metrics it produces -/
structure Sensor where
  instrument : Nat
  id : String
  metrics : List Metric
  deriving DecidableEq, Repr, Inhabited

/-- it produces at least one of the metrics -/
def Sensor.supportsAny (s : Sensor) (requested : List Metric) : Bool :=
  s.metrics.any fun m => requested.contains m

/-- sensors by id -/
abbrev Register := Keyed String Sensor

namespace Register

/-- puts a sensor under its id, in the place of any other with that id -/
def add (r : Register) (s : Sensor) : Register := r.insert s.id s

def addAll (r : Register) (sensors : List Sensor) : Register := sensors.foldl add r

def ofSensors (sensors : List Sensor) : Register := addAll ∅ sensors

/-- the metrics that some sensor of the register produces, in order -/
def supportedMetrics (r : Register) : List Metric := Metric.sortedSet (r.values.flatMap Sensor.metrics)

/-- the sensors of a scan that are new to the register, and the ids of the register that the scan did not find -/
def diff (r : Register) (found : List Sensor) : List Sensor × List String :=
  (found.filter fun s => !r.contains s.id, r.keys.filter fun id => !(found.any fun s => s.id = id))

end Register

end SensorNode
