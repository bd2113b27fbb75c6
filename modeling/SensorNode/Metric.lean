/-
Metrics: the physical quantities that sensors measure, told apart by their exact names. Sets of metrics are listed in
the order of their names, code point by code point.
-/
namespace SensorNode

/-- a physical quantity, such as `temperature` -/
structure Metric where
  name : String
  deriving DecidableEq, Repr, Inhabited

namespace Metric

/-- names in code point order, which is also the order of their encoded bytes -/
def le (a b : Metric) : Bool := a.name ≤ b.name

/-- the distinct members of a list, in name order -/
def sortedSet (metrics : List Metric) : List Metric := metrics.eraseDups.mergeSort le

def temperature : Metric := ⟨"temperature"⟩
def humidity : Metric := ⟨"humidity"⟩
def luminosity : Metric := ⟨"luminosity"⟩
def vibration : Metric := ⟨"vibration"⟩
def magnetism : Metric := ⟨"magnetism"⟩
def airCo2 : Metric := ⟨"air_co2"⟩
def airTvoc : Metric := ⟨"air_tvoc"⟩
def heartRate : Metric := ⟨"heart_rate"⟩
def bloodOxygen : Metric := ⟨"blood_oxygen"⟩
def current : Metric := ⟨"current"⟩

end Metric

end SensorNode
