/-
The JSON forms of entities. Each entity has a writer `toJson`, with its fields in their order, and a reader `ofRaw?`,
which takes objects and arrays of fields alike.
-/
import SensorNode.Entity.Basic
import SensorNode.Json.Shape
import SensorNode.Reduction

namespace SensorNode

open Json

namespace Metric

def ofRaw? (r : Raw) : Option Metric := r.text?.map Metric.mk

def toJson (m : Metric) : Json := .string m.name

def listOfRaw? (r : Raw) : Option (List Metric) := r.list? ofRaw?

def listToJson (metrics : List Metric) : Json := .array (metrics.map toJson)

end Metric

namespace Location

def fieldNames : List String := ["latitude", "longitude"]

def ofRaw? (r : Raw) : Option Location := do
  let fields ← r.fields? fieldNames
  let latitude ← fields.required? "latitude" Raw.real?
  let longitude ← fields.required? "longitude" Raw.real?
  return ⟨latitude, longitude⟩

def toJson (l : Location) : Json :=
  .object [("latitude", ofReal l.latitude), ("longitude", ofReal l.longitude)]

end Location

namespace Asset

def fieldNames : List String := ["id", "name", "sku", "location"]

def ofRaw? (r : Raw) : Option Asset := do
  let fields ← r.fields? fieldNames
  let id ← fields.required? "id" Raw.text?
  let name ← fields.defaulted? "name" "" Raw.text?
  let sku ← fields.defaulted? "sku" none (Raw.nullable? Raw.text?)
  let location ← fields.required? "location" Location.ofRaw?
  return ⟨id, name, sku, location⟩

def toJson (a : Asset) : Json :=
  .object [("id", .string a.id), ("name", .string a.name), ("sku", (a.sku.map Json.string).getD .null),
    ("location", a.location.toJson)]

end Asset

namespace DeviceModel

def fieldNames : List String := ["id", "name", "hostname", "location", "supports"]

def ofRaw? (r : Raw) : Option DeviceModel := do
  let fields ← r.fields? fieldNames
  let id ← fields.required? "id" Raw.text?
  let name ← fields.defaulted? "name" "" Raw.text?
  let hostname ← fields.defaulted? "hostname" "" Raw.text?
  let location ← fields.required? "location" Location.ofRaw?
  let supports ← fields.defaulted? "supports" [] Metric.listOfRaw?
  return ⟨id, name, hostname, location, supports⟩

def toJson (d : DeviceModel) : Json :=
  .object [("id", .string d.id), ("name", .string d.name), ("hostname", .string d.hostname),
    ("location", d.location.toJson), ("supports", Metric.listToJson d.supports)]

end DeviceModel

namespace Requirements

def fieldNames : List String := ["id", "asset_id", "metrics", "period"]

def ofRaw? (r : Raw) : Option Requirements := do
  let fields ← r.fields? fieldNames
  let id ← fields.required? "id" Raw.text?
  let assetId ← fields.required? "asset_id" Raw.text?
  let metrics ← fields.required? "metrics" Metric.listOfRaw?
  let period ← fields.defaulted? "period" 0 Raw.word?
  return ⟨id, assetId, metrics, period⟩

def toJson (q : Requirements) : Json :=
  .object [("id", .string q.id), ("asset_id", .string q.assetId), ("metrics", Metric.listToJson q.metrics),
    ("period", .number (.integer q.period.toNat))]

end Requirements

namespace DevicePatch

def fieldNames : List String := ["supports", "location"]

def ofRaw? (r : Raw) : Option DevicePatch := do
  let fields ← r.fields? fieldNames
  let supports ← fields.optional? "supports" Metric.listOfRaw?
  let location ← fields.optional? "location" Location.ofRaw?
  return ⟨supports, location⟩

/-- fields that are not set are left out -/
def toJson (p : DevicePatch) : Json :=
  .object <|
    (p.supports.map fun s => ("supports", Metric.listToJson s)).toList ++
    (p.location.map fun l => ("location", l.toJson)).toList

end DevicePatch

namespace ReadingsRecord

def fieldNames : List String := ["record_id", "requirements_id", "asset_id", "device_id", "timestamp", "values"]

/-- readings by metric name; the last of several readings of one metric counts -/
def readingsOfRaw? : Raw → Option Readings
  | .object members => do
    let entries ← members.mapM fun m => do
      let name ← m.1
      let x ← m.2.real?
      return (Metric.mk name, x)
    return Keyed.ofList entries
  | _ => none

def readingsToJson (values : Readings) : Json :=
  .object (values.entries.map fun e => (e.1.name, ofReal e.2))

def ofRaw? (r : Raw) : Option ReadingsRecord := do
  let fields ← r.fields? fieldNames
  let recordId ← fields.required? "record_id" Raw.text?
  let requirementsId ← fields.required? "requirements_id" Raw.text?
  let assetId ← fields.required? "asset_id" Raw.text?
  let deviceId ← fields.required? "device_id" Raw.text?
  let timestamp ← fields.required? "timestamp" fun v => v.text?.bind Instant.parse?
  let values ← fields.required? "values" readingsOfRaw?
  return ⟨recordId, requirementsId, assetId, deviceId, timestamp, values⟩

def toJson (p : ReadingsRecord) : Json :=
  .object [("record_id", .string p.recordId), ("requirements_id", .string p.requirementsId),
    ("asset_id", .string p.assetId), ("device_id", .string p.deviceId), ("timestamp", .string p.timestamp.text),
    ("values", readingsToJson p.values)]

end ReadingsRecord

namespace Reduction

def ofRaw? (r : Raw) : Option Reduction := r.choice? ofName?

def toJson (p : Reduction) : Json := .string p.name

end Reduction

/-- The entity that a removal names: only its id counts, in an object or as the only item of an array. -/
def Entity.idOfRaw? (r : Raw) : Option String := do
  let fields ← r.fields? ["id"]
  fields.required? "id" Raw.text?

end SensorNode
