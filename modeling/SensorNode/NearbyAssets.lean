/-
The assets near a device, by id. An asset comes in through the geofence; one that has moved out of it is dropped like
one that is gone.
-/
import SensorNode.Entity.Basic

namespace SensorNode

/-- assets by id -/
abbrev Assets := Keyed String Asset

namespace Assets

/-- puts an asset under its id -/
def put (m : Assets) (a : Asset) : Assets := m.insert a.id a

/-- Puts an asset that lies within `threshold` metres of `origin`, and drops the entry of any other. Tells whether the
asset is there afterwards. -/
def putNear (m : Assets) (a : Asset) (origin : Location) (threshold : Float) : Assets × Bool :=
  if a.location.isNear origin threshold then (m.put a, true) else (m.erase a.id, false)

end Assets

end SensorNode
