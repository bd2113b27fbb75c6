/-
Geofence: positions on the globe, the great-circle distance between them, and the test whether one lies near another.
A distance that is no number is never near.
-/
namespace SensorNode

/-- latitude and longitude in degrees -/
structure Location where
  latitude : Float
  longitude : Float
  deriving Inhabited, DecidableEq

namespace Location

/-- mean radius of the earth in metres -/
def earthRadius : Float := 6371000.0

/-- the double nearest to π -/
def pi : Float := Float.ofBits 0x400921fb54442d18

/-- one degree in radians -/
def radiansPerDegree : Float := pi / 180.0

def radians (degrees : Float) : Float := degrees * radiansPerDegree

def squared (x : Float) : Float := x * x

/-- the haversine formula for the great-circle distance in metres -/
def haversine (a b : Location) : Float :=
  let lat1 := radians a.latitude
  let lat2 := radians b.latitude
  let dLat := lat2 - lat1
  let dLon := radians (b.longitude - a.longitude)
  let h := squared (Float.sin (dLat / 2.0)) + lat1.cos * lat2.cos * squared (Float.sin (dLon / 2.0))
  2.0 * earthRadius * Float.atan2 h.sqrt (1.0 - h).sqrt

def isFinite (a : Location) : Bool := a.latitude.isFinite && a.longitude.isFinite

def notANumber : Float := Float.ofBits 0x7ff8000000000000

/-- Great-circle distance in metres. A place is no distance away from itself; coordinates that are not finite are no
place, and their distance from anything is not a number. -/
def distance (a b : Location) : Float :=
  if a.isFinite && b.isFinite then if a = b then 0.0 else haversine a b else notANumber

/-- within `threshold` metres of `origin` -/
def isNear (a origin : Location) (threshold : Float) : Bool := a.distance origin ≤ threshold

end Location

end SensorNode
