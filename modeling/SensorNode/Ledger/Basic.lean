/-
The ledger in the process itself. It stores assets, devices and requirements, and tells the open streams of a topic
about each entity that is put or removed. An update by patch changes the stored device and is recorded, and tells
nobody.
-/
import SensorNode.Entity.Change

namespace SensorNode

/-- a stream of changes of one topic -/
structure ChangeStream where
  topic : Topic
  /-- everything sent to it, oldest first -/
  events : List ChangeEvent
  /-- how many of them have been read -/
  read : Nat
  /-- the ledger has closed it: it ends when all has been read -/
  closed : Bool
  /-- its reader has given it up -/
  dropped : Bool
  deriving Inhabited

namespace ChangeStream

def isOpen (s : ChangeStream) : Bool := !s.closed && !s.dropped

def unread (s : ChangeStream) : List ChangeEvent := s.events.drop s.read

def hasEnded (s : ChangeStream) : Bool := s.closed && s.unread.isEmpty

end ChangeStream

structure Ledger where
  assets : Keyed String Asset
  devices : Keyed String DeviceModel
  requirements : Keyed String Requirements
  /-- every stream ever opened -/
  streams : List ChangeStream
  /-- posted records, oldest first -/
  posted : List ReadingsRecord
  /-- patches of devices as they were received, oldest first -/
  updates : List (String × DevicePatch)

namespace Ledger

def new : Ledger := ⟨∅, ∅, ∅, [], [], []⟩

/-- sends an event to the open streams of a topic; nothing is stored -/
def publish (l : Ledger) (topic : Topic) (event : ChangeEvent) : Ledger :=
  { l with
    streams := l.streams.map fun s =>
      if s.topic = topic ∧ s.isOpen then { s with events := s.events ++ [event] } else s }

/-- an entity that was there is updated, another is inserted -/
def putKind (existed : Bool) : ChangeKind := if existed then .updated else .inserted

def putAsset (l : Ledger) (a : Asset) : Ledger :=
  publish { l with assets := l.assets.insert a.id a } .assets
    (.of (putKind (l.assets.contains a.id)) a.toJson)

def putDevice (l : Ledger) (d : DeviceModel) : Ledger :=
  publish { l with devices := l.devices.insert d.id d } .devices
    (.of (putKind (l.devices.contains d.id)) d.toJson)

def putRequirements (l : Ledger) (q : Requirements) : Ledger :=
  publish { l with requirements := l.requirements.insert q.id q } .requirements
    (.of (putKind (l.requirements.contains q.id)) q.toJson)

def removeAsset (l : Ledger) (id : String) : Ledger :=
  match l.assets.find? id with
  | some a => publish { l with assets := l.assets.erase id } .assets (.of .removed a.toJson)
  | none => l

def removeDevice (l : Ledger) (id : String) : Ledger :=
  match l.devices.find? id with
  | some d => publish { l with devices := l.devices.erase id } .devices (.of .removed d.toJson)
  | none => l

def removeRequirements (l : Ledger) (id : String) : Ledger :=
  match l.requirements.find? id with
  | some q => publish { l with requirements := l.requirements.erase id } .requirements (.of .removed q.toJson)
  | none => l

/-- a stream of the changes from now on -/
def subscribe (l : Ledger) (topic : Topic) : Nat × Ledger :=
  (l.streams.length, { l with streams := l.streams ++ [⟨topic, [], 0, false, false⟩] })

/-- how often streams of a topic were asked for -/
def subscribeCalls (l : Ledger) (topic : Topic) : Nat := (l.streams.filter fun s => s.topic = topic).length

def updateStream (l : Ledger) (stream : Nat) (change : ChangeStream → ChangeStream) : Ledger :=
  { l with streams := l.streams.modify stream change }

/-- the reader of a stream gives it up -/
def dropStream (l : Ledger) (stream : Nat) : Ledger :=
  l.updateStream stream fun s => { s with dropped := true }

/-- the next event of a stream, if one waits -/
def next? (l : Ledger) (stream : Nat) : Option (ChangeEvent × Ledger) :=
  (l.streams[stream]?).bind fun s =>
    s.unread.head?.map fun event => (event, l.updateStream stream fun s => { s with read := s.read + 1 })

/-- closes every open stream -/
def close (l : Ledger) : Ledger :=
  { l with streams := l.streams.map fun s => { s with closed := true } }

def post (l : Ledger) (record : ReadingsRecord) : Ledger := { l with posted := l.posted ++ [record] }

/-- overwrites fields of a stored device -/
def updateDevice (l : Ledger) (id : String) (patch : DevicePatch) : Ledger :=
  { l with
    updates := l.updates ++ [(id, patch)]
    devices := l.devices.modify id patch.apply }

/-- the requirements for any of the assets -/
def requirementsFor (l : Ledger) (assetIds : List String) : List Requirements :=
  l.requirements.values.filter fun q => assetIds.contains q.assetId

end Ledger

end SensorNode
