/-
What a change in the ledger does to the site. Changes that cannot be read do nothing. A removal needs only the id of
the entity; anything else needs all of it.
-/
import SensorNode.Site.Basic

namespace SensorNode.Site

/-- An asset that is near the device is kept, and one that is not, or is gone, is dropped. Nothing is near a device
that is not logged on. -/
def applyAsset (s : Site) (event : ChangeEvent) : Site :=
  match event.kind with
  | .removed =>
    match event.decode? Entity.idOfRaw? with
    | some id => { s with assets := s.assets.erase id }
    | none => s
  | .inserted | .updated =>
    match event.decode? Asset.ofRaw? with
    | some asset =>
      match s.identity.location? with
      | some origin => s.putNear asset origin
      | none => { s with assets := s.assets.erase asset.id }
    | none => s

/-- The device's own entry becomes its identity, and its removal is announced. So is a move, which is an update that
takes it farther than the threshold. Entries of other devices do nothing. -/
def applyDevice (s : Site) (event : ChangeEvent) : Site :=
  match event.kind with
  | .removed =>
    match event.decode? Entity.idOfRaw? with
    | some id => if id = s.identity.id then s.emit .removed else s
    | none => s
  | .inserted | .updated =>
    match event.decode? DeviceModel.ofRaw? with
    | some device =>
      if device.id = s.identity.id then
        let (previous, identity) := s.identity.adopt device
        let s := { s with identity }
        match previous with
        | some old =>
          if event.kind = .updated ∧ ¬old.location.isNear device.location s.threshold then
            s.emit (.moved old.location device.location)
          else s
        | none => s
      else s
    | none => s

/-- Requirements are submitted, which is announced if they are accepted; removed ones are withdrawn. -/
def applyRequirements (s : Site) (event : ChangeEvent) : Site :=
  match event.kind with
  | .removed =>
    match event.decode? Entity.idOfRaw? with
    | some id => { s with toPlanner := (s.withdraw id).2 }
    | none => s
  | .inserted | .updated =>
    match event.decode? Requirements.ofRaw? with
    | some q =>
      let (accepted, planner) := s.submit q
      let s := { s with toPlanner := planner }
      match accepted with
      | some r => s.emit (.submitted [r])
      | none => s
    | none => s

/-- a change of one topic -/
def applyChange (s : Site) (topic : Topic) (event : ChangeEvent) : Site :=
  match topic with
  | .assets => s.applyAsset event
  | .devices => s.applyDevice event
  | .requirements => s.applyRequirements event

end SensorNode.Site
