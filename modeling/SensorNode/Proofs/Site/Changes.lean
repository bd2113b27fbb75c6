/-
What one change does to what a site keeps. A change says of one id what is under it now. The asset of that id becomes
what was said if it is near, and nothing else is touched (`applyAsset_find?`, `applyAsset_eq`). The device's own entry
becomes its identity (`applyDevice_identity`). The requirements of that id become what was said if their asset is kept at
that moment (`applyRequirements_find?`); besides them only the engine and the bus are touched (`applyRequirements_eq`).

A listener with a stream takes the first event that waits there and does to the site what the event says
(`listen_of_unread`); what is put or removed reaches the open streams of its topic (`Serves.told`).
-/
import SensorNode.Proofs.Entity.Wire
import SensorNode.Proofs.Planning.Run
import SensorNode.Site.Watch

namespace SensorNode

/-! ## What changes say -/

namespace ChangeEvent

section

variable {α : Type} (ofRaw? : Json.Raw → Option α) (key : α → String)

/-- what a change says: an id, and the entity that is under it now -/
def news? (event : ChangeEvent) : Option (String × Option α) :=
  match event.kind with
  | .removed => (event.decode? Entity.idOfRaw?).map fun id => (id, none)
  | .inserted | .updated => (event.decode? ofRaw?).map fun v => (key v, some v)

/-- what a change says of an id, if it is about it -/
def newsOf (id : String) (event : ChangeEvent) : Option (Option α) :=
  ((event.news? ofRaw? key).filter fun said => said.1 = id).map Prod.snd

variable {ofRaw? key}

theorem newsOf_of_none {event : ChangeEvent} (h : event.news? ofRaw? key = none) (id : String) :
    event.newsOf ofRaw? key id = none := by
  rw [newsOf, h]
  rfl

theorem newsOf_of_some {event : ChangeEvent} {id : String} {v : Option α}
    (h : event.news? ofRaw? key = some (id, v)) (id' : String) :
    event.newsOf ofRaw? key id' = if id' = id then some v else none := by
  rw [newsOf, h, Option.filter_some]
  by_cases hid : id = id'
  · simp [hid]
  · simp [hid, Ne.symm hid]

/-- an entity is under its own id -/
theorem key_eq_of_news? {event : ChangeEvent} {id : String} {v : α}
    (h : event.news? ofRaw? key = some (id, some v)) : key v = id := by
  unfold news? at h
  split at h <;>
    · obtain ⟨v', -, he⟩ := Option.map_eq_some_iff.1 h
      cases he <;> rfl

/-- an entity that can be read back is said to be under its id when it is put -/
theorem news?_put {entity : Json} {v : α}
    (h : ∀ kind, (ChangeEvent.of kind entity).decode? ofRaw? = some v) (existed : Bool) :
    (ChangeEvent.of (Ledger.putKind existed) entity).news? ofRaw? key = some (key v, some v) := by
  have hdecode := h (Ledger.putKind existed)
  unfold news?
  cases existed <;> exact congrArg (Option.map fun v => (key v, some v)) hdecode

/-- of a removed entity it is said that nothing is under its id -/
theorem news?_removed {entity : Json} {id : String}
    (h : (ChangeEvent.of .removed entity).decode? Entity.idOfRaw? = some id) :
    (ChangeEvent.of .removed entity).news? ofRaw? key = some (id, none) :=
  congrArg (Option.map fun id => (id, none)) h

end

def asset? : ChangeEvent → Option (String × Option Asset) := news? Asset.ofRaw? Asset.id

def assetOf : String → ChangeEvent → Option (Option Asset) := newsOf Asset.ofRaw? Asset.id

def deviceOf : String → ChangeEvent → Option (Option DeviceModel) := newsOf DeviceModel.ofRaw? DeviceModel.id

def requirements? : ChangeEvent → Option (String × Option Requirements) := news? Requirements.ofRaw? Requirements.id

def requirementsOf : String → ChangeEvent → Option (Option Requirements) := newsOf Requirements.ofRaw? Requirements.id

theorem asset?_put {a : Asset} (h : a.location.isFinite = true) (existed : Bool) :
    (ChangeEvent.of (Ledger.putKind existed) a.toJson).asset? = some (a.id, some a) :=
  news?_put (Asset.decode_of h) existed

theorem asset?_removed (a : Asset) : (ChangeEvent.of .removed a.toJson).asset? = some (a.id, none) :=
  news?_removed (Asset.decode_id a .removed)

theorem requirements?_put (q : Requirements) (existed : Bool) :
    (ChangeEvent.of (Ledger.putKind existed) q.toJson).requirements? = some (q.id, some q) :=
  news?_put (Requirements.decode_of q) existed

end ChangeEvent

theorem Assets.putNear_find? (m : Assets) (a : Asset) (origin : Location) (threshold : Float) (id : String) :
    (m.putNear a origin threshold).1.find? id =
      if id = a.id then (if a.location.isNear origin threshold then some a else none) else m.find? id := by
  unfold Assets.putNear Assets.put
  split_ifs with hnear hid hid <;> simp [Keyed.find?_insert, Keyed.find?_erase, hid]

/-- the requirements that a request was made of -/
def ReadingsRequest.declared (r : ReadingsRequest) : Requirements := ⟨r.id, r.assetId, r.metrics, r.period⟩

namespace Site

variable {s : Site}

/-! ## Assets -/

/-- an asset as far as the site keeps it: it must be near, and nothing is near a device that is not logged on -/
def near (s : Site) (v : Option Asset) : Option Asset :=
  v.filter fun a => s.identity.location?.any fun origin => a.location.isNear origin s.threshold

theorem near_congr {s' : Site} (hidentity : s'.identity = s.identity) (hthreshold : s'.threshold = s.threshold)
    (v : Option Asset) : s'.near v = s.near v := by
  unfold near
  rw [hidentity, hthreshold]

theorem near_of_location {origin : Location} (h : s.identity.location? = some origin) (a : Asset) :
    s.near (some a) = if a.location.isNear origin s.threshold then some a else none := by
  unfold near
  rw [h, Option.filter_some]
  rfl

theorem putNear_find? (s : Site) (a : Asset) (origin : Location) (id : String) :
    (s.putNear a origin).assets.find? id =
      if id = a.id then (if a.location.isNear origin s.threshold then some a else none) else s.assets.find? id :=
  s.assets.putNear_find? a origin s.threshold id

/-- a change of assets touches nothing else -/
theorem applyAsset_eq (s : Site) (event : ChangeEvent) : ∃ assets, s.applyAsset event = { s with assets } := by
  unfold applyAsset putNear
  repeat' split
  all_goals exact ⟨_, rfl⟩

/-- the site with what it keeps of an asset that it has heard of -/
def heard (s : Site) : Option (String × Option Asset) → Site
  | none => s
  | some (id, none) => { s with assets := s.assets.erase id }
  | some (_, some a) =>
    match s.identity.location? with
    | some origin => s.putNear a origin
    | none => { s with assets := s.assets.erase a.id }

theorem applyAsset_eq_heard (s : Site) (event : ChangeEvent) : s.applyAsset event = s.heard event.asset? := by
  unfold applyAsset ChangeEvent.asset? ChangeEvent.news?
  cases event.kind with
  | removed => cases event.decode? Entity.idOfRaw? <;> rfl
  | inserted | updated => cases event.decode? Asset.ofRaw? <;> rfl

theorem heard_put_find? (s : Site) (a : Asset) (id : String) :
    (s.heard (some (a.id, some a))).assets.find? id = if id = a.id then s.near (some a) else s.assets.find? id := by
  unfold heard
  cases hl : s.identity.location? with
  | none =>
    have hnear : s.near (some a) = none := by unfold near; rw [hl]; rfl
    rw [hnear]
    exact Keyed.find?_erase ..
  | some origin =>
    rw [near_of_location hl]
    exact putNear_find? s a origin id

/-- the entry of the id that a change is about is what the change says, as far as it is near -/
theorem applyAsset_find? (s : Site) (event : ChangeEvent) (id : String) :
    (s.applyAsset event).assets.find? id =
      match event.assetOf id with
      | some v => s.near v
      | none => s.assets.find? id := by
  rw [applyAsset_eq_heard]
  match hnews : event.asset? with
  | none => rw [ChangeEvent.assetOf, ChangeEvent.newsOf_of_none hnews]; rfl
  | some (id', none) =>
    rw [ChangeEvent.assetOf, ChangeEvent.newsOf_of_some hnews]
    refine (Keyed.find?_erase ..).trans ?_
    split_ifs <;> rfl
  | some (id', some a) =>
    obtain rfl := ChangeEvent.key_eq_of_news? hnews
    rw [ChangeEvent.assetOf, ChangeEvent.newsOf_of_some hnews, heard_put_find?]
    split_ifs <;> rfl

/-! ## Devices -/

/-- a change of devices touches nothing but the identity and the bus -/
theorem applyDevice_eq (s : Site) (event : ChangeEvent) :
    ∃ identity bus, s.applyDevice event = { s with identity, bus } := by
  unfold applyDevice
  repeat' split
  all_goals first
    | exact ⟨s.identity, s.bus, rfl⟩
    | exact ⟨_, _, rfl⟩
    | (dsimp only; split_ifs <;> exact ⟨_, _, rfl⟩)

/-- the device's own entry becomes its identity, and nothing else does -/
theorem applyDevice_identity (s : Site) (event : ChangeEvent) :
    (s.applyDevice event).identity =
      match event.deviceOf s.identity.id with
      | some (some device) => (s.identity.adopt device).2
      | _ => s.identity := by
  unfold applyDevice ChangeEvent.deviceOf ChangeEvent.newsOf ChangeEvent.news?
  cases event.kind with
  | removed =>
    cases event.decode? Entity.idOfRaw? with
    | none => rfl
    | some id => by_cases hid : id = s.identity.id <;> simp [hid, emit, Option.filter_some]
  | inserted | updated =>
    cases event.decode? DeviceModel.ofRaw? with
    | none => rfl
    | some device =>
      by_cases hid : device.id = s.identity.id
      · cases hmodel : s.identity.model <;> simp [hid, hmodel, Identity.adopt, emit, apply_ite Site.identity, Option.filter_some]
      · simp [hid, Option.filter_some]

/-! ## Requirements -/

/-- the site with what becomes of requirements that it has heard of -/
def ordered (s : Site) : Option (String × Option Requirements) → Site
  | none => s
  | some (id, none) => { s with toPlanner := (s.withdraw id).2 }
  | some (_, some q) =>
    let s' := { s with toPlanner := (s.submit q).2 }
    match (s.submit q).1 with
    | some r => s'.emit (.submitted [r])
    | none => s'

theorem applyRequirements_eq_ordered (s : Site) (event : ChangeEvent) :
    s.applyRequirements event = s.ordered event.requirements? := by
  unfold applyRequirements ChangeEvent.requirements? ChangeEvent.news?
  cases event.kind with
  | removed => cases event.decode? Entity.idOfRaw? <;> rfl
  | inserted | updated => cases event.decode? Requirements.ofRaw? <;> rfl

/-- a change of requirements touches nothing but the requests, the engine and the events of the bus -/
theorem applyRequirements_eq (s : Site) (event : ChangeEvent) :
    ∃ engine requests events sent, s.applyRequirements event =
      { s with engine, requests, bus := { s.bus with events, sent } } := by
  rw [applyRequirements_eq_ordered]
  match event.requirements? with
  | none => exact ⟨_, _, _, _, rfl⟩
  | some (id, none) =>
    obtain ⟨engine, requests, hwithdraw⟩ := Planner.withdraw_eq s.toPlanner id
    exact ⟨engine, requests, _, _, congrArg (fun p => ({ s with toPlanner := p } : Site)) hwithdraw⟩
  | some (id, some q) =>
    obtain ⟨engine, requests, hsubmit⟩ := Planner.submit_eq s.toPlanner q
    unfold ordered
    dsimp only
    rw [hsubmit]
    split <;> exact ⟨engine, requests, _, _, rfl⟩

theorem submit_declared (p : Planner) (q : Requirements) (id : String) :
    ((p.submit q).2.requests.find? id).map ReadingsRequest.declared =
      if id = q.id then (if p.assets.contains q.assetId then some q else none)
      else (p.requests.find? id).map ReadingsRequest.declared := by
  have hdeclared : ∀ p : Planner, (p.activate (.ofRequirements q)).1.declared = q := fun p => by
    rcases Planner.activate_cases p (.ofRequirements q) with h | h | ⟨handle, engine, -, h⟩ <;> rw [h] <;> rfl
  rw [Planner.submit_find?]
  split_ifs
  · exact congrArg some (hdeclared _)
  · rfl
  · rfl

/-- whether the acceptance of requirements is announced or not, the planner is what submitting them makes of it -/
theorem ordered_planner (s : Site) (id : String) (q : Requirements) :
    (s.ordered (some (id, some q))).toPlanner = (s.submit q).2 := by
  unfold ordered
  dsimp only
  split <;> rfl

/-- the listener to requirements places and cancels orders, and touches nothing else of the engine -/
theorem applyRequirements_rebooked (s : Site) (event : ChangeEvent) :
    s.engine.Rebooked (s.applyRequirements event).engine := by
  rw [applyRequirements_eq_ordered]
  match event.requirements? with
  | none => exact .refl _
  | some (id, none) => exact Planner.withdraw_rebooked s.toPlanner id
  | some (id, some q) =>
    rw [ordered_planner]
    exact Planner.submit_rebooked s.toPlanner q

/-- requests that a change is not about stay as they are -/
theorem applyRequirements_find?_of_none (s : Site) {event : ChangeEvent} {id : String}
    (h : event.requirementsOf id = none) : (s.applyRequirements event).requests.find? id = s.requests.find? id := by
  have other : ∀ {id' v}, event.requirements? = some (id', v) → id ≠ id' := by
    rintro id' v hnews rfl
    rw [ChangeEvent.requirementsOf, ChangeEvent.newsOf_of_some hnews, if_pos rfl] at h
    cases h
  rw [applyRequirements_eq_ordered]
  match hnews : event.requirements? with
  | none => rfl
  | some (id', none) =>
    refine (Planner.withdraw_find? s.toPlanner id' id).trans ?_
    rw [if_neg (other hnews)]
  | some (id', some q) =>
    obtain rfl := ChangeEvent.key_eq_of_news? hnews
    rw [ordered_planner, Planner.submit_find?, if_neg (other hnews)]

/-- The requirements of the id that a change is about are those that the change says, if their asset is kept. -/
theorem applyRequirements_find? (s : Site) (event : ChangeEvent) (id : String) :
    ((s.applyRequirements event).requests.find? id).map ReadingsRequest.declared =
      match event.requirementsOf id with
      | some (some q) => if s.assets.contains q.assetId then some q else none
      | some none => none
      | none => (s.requests.find? id).map ReadingsRequest.declared := by
  rw [applyRequirements_eq_ordered]
  match hnews : event.requirements? with
  | none => rw [ChangeEvent.requirementsOf, ChangeEvent.newsOf_of_none hnews]; rfl
  | some (id', none) =>
    rw [ChangeEvent.requirementsOf, ChangeEvent.newsOf_of_some hnews]
    refine (congrArg _ (Planner.withdraw_find? s.toPlanner id' id)).trans ?_
    split_ifs <;> rfl
  | some (id', some q) =>
    obtain rfl := ChangeEvent.key_eq_of_news? hnews
    rw [ChangeEvent.requirementsOf, ChangeEvent.newsOf_of_some hnews, ordered_planner, submit_declared]
    by_cases hid : id = q.id
    · rw [if_pos hid, if_pos hid]
    · rw [if_neg hid, if_neg hid]

end Site

/-! ## Streams -/

namespace ChangeStream

variable {topic : Topic} {c : ChangeStream}

/-- the stream once its first unread event has been read -/
def next (c : ChangeStream) : ChangeStream := { c with read := c.read + 1 }

/-- what a stream is told of an event of some topic -/
def told (topic : Topic) (event : ChangeEvent) (c : ChangeStream) : ChangeStream :=
  if c.topic = topic ∧ c.isOpen then { c with events := c.events ++ [event] } else c

/-- an open stream of this topic -/
structure Serves (topic : Topic) (c : ChangeStream) : Prop where
  topic : c.topic = topic
  closed : c.closed = false
  dropped : c.dropped = false
  read : c.read ≤ c.events.length

theorem Serves.told (h : Serves topic c) (topic' : Topic) (event : ChangeEvent) :
    Serves topic (c.told topic' event) := by
  unfold ChangeStream.told
  split_ifs
  · exact ⟨h.topic, h.closed, h.dropped, h.read.trans (by simp)⟩
  · exact h

/-- a stream has what it is told of its topic, and nothing else, to be read last -/
theorem Serves.unread_told (h : Serves topic c) (topic' : Topic) (event : ChangeEvent) :
    (c.told topic' event).unread = c.unread ++ if topic = topic' then [event] else [] := by
  have hopen : c.isOpen = true := by
    unfold isOpen
    rw [h.closed, h.dropped]
    rfl
  unfold ChangeStream.told
  rw [h.topic, hopen]
  by_cases htopic : topic = topic'
  · rw [if_pos ⟨htopic, rfl⟩, if_pos htopic]
    exact List.drop_append_of_le_length h.read
  · rw [if_neg fun hand => htopic hand.1, if_neg htopic, List.append_nil]

theorem unread_next {event : ChangeEvent} {rest : List ChangeEvent} (h : c.unread = event :: rest) :
    c.next.unread = rest := by
  have htail : c.unread.tail = rest := by rw [h]; rfl
  rw [← htail]
  exact (List.tail_drop ..).symm

theorem Serves.next (h : Serves topic c) {event : ChangeEvent} {rest : List ChangeEvent} (hu : c.unread = event :: rest) :
    Serves topic c.next := by
  have hlt : c.read < c.events.length := by
    by_contra hge
    have hnone : c.unread = [] := List.drop_eq_nil_of_le (not_lt.1 hge)
    rw [hu] at hnone
    cases hnone
  exact ⟨h.topic, h.closed, h.dropped, hlt⟩

end ChangeStream

namespace Ledger

theorem next?_eq {l : Ledger} {stream : Nat} {c : ChangeStream} {event : ChangeEvent} {rest : List ChangeEvent}
    (hc : l.streams[stream]? = some c) (h : c.unread = event :: rest) :
    l.next? stream = some (event, l.updateStream stream ChangeStream.next) := by
  unfold next?
  rw [hc, Option.bind_some, h]
  rfl

theorem next?_none {l : Ledger} {stream : Nat} {c : ChangeStream} (hc : l.streams[stream]? = some c)
    (h : c.unread = []) : l.next? stream = none := by
  unfold next?
  rw [hc, Option.bind_some, h]
  rfl

theorem updateStream_getElem? (l : Ledger) (stream k : Nat) (change : ChangeStream → ChangeStream) :
    (l.updateStream stream change).streams[k]? = if stream = k then l.streams[k]?.map change else l.streams[k]? := by
  show (l.streams.modify stream change)[k]? = _
  rw [List.getElem?_modify]
  split_ifs <;> simp

end Ledger

/-- the stream that a listener has -/
def Listener.stream? (l : Listener) : Option Nat :=
  match l.stage with
  | .listening k => some k
  | _ => none

namespace Site

variable {s : Site} {n stream : Nat} {topic : Topic} {c : ChangeStream}

/-- the stream of the listener `n`, once it has asked for it -/
def stream? (s : Site) (n : Nat) : Option ChangeStream :=
  (s.watch.listeners[n]?.bind Listener.stream?).bind fun k => s.link.ledger.streams[k]?

theorem stream?_of_listening (hl : s.watch.listeners[n]? = some ⟨topic, .listening stream⟩) :
    s.stream? n = s.link.ledger.streams[stream]? := by
  unfold stream?
  rw [hl]
  rfl

theorem stream?_eq_some (hc : s.stream? n = some c) :
    ∃ topic k, s.watch.listeners[n]? = some ⟨topic, .listening k⟩ ∧ s.link.ledger.streams[k]? = some c := by
  obtain ⟨k, hk, hc⟩ := Option.bind_eq_some_iff.1 hc
  obtain ⟨⟨topic, stage⟩, hl, hstage⟩ := Option.bind_eq_some_iff.1 hk
  cases stage with
  | listening k' =>
    obtain rfl : k' = k := Option.some.inj hstage
    exact ⟨topic, k', hl, hc⟩
  | _ => cases hstage

theorem stream?_congr {s' : Site}
    (hlistener : s'.watch.listeners[n]?.bind Listener.stream? = s.watch.listeners[n]?.bind Listener.stream?)
    (hstreams : s'.link.ledger.streams = s.link.ledger.streams) : s'.stream? n = s.stream? n := by
  unfold stream?
  rw [hlistener, hstreams]

/-- what happens to every stream happens to that of a listener -/
theorem stream?_map {s' : Site} {change : ChangeStream → ChangeStream}
    (hlisteners : s'.watch.listeners = s.watch.listeners)
    (hstreams : s'.link.ledger.streams = s.link.ledger.streams.map change) :
    s'.stream? n = (s.stream? n).map change := by
  unfold stream?
  rw [hlisteners, hstreams]
  cases s.watch.listeners[n]?.bind Listener.stream? with
  | none => rfl
  | some k => exact List.getElem?_map ..

/-- a site that has taken an event off a stream -/
def read (s : Site) (stream : Nat) : Site :=
  { s with link := { s.link with ledger := s.link.ledger.updateStream stream ChangeStream.next } }

/-- a listener takes in the first event that waits in its stream -/
theorem listen_of_unread {event : ChangeEvent} {rest : List ChangeEvent}
    (hl : s.watch.listeners[n]? = some ⟨topic, .listening stream⟩) (hc : s.link.ledger.streams[stream]? = some c)
    (h : c.unread = event :: rest) : s.listen n = (s.read stream).applyChange topic event := by
  simp only [listen, hl, Ledger.next?_eq hc h]
  rfl

/-- a listener to an open stream waits when there is nothing to take in -/
theorem listen_of_idle (hl : s.watch.listeners[n]? = some ⟨topic, .listening stream⟩)
    (hc : s.link.ledger.streams[stream]? = some c) (h : c.unread = []) (hopen : c.closed = false) : s.listen n = s := by
  have hready : s.listenerIsReady n = false := by
    simp [listenerIsReady, hl, hc, h, hopen]
  simp [listen, hl, Ledger.next?_none hc h, hready]

end Site

/-! ## One place, for runs that show something -/

/-- where a device is, and assets with it -/
def spot : Location := ⟨0.0, 0.0⟩

def spotDevice : DeviceModel := ⟨"dev-1", "", "", spot, []⟩

def spotAsset (id : String) : Asset := ⟨id, "", none, spot⟩

def spotRequirements (id assetId : String) : Requirements := ⟨id, assetId, [⟨"humidity"⟩], 5⟩

end SensorNode
