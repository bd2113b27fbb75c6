/-
The identity of a device, as what its listener to devices makes of it, and what the listener announces. Only events about
the device itself count, and only those that can be read. The identity is the entry that the last of them has brought
(`ownAfter`). Of each event it is announced that the device is gone, or that it has been taken out of the threshold from
where the entry had it that was its own just before (`tidings`); `devices_outcome` says that of every stream of events.
-/
import SensorNode.Proofs.Receivers
import SensorNode.Proofs.Site.Assets

namespace SensorNode

namespace ChangeEvent

/-- the entry that an event brings of the device with this id -/
def entryOf (id : String) (event : ChangeEvent) : Option DeviceModel := (event.deviceOf id).join

/-- The entry that is the own one of the device `id` once these events have been taken in, oldest first, where `own` was
before. -/
def ownAfter (id : String) (own : Option DeviceModel) (events : List ChangeEvent) : Option DeviceModel :=
  (events.filterMap (entryOf id)).getLast?.or own

/-- what is announced of an event that finds the own entry of the device `id` to be `own` -/
def announced (id : String) (threshold : Float) (own : Option DeviceModel) (event : ChangeEvent) : List DomainEvent :=
  match event.deviceOf id, own with
  | some none, _ => [.removed]
  | some (some device), some old =>
    if event.kind = .updated ∧ ¬old.location.isNear device.location threshold then
      [.moved old.location device.location]
    else []
  | _, _ => []

/-- What is announced of events, oldest first. Each finds the entry that those before it have left. -/
def tidings (id : String) (threshold : Float) (own : Option DeviceModel) (events : List ChangeEvent) : List DomainEvent :=
  (events.mapIdx fun n event => event.announced id threshold (ownAfter id own (events.take n))).flatten

variable {id : String} {own : Option DeviceModel} {event : ChangeEvent}

theorem ownAfter_cons (id : String) (own : Option DeviceModel) (event : ChangeEvent) (events : List ChangeEvent) :
    ownAfter id own (event :: events) = ownAfter id ((event.entryOf id).or own) events := by
  unfold ownAfter
  cases h : event.entryOf id with
  | none => rw [List.filterMap_cons_none h, Option.none_or]
  | some device =>
    rw [List.filterMap_cons_some h, List.getLast?_cons, Option.some_or]
    cases (events.filterMap (entryOf id)).getLast? <;> rfl

theorem tidings_cons (id : String) (threshold : Float) (own : Option DeviceModel) (event : ChangeEvent)
    (events : List ChangeEvent) :
    tidings id threshold own (event :: events) =
      event.announced id threshold own ++ tidings id threshold ((event.entryOf id).or own) events := by
  unfold tidings
  rw [List.mapIdx_cons, List.flatten_cons]
  congr 2
  refine List.mapIdx_eq_mapIdx_iff.2 fun n hn => ?_
  rw [List.take_succ_cons, ownAfter_cons]

/-- what an event brings of a device has its id -/
theorem id_of_entryOf {device : DeviceModel} (h : event.entryOf id = some device) : device.id = id := by
  have hof : event.deviceOf id = some (some device) := Option.join_eq_some_iff.1 h
  unfold deviceOf newsOf at hof
  obtain ⟨⟨id', v⟩, hnews, rfl⟩ := Option.map_eq_some_iff.1 hof
  obtain ⟨hnews, hid⟩ := Option.filter_eq_some_iff.1 hnews
  exact (key_eq_of_news? hnews).trans (of_decide_eq_true hid)

/-- whatever comes, the own entry of a device has its id -/
theorem id_of_ownAfter (hown : ∀ device, own = some device → device.id = id) (events : List ChangeEvent)
    {device : DeviceModel} (h : ownAfter id own events = some device) : device.id = id := by
  rcases Option.or_eq_some_iff.1 h with hlast | ⟨-, h⟩
  · obtain ⟨event, -, hentry⟩ := List.mem_filterMap.1 (List.mem_of_getLast? hlast)
    exact id_of_entryOf hentry
  · exact hown device h

end ChangeEvent

namespace Site

variable {s : Site} {n : Nat} {events rest : List ChangeEvent}

/-! ## One event -/

theorem applyDevice_model (s : Site) (event : ChangeEvent) :
    (s.applyDevice event).identity =
      { s.identity with model := (event.entryOf s.identity.id).or s.identity.model } := by
  rw [applyDevice_identity, ChangeEvent.entryOf]
  match event.deviceOf s.identity.id with
  | none => rfl
  | some none => rfl
  | some (some device) => rfl

theorem applyDevice_bus (s : Site) (event : ChangeEvent) :
    (s.applyDevice event).bus =
      s.bus.emitAll (event.announced s.identity.id s.threshold s.identity.model) := by
  unfold applyDevice ChangeEvent.announced ChangeEvent.deviceOf ChangeEvent.newsOf ChangeEvent.news?
  cases hkind : event.kind with
  | removed =>
    cases event.decode? Entity.idOfRaw? with
    | none => rfl
    | some id => by_cases hid : id = s.identity.id <;> simp [hid, emit, Bus.emitAll, Option.filter_some]
  | inserted | updated =>
    cases event.decode? DeviceModel.ofRaw? with
    | none => rfl
    | some device =>
      by_cases hid : device.id = s.identity.id
      · cases hmodel : s.identity.model with
        | none => simp [hid, hmodel, Identity.adopt, Bus.emitAll, Option.filter_some]
        | some old =>
          simp only [hid, Identity.adopt, hmodel, Option.map_some, Option.filter_some, decide_true, if_true]
          split_ifs <;> simp_all [emit, Bus.emitAll]
      · simp [hid, Bus.emitAll, Option.filter_some]

/-- an event that is not about the device, or cannot be read, does nothing -/
theorem applyDevice_of_none (s : Site) {event : ChangeEvent} (h : event.deviceOf s.identity.id = none) :
    s.applyDevice event = s := by
  unfold ChangeEvent.deviceOf ChangeEvent.newsOf ChangeEvent.news? at h
  unfold applyDevice
  cases hkind : event.kind <;> rw [hkind] at h
  case removed =>
    cases hdecode : event.decode? Entity.idOfRaw? with
    | none => rfl
    | some id =>
      rw [hdecode] at h
      exact if_neg fun hid => by simp [hid, Option.filter_some] at h
  all_goals
    cases hdecode : event.decode? DeviceModel.ofRaw? with
    | none => rfl
    | some device =>
      rw [hdecode] at h
      exact if_neg fun hid => by simp [hid, Option.filter_some] at h

/-! ## A stream of events -/

/-- the listener `n` has taken this many steps -/
def listenFor (s : Site) (n steps : Nat) : Site := (fun s : Site => s.listen n)^[steps] s

/-- what the listener to devices makes of one event -/
theorem Attends.takeDevice {event : ChangeEvent} (h : s.Attends n .devices (event :: rest)) :
    (s.listen n).Attends n .devices rest ∧ (s.listen n).threshold = s.threshold ∧
      (s.listen n).identity = { s.identity with model := (event.entryOf s.identity.id).or s.identity.model } ∧
      (s.listen n).bus = s.bus.emitAll (event.announced s.identity.id s.threshold s.identity.model) := by
  obtain ⟨link, hlisten, hattends⟩ := h.listen
  refine ⟨hattends, ?_, ?_, ?_⟩
  · obtain ⟨identity, bus, happly⟩ := applyDevice_eq { s with link } event
    rw [hlisten, applyChange, happly]
  · rw [hlisten]
    exact applyDevice_model { s with link } event
  · rw [hlisten]
    exact applyDevice_bus { s with link } event

/-- what it makes of one after the other -/
theorem Attends.listenFor (h : s.Attends n .devices (events ++ rest)) :
    let done := s.listenFor n events.length
    done.Attends n .devices rest ∧
      done.identity = { s.identity with model := ChangeEvent.ownAfter s.identity.id s.identity.model events } ∧
      done.bus = s.bus.emitAll (ChangeEvent.tidings s.identity.id s.threshold s.identity.model events) := by
  induction events generalizing s with
  | nil => exact ⟨h, rfl, rfl⟩
  | cons event events ih =>
    obtain ⟨hattends, hthreshold, hidentity, hbus⟩ := h.takeDevice
    obtain ⟨hrest, hidentity', hbus'⟩ := ih hattends
    rw [hidentity] at hidentity' hbus'
    rw [hthreshold, hbus] at hbus'
    refine ⟨hrest, ?_, ?_⟩
    · rw [ChangeEvent.ownAfter_cons]
      exact hidentity'
    · rw [ChangeEvent.tidings_cons, Bus.emitAll, List.foldl_append]
      exact hbus'

/-- **The devices listener.** Whatever events it takes in, of whatever devices, the identity is afterwards the entry that
the last event has brought that could be read and was about the device itself, and what it was before if there is none; it
has the id of the device throughout. What has been announced is, event by event, that the device has been removed, or that
an update has moved it out of the threshold, from where the entry had it that the events before had left. An event of
another device, or one that cannot be read, changes and announces nothing. -/
theorem devices_outcome (h : s.Attends n .devices (events ++ rest))
    (hown : ∀ model, s.identity.model = some model → model.id = s.identity.id) :
    let done := s.listenFor n events.length
    let told := ChangeEvent.tidings s.identity.id s.threshold s.identity.model events
    done.Attends n .devices rest ∧ done.identity.id = s.identity.id ∧
      done.identity.model = ChangeEvent.ownAfter s.identity.id s.identity.model events ∧
      (∀ model, done.identity.model = some model → model.id = s.identity.id) ∧
      done.bus = { s.bus with events := told.reverse ++ s.bus.events, sent := s.bus.sent + told.length } ∧
      ∀ before event after, events = before ++ event :: after → event.deviceOf s.identity.id = none →
        ∃ link, s.listenFor n (before.length + 1) = { s.listenFor n before.length with link } := by
  intro done told
  obtain ⟨hattends, hidentity, hbus⟩ := h.listenFor
  refine ⟨hattends, by rw [hidentity], by rw [hidentity], ?_, hbus.trans (s.bus.emitAll_eq told), ?_⟩
  · intro model hmodel
    rw [hidentity] at hmodel
    exact ChangeEvent.id_of_ownAfter hown events hmodel
  · rintro before event after rfl hnone
    rw [List.append_assoc] at h
    obtain ⟨hthen, hidentity', -⟩ := h.listenFor
    obtain ⟨link, hlisten, -⟩ := hthen.listen
    have hnext : s.listenFor n (before.length + 1) = (s.listenFor n before.length).listen n :=
      Function.iterate_succ_apply' ..
    refine ⟨link, hnext.trans (hlisten.trans ?_)⟩
    have hid : (s.listenFor n before.length).identity.id = s.identity.id := by rw [hidentity']
    refine applyDevice_of_none { s.listenFor n before.length with link } ?_
    rw [← hid] at hnone
    exact hnone

/-- a site that listens to devices, in whose stream these events wait; its own place is not known yet -/
def awaitingPlace (events : List ChangeEvent) : Site :=
  let nowhere : DeviceModel := { spotDevice with location := ⟨Location.notANumber, 0⟩ }
  let s := new "dev-1" ⟨500⟩ .mean 10.0
  let s := ({ s with identity := (s.identity.adopt nowhere).2 } : Site).start.listen 1
  { s with link := { s.link with ledger := events.foldl (fun l event => l.publish .devices event) s.link.ledger } }

/-- An update brings the device to a place, and so it has moved. Another leaves it there, and in between come events of
another device and one that cannot be read. Then the device is removed. -/
theorem devices_outcome_moved_once :
    let moved : ChangeEvent := .of .updated spotDevice.toJson
    let malformed : ChangeEvent := ⟨.updated, .null⟩
    let other : ChangeEvent := .of .removed ({ spotDevice with id := "dev-2" } : DeviceModel).toJson
    let removed : ChangeEvent := .of .removed spotDevice.toJson
    let events := [moved, malformed, other, moved, removed]
    let s := awaitingPlace events
    (s.listenFor 1 events.length).Attends 1 .devices [] ∧
      (s.listenFor 1 events.length).identity.model = some spotDevice ∧
      (s.listenFor 1 events.length).bus =
        { s.bus with
          events := .removed :: .moved ⟨Location.notANumber, 0⟩ spot :: s.bus.events
          sent := s.bus.sent + 2 } := by
  intro moved malformed other removed events s
  have hattends : s.Attends 1 .devices (events ++ []) := ⟨0, ⟨.devices, events, 0, false, false⟩, rfl, rfl, rfl⟩
  have hown : ∀ model, s.identity.model = some model → model.id = s.identity.id :=
    fun model hmodel => by rw [← Option.some.inj hmodel]; rfl
  have hmoved : moved.deviceOf "dev-1" = some (some spotDevice) :=
    (ChangeEvent.newsOf_of_some (ChangeEvent.news?_put (DeviceModel.decode_of (by decide +kernel)) true) "dev-1").trans
      (if_pos rfl)
  have hmalformed : malformed.deviceOf "dev-1" = none := rfl
  have hother : other.deviceOf "dev-1" = none :=
    (ChangeEvent.newsOf_of_some (ChangeEvent.news?_removed (DeviceModel.decode_id _ .removed)) "dev-1").trans
      (if_neg (by decide))
  have hremoved : removed.deviceOf "dev-1" = some none :=
    (ChangeEvent.newsOf_of_some (ChangeEvent.news?_removed (DeviceModel.decode_id _ .removed)) "dev-1").trans
      (if_pos rfl)
  have hfar : (⟨Location.notANumber, 0⟩ : Location).isNear spot 10.0 = false := by decide +kernel
  have hnear : spot.isNear spot 10.0 = true := by decide +kernel
  obtain ⟨hdrained, -, hmodel, -, hbus, -⟩ := devices_outcome hattends hown
  have htold : ChangeEvent.tidings s.identity.id s.threshold s.identity.model events =
      [.moved ⟨Location.notANumber, 0⟩ spot, .removed] := by
    show ChangeEvent.tidings "dev-1" 10.0 (some { spotDevice with location := ⟨Location.notANumber, 0⟩ }) events = _
    have hkind : moved.kind = .updated := rfl
    have hplace : spotDevice.location = spot := rfl
    simp [events, ChangeEvent.tidings, ChangeEvent.ownAfter, ChangeEvent.announced, ChangeEvent.entryOf, hmoved,
      hmalformed, hother, hremoved, hkind, hplace, hfar, hnear]
  rw [htold] at hbus
  refine ⟨hdrained, hmodel.trans ?_, hbus⟩
  show ChangeEvent.ownAfter "dev-1" (some { spotDevice with location := ⟨Location.notANumber, 0⟩ }) events = _
  simp [events, ChangeEvent.ownAfter, ChangeEvent.entryOf, hmoved, hmalformed, hother, hremoved]

end Site

end SensorNode
