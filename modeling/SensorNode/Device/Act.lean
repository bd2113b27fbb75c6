/-
The procedures of a device, act by act. An act is what a procedure does without a break; between two acts the other
tasks and procedures of the device may go on. An act may call for further acts, to be done before those that follow it,
and it may fail, which ends its procedure.
-/
import SensorNode.Device.Basic

namespace SensorNode

/-- one act of a procedure -/
inductive Act
  /-- the confirmed entry becomes the identity -/
  | adopt (model : DeviceModel)
  /-- says that the device is logged on -/
  | announceLogin
  /-- reads the identity and the metrics of the sensors, so as to tell the ledger -/
  | readModel
  | sendMetrics (model : DeviceModel) (supports : List Metric)
  /-- writes the entry that was read back, with the metrics that were sent -/
  | writeModel (model : DeviceModel) (supports : List Metric)
  /-- reads the location, so as to look for assets near it -/
  | readOrigin
  | queryAssets (origin : Location)
  | putNear (asset : Asset) (origin : Location)
  /-- lists the assets that are near, so as to ask for their requirements -/
  | listAssets
  | queryRequirements (assetIds : List String)
  | storePending (q : Requirements)
  /-- pending requests are ordered only while the device is operating -/
  | checkOperating
  | replay
  /-- refuses a device that is past its beginning -/
  | checkUninitialized
  /-- installs the handler of the device's removal -/
  | installRemoval
  /-- asks the ledger for the device; a device that it knows is logged on -/
  | queryDevice
  | startWatch (call : Watch.Call)
  | transition (source target : Lifecycle)
  | syncPool
  /-- starts the drive loop -/
  | process
  | clearRequests
  | clearAssets
  | logOff
  | close
  | cancelRequests
  | stopResumption
  | stopListeners
  | shutdown
  /-- lists the sensors in use, so as to release them -/
  | releaseAll
  | release (sensor : Sensor)
  /-- changes a register, unless the device is closed -/
  | enrol (partition : Partition) (added : List Sensor) (removed : List String)
  /-- prepares sensors one by one and leaves out those that fail -/
  | prepare (partition : Partition) (waiting ready : List Sensor) (removed : List String)
  | place (partition : Partition) (added : List Sensor) (removed : List String)

namespace Device

/-! ### Procedures -/

def pushActs : List Act := [.readModel]

def loginActs (model : DeviceModel) : List Act :=
  [.adopt model, .announceLogin, .readModel, .readOrigin, .checkOperating]

def initActs : List Act :=
  [.checkUninitialized, .installRemoval, .queryDevice, .startWatch .start, .transition .uninitialized .initialized]

def operateActs : List Act := [.transition .initialized .operating, .syncPool, .replay, .process]

def resetActs : List Act := [.clearRequests, .clearAssets, .logOff]

def closeActs : List Act := [.close]

/-! ### Acts -/

def setPlanner (d : Device) (planner : Planner) : Device := { d with toPlanner := planner }

/-- does one act; the result lists what has to be done next because of it -/
def act (d : Device) : Act → Device × Except Failure (List Act)
  | .adopt model =>
    if model.id = d.identity.id then ({ d with identity := (d.identity.adopt model).2 }, .ok [])
    else
      (d, .error (.of ("Device model " ++ model.id ++ " does not match device id " ++ d.identity.id)))
  | .announceLogin => ({ d with toSite := d.emit .loggedOn }, .ok [])
  | .readModel =>
    match d.identity.model with
    | some model => (d, .ok [.sendMetrics model d.supportedMetrics])
    | none => (d, .ok [])
  | .sendMetrics model supports =>
    match d.link.updateDevice d.identity.id ⟨some supports, none⟩ with
    | .ok link => ({ d with link }, .ok [.writeModel model supports])
    | .error _ => (d, .ok [])
  | .writeModel model supports =>
    ({ d with identity := (d.identity.adopt { model with supports }).2 }, .ok [])
  | .readOrigin =>
    match d.identity.location? with
    | some origin => (d, .ok [.queryAssets origin])
    | none => (d, .ok [])
  | .queryAssets origin =>
    match d.link.queryAssets with
    | .ok assets => (d, .ok ((assets.map fun a => .putNear a origin) ++ [.listAssets]))
    | .error f => (d, .error (f.during "Failed to query assets from ledger"))
  | .putNear asset origin => ({ d with toSite := d.toSite.putNear asset origin }, .ok [])
  | .listAssets => (d, .ok (if d.assets.isEmpty then [] else [.queryRequirements d.assets.keys]))
  | .queryRequirements assetIds =>
    match d.link.queryRequirements assetIds with
    | .ok requirements => (d, .ok (requirements.map .storePending))
    | .error f => (d, .error (f.during "Failed to query requirements from ledger"))
  | .storePending q => (d.setPlanner (d.toPlanner.storePending q).2, .ok [])
  | .checkOperating => (d, .ok (if d.lifecycle = .operating then [.replay] else []))
  | .replay => (d.setPlanner d.toPlanner.replayPending.2, .ok [])
  | .checkUninitialized =>
    (d, if d.lifecycle = .uninitialized then .ok [] else .error (.of "Device is already initialized"))
  | .installRemoval => ({ d with bus := (d.bus.once .removed).2 }, .ok [])
  | .queryDevice =>
    match d.link.queryDevice d.identity.id with
    | .ok (some model) => (d, .ok (loginActs model))
    | .ok none => (d, .ok [])
    | .error f => (d, .error (f.during "Failed to query device from ledger"))
  | .startWatch call =>
    let (site, next) := d.stepCall call
    ({ d with toSite := site }, .ok (next.toList.map .startWatch))
  | .transition source target =>
    if d.lifecycle = source then ({ d with lifecycle := target }, .ok [])
    else (d, .error (.of ("Device is " ++ d.lifecycle.name ++ ", expected " ++ source.name)))
  | .syncPool => (d.syncPool, .ok [])
  | .process =>
    match d.engine.process with
    | some engine => ({ d with engine }, .ok [])
    | none => (d, .error (.of Engine.processRefused))
  | .clearRequests => (d.setPlanner d.toPlanner.clear, .ok [])
  | .clearAssets => ({ d with assets := ∅ }, .ok [])
  | .logOff => ({ d with identity := d.identity.clear.2 }, .ok [])
  | .close =>
    if d.lifecycle = .closed then (d, .ok [])
    else
      ({ d with lifecycle := .closed },
        .ok [.cancelRequests, .stopResumption, .stopListeners, .shutdown, .releaseAll])
  | .cancelRequests => (d.setPlanner d.toPlanner.cancelAll.2, .ok [])
  | .stopResumption => ({ d with toSite := d.toSite.stopResumption }, .ok [])
  | .stopListeners => ({ d with toSite := d.toSite.stopListeners }, .ok [])
  | .shutdown => ({ d with engine := d.engine.shutdown }, .ok [])
  | .releaseAll => (d, .ok (d.supportedSensors.map .release))
  | .release sensor => (d.updateFleet fun f => f.close sensor, .ok [])
  | .enrol partition added removed =>
    (d, .ok (if d.lifecycle = .closed then [] else [.prepare partition added [] removed]))
  | .prepare partition [] ready removed => (d, .ok [.place partition ready removed, .syncPool, .readModel])
  | .prepare partition (sensor :: waiting) ready removed =>
    let (fleet, prepared) := d.engine.fleet.init sensor
    (d.updateFleet fun _ => fleet,
      .ok [.prepare partition waiting (if prepared then ready ++ [sensor] else ready) removed])
  | .place partition added removed => (d.place partition added removed, .ok [])

/-- how deeply acts can call for further acts -/
def depth : Act → Nat
  | .enrol _ added _ => added.length + 8
  | .prepare _ waiting _ _ => waiting.length + 7
  | _ => 8

/-- does an act and, down to a depth, all that it calls for, without a break -/
def perform : Nat → Device → Act → Device × Option Failure
  | 0, d, _ => (d, none)
  | n + 1, d, a =>
    match d.act a with
    | (d, .error f) => (d, some f)
    | (d, .ok next) =>
      next.foldl (fun r a =>
        match r with
        | (d, none) => perform n d a
        | (d, some f) => (d, some f)) (d, none)

/-- carries a procedure out without a break, up to its end or to its failure -/
def run (d : Device) (acts : List Act) : Device × Option Failure :=
  acts.foldl (fun r a =>
    match r with
    | (d, none) => d.perform (depth a) a
    | (d, some f) => (d, some f)) (d, none)

end Device

end SensorNode
