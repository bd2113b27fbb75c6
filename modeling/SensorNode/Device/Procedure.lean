/-
What can be asked of a device. Each operation carries its procedure out without a break.
-/
import SensorNode.Device.Act

namespace SensorNode

/-- a scan of the sensor buses: how long it takes, and what it finds or why it fails -/
structure Scan where
  takes : Duration
  result : Except String (List Sensor)

namespace Device

/-- Installs the handler of the device's removal, logs the device on if the ledger knows it, and starts the watch. It
happens once. -/
def init (d : Device) : Device × Option Failure := d.run initActs

/-- Takes an entry of the ledger for the device's identity, tells the ledger what the sensors can read, and keeps the
assets near by and their requirements. -/
def login (d : Device) (model : DeviceModel) : Device × Option Failure := d.run (loginActs model)

/-- gives the sensors to the engine, orders what is pending, and starts the drive loop -/
def operate (d : Device) : Device × Option Failure := d.run operateActs

/-- drops requests and assets and logs off -/
def reset (d : Device) : Device := (d.run resetActs).1

/-- stops everything and releases the sensors, once -/
def close (d : Device) : Device := (d.run closeActs).1

/-- tells the ledger what the sensors can read, if the device is logged on -/
def pushMetrics (d : Device) : Device := (d.run pushActs).1

/-- changes the register of the discovered sensors -/
def updateRegister (d : Device) (added : List Sensor) (removed : List String) : Device :=
  (d.run [.enrol .discovered added removed]).1

def registerSensors (d : Device) (sensors : List Sensor) : Device := d.updateRegister sensors []

def unregisterSensor (d : Device) (id : String) : Device := d.updateRegister [] [id]

/-- adds fixed sensors -/
def registerFixed (d : Device) (sensors : List Sensor) : Device := (d.run [.enrol .fixed sensors []]).1

/-- the time after which a scan is over or given up -/
def scanEnd (d : Device) (scan : Scan) : Duration := ⟨min scan.takes.millis d.scanTimeout.millis⟩

/-- A scan has ended, or its time is up: the register of the discovered sensors is made what it found. Tells how many
sensors were new and how many were not found any more. -/
def discover (d : Device) (scan : Scan) : Device × Except Failure (Nat × Nat) :=
  if d.scanTimeout.millis < scan.takes.millis then
    (d, .error
      ((Failure.of "deadline has elapsed").during ("Sensor bus scan timed out after " ++ d.scanTimeout.text)))
  else
    match scan.result with
    | .error cause => (d, .error ((Failure.of cause).during "Sensor bus scan failed"))
    | .ok found =>
      let (added, removed) := d.discovered.diff found
      let counts := (added.length, removed.length)
      (if counts = (0, 0) then d else d.updateRegister added removed, .ok counts)

/-- A handler looks at the bus. At a login the watch is resumed; when the device has been removed, it is reset and
closed. -/
def handle (d : Device) (handler : Nat) : Device :=
  let (event, bus) := d.bus.poll handler
  let d := { d with bus }
  match event with
  | some .loggedOn => { d with toSite := d.toSite.resume }
  | some .removed => d.reset.close
  | _ => d

end Device

end SensorNode
