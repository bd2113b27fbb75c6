/-
Settings of a sensor node, their defaults, the environment variables that override them, and what makes them invalid.
-/
import SensorNode.Decimal.Layout
import SensorNode.Duration
import SensorNode.Reduction
import SensorNode.Text.Blank

namespace SensorNode

/-- where the ledger is: behind a message broker, or in the process itself -/
inductive LedgerMode
  | nats
  | memory
  deriving DecidableEq, Repr, Inhabited

def LedgerMode.ofName? : String → Option LedgerMode
  | "nats" => some .nats
  | "memory" => some .memory
  | _ => none

/-- the values of environment variables -/
abbrev Environment := String → Option String

structure LedgerSettings where
  mode : LedgerMode
  url : String
  subjectPrefix : String
  readingsStream : String
  maxAgeDays : Int
  deriving DecidableEq

/-- the address of the ledger is the environment's, even an empty one, or that of a local broker -/
def LedgerSettings.default (env : Environment) : LedgerSettings where
  mode := .nats
  url := (env "NATS_URL").getD "nats://localhost:4222"
  subjectPrefix := "ledger"
  readingsStream := "LEDGER_READINGS"
  maxAgeDays := 7

structure Settings where
  deviceId : String
  /-- deadline of one harvest cycle -/
  harvestTimeout : Duration
  /-- deadline of one scan for sensors -/
  busScanTimeout : Duration
  reduction : Reduction
  /-- assets farther away than this many metres are ignored -/
  assetsLocateDistance : Float
  /-- a mock sensor is registered -/
  debugEnv : Bool
  /-- amplitude of the noise in mock readings -/
  jitter : Float
  ledger : LedgerSettings
  deriving DecidableEq

namespace Settings

def default (env : Environment) : Settings where
  deviceId := "field-agent"
  harvestTimeout := ⟨1000⟩
  busScanTimeout := ⟨500⟩
  reduction := .mean
  assetsLocateDistance := 100.0
  debugEnv := false
  jitter := 0.0
  ledger := .default env

/-- a variable that is set to more than the empty text -/
def nonEmpty (env : Environment) (name : String) : Option String := (env name).filter fun v => !v.isEmpty

/-- texts that switch a flag on, whatever the case of their letters -/
def isYes (text : String) : Bool :=
  let lower := String.ofList (text.toList.map Char.toLower)
  lower = "1" ∨ lower = "true" ∨ lower = "yes"

/-- the settings with the overrides of the environment -/
def override (env : Environment) (s : Settings) : Settings :=
  { s with
    deviceId := (nonEmpty env "AGENT_DEVICE_ID").getD s.deviceId
    debugEnv := ((env "AGENT_DEBUG_ENV").map isYes).getD s.debugEnv
    ledger := { s.ledger with url := (nonEmpty env "NATS_URL").getD s.ledger.url } }

/-- what makes settings invalid -/
inductive Fault
  | blankDeviceId
  | zeroHarvestTimeout
  | badDistance (x : Float)
  | badJitter (x : Float)

def Fault.message : Fault → String
  | .blankDeviceId => "device.id must not be empty"
  | .zeroHarvestTimeout => "reader.harvest_timeout_ms must be positive"
  | .badDistance x =>
    "geofence.assets_locate_distance must be a non-negative number, got " ++ Decimal.text .plain x
  | .badJitter x => "mocks.jitter must be a finite number, got " ++ Decimal.text .plain x

/-- the first fault -/
def fault? (s : Settings) : Option Fault :=
  if Text.allBlank s.deviceId then some .blankDeviceId
  else if s.harvestTimeout.millis = 0 then some .zeroHarvestTimeout
  else if !s.assetsLocateDistance.isFinite || s.assetsLocateDistance < 0.0 then
    some (.badDistance s.assetsLocateDistance)
  else if !s.jitter.isFinite then some (.badJitter s.jitter)
  else none

end Settings

/-- why there are no settings -/
inductive SettingsError
  | unreadable (path reason : String)
  | malformed (path reason : String)
  | invalid (reason : String)

def SettingsError.message : SettingsError → String
  | .unreadable path reason => "failed to read config " ++ path ++ ": " ++ reason
  | .malformed path reason => "failed to parse config " ++ path ++ ": " ++ reason
  | .invalid reason => "invalid config: " ++ reason

end SensorNode
