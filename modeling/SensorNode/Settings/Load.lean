/-
Loading of settings: from the tables of a TOML text, and from the file that the environment names.
-/
import SensorNode.Settings.Basic
import SensorNode.Settings.Disk
import SensorNode.Toml.Document

namespace SensorNode.Settings

open Toml

/-! ### Sections -/

/-- the fields of a section, each found by its name or by its place -/
structure Section where
  find : String → Nat → Option Item

/-- A section is a table, or an array of its fields in order; a date has no field of a section, and that is all that
matters about it. -/
def Section.ofItem? : Item → Option Section
  | .table _ entries => some ⟨fun name _ => Entries.find? entries name⟩
  | .array items => some ⟨fun _ place => items[place]?⟩
  | .tables elements => some ⟨fun _ place => (elements[place]?).map (Item.table .header)⟩
  | .datetime => some ⟨fun _ _ => none⟩
  | _ => none

/-- a field, or its default where it is left out -/
def Section.get? {α : Type} (s : Section) (name : String) (place : Nat) (missing : α) (ofItem? : Item → Option α) :
    Option α :=
  match s.find name place with
  | some item => ofItem? item
  | none => some missing

def string? : Item → Option String
  | .string s => some s
  | _ => none

def boolean? : Item → Option Bool
  | .boolean b => some b
  | _ => none

def integer? : Item → Option Int
  | .integer n => some n
  | _ => none

def duration? : Item → Option Duration
  | .integer n => if 0 ≤ n then some ⟨n.toNat⟩ else none
  | _ => none

/-- an integer will do for a float -/
def float? : Item → Option Float
  | .float x => some x
  | .integer n => some (Float.ofInt n)
  | _ => none

/-- a name, or a table with the name as its only key and nothing under it -/
def choice? {α : Type} (ofName? : String → Option α) : Item → Option α
  | .string s => ofName? s
  | .table _ [(name, .table _ [])] => ofName? name
  | .table _ [(name, .array [])] => ofName? name
  | _ => none

/-- the settings in the table of a whole text -/
def ofEntries? (env : Environment) (root : Entries) : Option Settings := do
  let fallback := Settings.default env
  let part (name : String) : Option Section :=
    match Entries.find? root name with
    | some item => Section.ofItem? item
    | none => some ⟨fun _ _ => none⟩
  let device ← part "device"
  let reader ← part "reader"
  let geofence ← part "geofence"
  let mocks ← part "mocks"
  let ledger ← part "ledger"
  let deviceId ← device.get? "id" 0 fallback.deviceId string?
  let harvestTimeout ← reader.get? "harvest_timeout_ms" 0 fallback.harvestTimeout duration?
  let busScanTimeout ← reader.get? "bus_scan_timeout_ms" 1 fallback.busScanTimeout duration?
  let reduction ← reader.get? "reduction" 2 fallback.reduction (choice? Reduction.ofName?)
  let distance ← geofence.get? "assets_locate_distance" 0 fallback.assetsLocateDistance float?
  let debugEnv ← mocks.get? "debug_env" 0 fallback.debugEnv boolean?
  let jitter ← mocks.get? "jitter" 1 fallback.jitter float?
  let mode ← ledger.get? "mode" 0 fallback.ledger.mode (choice? LedgerMode.ofName?)
  let url ← ledger.get? "url" 1 fallback.ledger.url string?
  let subjectPrefix ← ledger.get? "subject_prefix" 2 fallback.ledger.subjectPrefix string?
  let readingsStream ← ledger.get? "readings_stream" 3 fallback.ledger.readingsStream string?
  let maxAgeDays ← ledger.get? "max_age_days" 4 fallback.ledger.maxAgeDays integer?
  return {
    deviceId, harvestTimeout, busScanTimeout, reduction, debugEnv, jitter
    assetsLocateDistance := distance
    ledger := { mode, url, subjectPrefix, readingsStream, maxAgeDays } }

/-! ### Files -/

/-- The settings of the file at `path`, before overrides. What is wrong with a text that holds no settings is for the
reader of TOML to say, and so a parameter. -/
def ofFile (complaint : String → String) (env : Environment) (path : String) : Node → Except SettingsError Settings
  | .directory => .error (.unreadable path "Is a directory (os error 21)")
  | .file bytes =>
    match String.fromUTF8? bytes with
    | none => .error (.unreadable path "stream did not contain valid UTF-8")
    | some text =>
      match (Toml.parse? text).bind (ofEntries? env) with
      | some s => .ok s
      | none => .error (.malformed path (complaint text))

/-- where the settings are unless the environment says otherwise -/
def defaultPath : String := "agent.toml"

/-- The settings of a node. A file that is not there leaves the defaults; the environment overrides either, and the
outcome must be valid. -/
def load (complaint : String → String) (env : Environment) (disk : Disk) : Except SettingsError Settings := do
  let path := (env "AGENT_CONFIG").getD defaultPath
  let s ← match lookup disk path with
    | some node => ofFile complaint env path node
    | none => .ok (Settings.default env)
  let s := s.override env
  match s.fault? with
  | some fault => .error (.invalid fault.message)
  | none => .ok s

end SensorNode.Settings
