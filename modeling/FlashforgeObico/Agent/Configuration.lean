import FlashforgeObico.Agent.State

/-!
# The configuration

`load_config`, which reads the settings from environment variables, and the part of `run` that
builds the agent from them.
-/

namespace FlashforgeObico

open Py

/-- `ConfigError`. -/
structure ConfigError where
  message : String
  deriving DecidableEq

/-- The environment variables. -/
abbrev Env := String → Option String

/-- `Config`, with the part that the agent's methods read. The log level is left out. -/
structure LoadedConfig extends Config where
  ffHost : String
  ffSerial : String
  ffCheckCode : String
  obicoUrl : String
  obicoAuthToken : String
  /-- Empty means: use the camera the printer reports in `detail`, named "Printer". -/
  cameras : List Camera
  deriving DecidableEq

namespace LoadedConfig

/-- `env.get(key, default).strip()`. -/
def stripped (env : Env) (key default : String) : String :=
  String.ofList (strip ((env key).getD default).toList)

/-- `_required`. -/
def required (env : Env) (key : String) : Except ConfigError String :=
  let value := stripped env key ""
  if value = "" then .error ⟨key ++ " is required"⟩ else .ok value

/-- `_required(env, key) if needed else env.get(key, "").strip()`. -/
def requiredIf (needed : Bool) (env : Env) (key : String) : Except ConfigError String :=
  if needed then required env key else .ok (stripped env key "")

/-- `_split`. -/
def split (value : String) : List String :=
  ((value.toList.splitOn ',').map fun part => String.ofList (strip part)).filter (· ≠ "")

/-- `_cameras`. -/
def cameraList (env : Env) : Except ConfigError (List Camera) :=
  let urls := split ((env "CAMERA_URLS").getD "")
  let names := split ((env "CAMERA_NAMES").getD "")
  if names ≠ [] ∧ names.length ≠ urls.length then
    .error ⟨"CAMERA_NAMES must have one name per CAMERA_URLS entry"⟩
  else
    let names := if names = [] then
        "Printer" :: (List.range (urls.length - 1)).map fun i => "Camera " ++ toString (i + 2)
      else names
    .ok ((names.zip urls).map fun p => { name := p.1, streamUrl := p.2 })

/-- `_port`. -/
def port (env : Env) : Except ConfigError ℤ :=
  match int? (stripped env "RESERVE_PORT" "8081").toList with
  | some n => .ok n
  | none => .error ⟨"RESERVE_PORT must be an integer"⟩

/-- `url.rstrip("/")`. -/
def withoutSlashes (url : String) : String :=
  String.ofList (url.toList.reverse.dropWhile (· = '/')).reverse

/-- `load_config`. -/
def load (env : Env) (requireToken : Bool) : Except ConfigError LoadedConfig := do
  let reservePort ← port env
  let ffHost ← required env "FF_HOST"
  let ffSerial ← required env "FF_SERIAL"
  let ffCheckCode ← required env "FF_CHECK_CODE"
  let obicoUrl := stripped env "OBICO_URL" ""
  let obicoAuthToken ← requiredIf requireToken env "OBICO_AUTH_TOKEN"
  let cameras ← cameraList env
  let publicHost ← requiredIf (0 < reservePort) env "PUBLIC_HOST"
  return {
    ffHost
    ffSerial
    ffCheckCode
    obicoUrl := withoutSlashes (if obicoUrl = "" then "http://web:3334" else obicoUrl)
    obicoAuthToken
    cameras
    reservePort
    publicHost }

/-- The agent that `run` builds, when the re-server can be bound to its port. It runs exactly when
the port is positive, and it has its own list of the cameras. -/
def start (config : LoadedConfig) : Agent :=
  .initial config.toConfig config.cameras
    (if 0 < config.reservePort then some config.cameras else none)

end LoadedConfig

end FlashforgeObico
