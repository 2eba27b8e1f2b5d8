import FlashforgeObico.Obico.Status

/-!
# The status of the phone console

`console/status.py`: what the agent already knows, shaped for one small page. Like the Obico status,
it can raise in the projected time left only.
-/

namespace FlashforgeObico

open Py

/-- `CameraHealth`. -/
structure CameraHealth where
  name : String
  streaming : Bool
  /-- Seconds since the last frame; `none` before the first one. -/
  frameAgeS : Option Double
  lastError : String
  deriving DecidableEq

/-- `_camera`. -/
def consoleCamera (health : CameraHealth) : CameraHealth :=
  { health with frameAgeS := health.frameAgeS.map fun age => age.roundDecimals 1 }

/-- A current temperature and its target. -/
structure ConsoleReading where
  current : Option Double
  target : Option Double
  deriving DecidableEq

/-- An entry of `nozzles`. -/
structure ConsoleNozzle where
  tool : ℕ
  current : Double
  target : Option Double
  deriving DecidableEq

/-- The entry `printer` of the status. -/
structure ConsolePrinter where
  state : String
  hasJob : Bool
  warmingUp : Bool
  paused : Bool
  file : String
  progress : Double
  durationS : ℤ
  remainingEstS : Option ℤ
  firmwareEstimatedS : ℤ
  layer : Option ℤ
  totalLayers : Option ℤ
  errorCode : String
  lightOn : Bool
  doorOpen : Bool
  model : String
  bed : ConsoleReading
  chamber : ConsoleReading
  nozzles : List ConsoleNozzle
  slots : List MaterialSlot
  canPause : Bool
  canResume : Bool
  deriving DecidableEq

/-- The status of the console; there is no printer in it while the printer cannot be reached. -/
structure ConsoleStatus where
  ts : Time
  version : String
  connected : Bool
  stateText : StateText
  obicoConnected : Bool
  viewing : Bool
  pendingCommand : Option String
  camera : Option String
  cameras : List CameraHealth
  controls : List String := ["pause", "resume", "light"]
  printer : Option ConsolePrinter := none
  deriving DecidableEq

/-- The nozzles of a snapshot: the current temperatures by position, and the targets by position. -/
def consoleNozzles (s : PrinterSnapshot) : List ConsoleNozzle :=
  s.nozzleTemps.zipIdx.map fun p =>
    { tool := p.2, current := p.1, target := s.nozzleTargets[p.2]? }

/-- The entry `printer` of a snapshot, given its projected time left. -/
def consolePrinter (s : PrinterSnapshot) (remainingEstS : Option ℤ) : ConsolePrinter :=
  let paused : Bool := s.state = .paused
  { state := s.state.value
    hasJob := s.HasJob
    warmingUp := s.WarmingUp
    paused
    file := s.fileName
    progress := s.progress
    durationS := s.durationS
    remainingEstS
    firmwareEstimatedS := s.remainingS
    layer := s.layer
    totalLayers := s.totalLayers
    errorCode := s.errorCode
    lightOn := s.lightOn
    doorOpen := s.doorOpen
    model := s.model
    bed := { current := s.bedTemp, target := s.bedTarget }
    chamber := { current := s.chamberTemp, target := s.chamberTarget }
    nozzles := consoleNozzles s
    slots := s.slots
    canPause := s.HasJob ∧ ¬ paused
    canResume := s.HasJob ∧ paused }

/-- `build_console_status`. -/
def buildConsoleStatus (snapshot : Option PrinterSnapshot) (stateText : StateText)
    (obicoConnected : Bool) (pendingCommand : Option String) (viewing : Bool)
    (cameras : List CameraHealth) (version : String) (now : Time) : Except Error ConsoleStatus :=
  let status : ConsoleStatus :=
    { ts := now
      version
      connected := snapshot.isSome
      stateText
      obicoConnected
      viewing
      pendingCommand
      camera := if cameras = [] then none else some "/cameras/0/stream"
      cameras := cameras.map consoleCamera }
  match snapshot with
  | none => .ok status
  | some s => do
    let left ← s.remainingEstimateS
    return { status with printer := some (consolePrinter s left) }

/-- The printer that a status shows is that of the snapshot. -/
theorem printer_of_buildConsoleStatus {s : PrinterSnapshot} {stateText : StateText}
    {obicoConnected viewing : Bool} {pendingCommand : Option String} {cameras : List CameraHealth}
    {version : String} {now : Time} {status : ConsoleStatus}
    (h : buildConsoleStatus (some s) stateText obicoConnected pendingCommand viewing cameras version
      now = .ok status) :
    ∃ left, s.remainingEstimateS = .ok left ∧ status.printer = some (consolePrinter s left) := by
  obtain ⟨left, hleft, h⟩ := Except.bind_eq_ok_iff.mp h
  exact ⟨left, hleft, by rw [← Except.ok.inj h]⟩

end FlashforgeObico
