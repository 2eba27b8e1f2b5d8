import FlashforgeObico.Flashforge.Parsing

/-!
# A typed view of one `detail` reply

The `PrinterSnapshot` of `flashforge/snapshot.py` and the parser that builds it.
-/

namespace FlashforgeObico

open Py

/-- `MachineState`. -/
inductive MachineState
  | ready
  | busy
  | heating
  | printing
  | paused
  | completed
  | error
  | cancelled
  | unknown
  deriving DecidableEq, Repr

namespace MachineState

/-- The string value of a state. -/
def value : MachineState → String
  | ready => "ready"
  | busy => "busy"
  | heating => "heating"
  | printing => "printing"
  | paused => "paused"
  | completed => "completed"
  | error => "error"
  | cancelled => "cancelled"
  | unknown => "unknown"

/-- The members, in source order. -/
def members : List MachineState :=
  [ready, busy, heating, printing, paused, completed, error, cancelled, unknown]

/-- `MachineState(text)`, which raises `ValueError` on any other text. -/
def ofValue? (text : String) : Option MachineState := members.find? fun s => s.value = text

end MachineState

/-- `ACTIVE_STATES`. -/
def activeStates : List MachineState := [.printing, .heating, .busy, .paused]

/-- `_ALIASES.get(text, text)`: the short forms of firmware 1.9.9. -/
def dealias (text : String) : String :=
  if text = "cancel" then "cancelled" else if text = "pause" then "paused" else text

/-- `parse_state`. -/
def parseState (raw : Json) : MachineState :=
  (MachineState.ofValue? (dealias (String.ofList (lower (strip (asStr raw).toList))))).getD .unknown

/-- `MaterialSlot`. -/
structure MaterialSlot where
  slotId : ℤ
  hasFilament : Bool
  material : String
  color : String
  deriving DecidableEq

/-- `PrinterSnapshot`. -/
structure PrinterSnapshot where
  state : MachineState
  fileName : String
  progress : Double
  durationS : ℤ
  remainingS : ℤ
  layer : Option ℤ
  totalLayers : Option ℤ
  errorCode : String
  cameraStreamUrl : String
  nozzleTemps : List Double
  nozzleTargets : List Double
  bedTemp : Option Double
  bedTarget : Option Double
  chamberTemp : Option Double
  chamberTarget : Option Double
  model : String
  firmware : String
  lightOn : Bool := false
  doorOpen : Bool := false
  slots : List MaterialSlot := []
  deriving DecidableEq

/-- `MIN_PROGRESS_FOR_ESTIMATE`. -/
def minProgressForEstimate : Double := .round64 (2 / 100)

namespace PrinterSnapshot

/-- `PrinterSnapshot.has_job`. -/
def HasJob (s : PrinterSnapshot) : Prop := s.fileName ≠ "" ∧ s.state ∈ activeStates

instance (s : PrinterSnapshot) : Decidable s.HasJob :=
  inferInstanceAs (Decidable (s.fileName ≠ "" ∧ s.state ∈ activeStates))

/-- `PrinterSnapshot.warming_up`. -/
def WarmingUp (s : PrinterSnapshot) : Prop :=
  s.HasJob ∧ s.state ≠ .paused ∧ s.durationS = 0 ∧ (s.layer = none ∨ s.layer = some 0)

instance (s : PrinterSnapshot) : Decidable s.WarmingUp :=
  inferInstanceAs (Decidable (s.HasJob ∧ s.state ≠ .paused ∧ s.durationS = 0 ∧
    (s.layer = none ∨ s.layer = some 0)))

/-- No estimate is shown without a job, before the first second and below a few percent. -/
def NoEstimate (s : PrinterSnapshot) : Prop :=
  ¬ s.HasJob ∨ s.durationS ≤ 0 ∨ s.progress < minProgressForEstimate

instance (s : PrinterSnapshot) : Decidable s.NoEstimate :=
  inferInstanceAs (Decidable (¬ s.HasJob ∨ s.durationS ≤ 0 ∨ s.progress < minProgressForEstimate))

/-- `PrinterSnapshot.remaining_estimate_s`. -/
def remainingEstimateS (s : PrinterSnapshot) : Except Error (Option ℤ) :=
  if s.NoEstimate then .ok none
  else do
    let duration ← floatOfInt s.durationS
    let ratio ← divFloat (duration * (1 - s.progress)) s.progress
    let n ← roundFloat ratio
    return some n

theorem HasJob.state_ne {s : PrinterSnapshot} (h : s.HasJob) : s.state ≠ .unknown := by
  intro he
  have := h.2
  rw [he] at this
  exact absurd this (by decide)

theorem hasJob_of_estimate_error {s : PrinterSnapshot} {e : Error}
    (h : s.remainingEstimateS = .error e) : s.HasJob := by
  by_contra hj
  rw [remainingEstimateS, if_pos (show s.NoEstimate from Or.inl hj)] at h
  cases h

theorem WarmingUp.hasJob {s : PrinterSnapshot} (h : s.WarmingUp) : s.HasJob := h.1

end PrinterSnapshot

/-- `_floats`. -/
def floats : Json → Except Error (List Double)
  | .arr items => do
    let readings ← items.mapM asFloat
    return readings.filterMap id
  | _ => .ok []

/-- One entry of `slotInfos`, at its position in the list. -/
def slotOf (index : ℕ) (info : Dict) : MaterialSlot where
  slotId := if intOrZero (asInt (info.get "slotId")) = 0 then index + 1
    else intOrZero (asInt (info.get "slotId"))
  hasFilament := intOrZero (asInt (info.get "hasFilament")) ≠ 0
  material := asStr (info.get "materialName")
  color := asStr (info.get "materialColor")

/-- `_slots`, of the value of `matlStationInfo`. -/
def slots : Json → List MaterialSlot
  | .obj station =>
    match Dict.get station "slotInfos" with
    | .arr infos => infos.zipIdx.filterMap fun p => match p.1 with
      | .obj info => some (slotOf p.2 info)
      | _ => none
    | _ => []
  | _ => []

/-- `min(max(x, 0.0), 1.0)`. The functions keep their first argument unless the second is strictly
greater, or smaller, which is why they keep a NaN. -/
def clampUnit (x : Double) : Double :=
  let y := if x < 0 then 0 else x
  if 1 < y then 1 else y

/-- `as_str(v).lower() == "open"`. -/
def isOpen (v : Json) : Bool := String.ofList (lower (asStr v).toList) = "open"

/-- `parse_snapshot`. -/
def parseSnapshot (detail : Dict) : Except Error PrinterSnapshot := do
  let progress ← asFloat (detail.get "printProgress")
  let estimatedTime ← asFloat (detail.get "estimatedTime")
  let remainingS ← intOfFloat (floatOrZero estimatedTime)
  let nozzleTemps ← floats (detail.get "nozzleTemps")
  let nozzleTargets ← floats (detail.get "nozzleTargetTemps")
  let bedTemp ← asFloat (detail.get "platTemp")
  let bedTarget ← asFloat (detail.get "platTargetTemp")
  let chamberTemp ← asFloat (detail.get "chamberTemp")
  let chamberTarget ← asFloat (detail.get "chamberTargetTemp")
  return { state := parseState (detail.get "status")
           fileName := asStr (detail.get "printFileName")
           progress := clampUnit (floatOrZero progress)
           durationS := intOrZero (asInt (detail.get "printDuration"))
           remainingS
           layer := asInt (detail.get "printLayer")
           totalLayers := asInt (detail.get "targetPrintLayer")
           errorCode := asStr (detail.get "errorCode")
           cameraStreamUrl := asStr (detail.get "cameraStreamUrl")
           nozzleTemps
           nozzleTargets
           bedTemp
           bedTarget
           chamberTemp
           chamberTarget
           model := asStr (detail.get "model")
           firmware := asStr (detail.get "firmwareVersion")
           lightOn := isOpen (detail.get "lightStatus")
           doorOpen := isOpen (detail.get "doorStatus")
           slots := slots (detail.get "matlStationInfo") }

end FlashforgeObico
