import FlashforgeObico.Job.Tracker

/-!
# The Obico agent payload

The status messages of `obico/status.py`: the state text, the status of one snapshot, the settings
and the message that carries them. A status is built from what the tracker and the state text
already are; the one part that can raise is the projected time left, so `buildStatus` fails exactly
where `remainingEstimateS` does (`buildStatus_eq_error_iff`).
-/

namespace FlashforgeObico

open Py

/-- The state texts. -/
inductive StateText
  | offline
  | operational
  | printing
  | paused
  deriving DecidableEq, Repr

/-- The text itself. -/
def StateText.text : StateText → String
  | offline => "Offline"
  | operational => "Operational"
  | printing => "Printing"
  | paused => "Paused"

/-- `obico_state_text`. -/
def obicoStateText (snapshot : Option PrinterSnapshot) (previous : StateText) : StateText :=
  match snapshot with
  | none => .offline
  | some s =>
    if s.state = .unknown then previous
    else if s.HasJob then (if s.state = .paused then .paused else .printing)
    else if s.state = .busy then previous -- busy with no file: a job may be spinning up
    else .operational

theorem obicoStateText_of_hasJob {s : PrinterSnapshot} (h : s.HasJob) (previous : StateText) :
    obicoStateText (some s) previous = if s.state = .paused then .paused else .printing := by
  simp only [obicoStateText, if_neg h.state_ne, if_pos h]

/-! ## The status -/

/-- A temperature of the payload. -/
structure Temperature where
  actual : Double
  offset : ℤ := 0
  target : Option Double
  deriving DecidableEq

/-- `_temperature`. -/
def temperature (actual target : Option Double) : Temperature :=
  { actual := (floatOrZero actual).roundDecimals 2, target }

/-- `_temperatures`, in the order of its keys. -/
def temperatures (s : PrinterSnapshot) : List (String × Temperature) :=
  (s.nozzleTemps.zipIdx.map fun p =>
    ("tool" ++ toString p.2, temperature (some p.1) s.nozzleTargets[p.2]?)) ++
  [("bed", temperature s.bedTemp s.bedTarget),
    ("chamber", temperature s.chamberTemp s.chamberTarget)]

/-- The flags of `state`. -/
structure Flags where
  operational : Bool := true
  paused : Bool
  printing : Bool
  cancelling : Bool := false
  pausing : Bool := false
  error : Bool
  ready : Bool
  closedOrError : Bool := false
  deriving DecidableEq

/-- A non-empty status. The name, the path and the display name of the file are one, and the
entries that are always `None` or empty are left out. -/
structure Status where
  ts : Time
  text : StateText
  flags : Flags
  error : Option String
  fileName : Option String
  completion : Option Double
  filepos : ℤ := 0
  printTime : Option ℤ
  printTimeLeft : Option ℤ
  temperatures : List (String × Temperature)
  totalLayerCount : Option ℤ
  currentLayerHeight : Option ℤ
  deriving DecidableEq

/-- `text or None`. -/
def textOrNone (text : String) : Option String := if text = "" then none else some text

/-- The entry `printTimeLeft`, the projected time left of the active job. -/
def printTimeLeft (s : PrinterSnapshot) (active : Bool) : Except Error (Option ℤ) :=
  if active then s.remainingEstimateS else .ok none

/-- The status of a snapshot, given its `printTimeLeft`. -/
def statusOf (s : PrinterSnapshot) (active : Bool) (stateText : StateText) (now : Time)
    (printTimeLeft : Option ℤ) : Status :=
  let hasError : Bool := s.state = .error
  { ts := now
    text := stateText
    flags :=
      { paused := stateText = .paused
        printing := stateText = .printing
        error := hasError
        ready := stateText = .operational }
    error := if hasError then textOrNone s.errorCode else none
    fileName := textOrNone s.fileName
    completion := if active then some (s.progress * .round64 100) else none
    printTime := if active then some s.durationS else none
    printTimeLeft
    temperatures := temperatures s
    totalLayerCount := if active then s.totalLayers else none
    currentLayerHeight := if active then s.layer else none }

/-- `build_status`, whose empty result `{}` is `none`. -/
def buildStatus (snapshot : Option PrinterSnapshot) (tracker : JobTracker) (stateText : StateText)
    (now : Time) : Except Error (Option Status) :=
  match snapshot with
  | none => .ok none
  | some s =>
    if stateText = .offline then .ok none
    else do
      let active : Bool := tracker.activeFile ≠ none
      let left ← printTimeLeft s active
      return some (statusOf s active stateText now left)

/-- The one exception of `build_status` is that of the projected time left. -/
theorem buildStatus_eq_error_iff {snapshot : Option PrinterSnapshot} {t : JobTracker}
    {text : StateText} {now : Time} {e : Error} :
    buildStatus snapshot t text now = .error e ↔
      text ≠ .offline ∧ t.activeFile ≠ none ∧
        ∃ s, snapshot = some s ∧ s.remainingEstimateS = .error e := by
  rcases snapshot with _ | s
  · simp [buildStatus]
  by_cases ht : text = .offline
  · simp [buildStatus, ht]
  by_cases ha : t.activeFile = none
  · simp [buildStatus, printTimeLeft, ht, ha, bind, Except.bind, pure, Except.pure]
  · cases hr : s.remainingEstimateS <;>
      simp [buildStatus, printTimeLeft, ht, ha, hr, bind, Except.bind, pure, Except.pure]

/-- The status is empty without a snapshot, and as long as the printer counts as offline. -/
theorem buildStatus_eq_none_iff {snapshot : Option PrinterSnapshot} {t : JobTracker}
    {text : StateText} {now : Time} :
    buildStatus snapshot t text now = .ok none ↔ snapshot = none ∨ text = .offline := by
  rcases snapshot with _ | s
  · simp [buildStatus]
  by_cases ht : text = .offline
  · simp [buildStatus, ht]
  · simp only [buildStatus, if_neg ht, bind, Except.bind]
    rcases printTimeLeft s (t.activeFile ≠ none) with e | left <;> simp [ht, pure, Except.pure]

/-- A status that is not empty shows the state text it was built with. -/
theorem text_of_buildStatus {snapshot : Option PrinterSnapshot} {t : JobTracker} {text : StateText}
    {now : Time} {status : Status} (h : buildStatus snapshot t text now = .ok (some status)) :
    status.text = text ∧ text ≠ .offline ∧ snapshot ≠ none := by
  rcases snapshot with _ | s
  · simp [buildStatus] at h
  by_cases ht : text = .offline
  · simp [buildStatus, ht] at h
  refine ⟨?_, ht, by simp⟩
  simp only [buildStatus, if_neg ht] at h
  rcases hr : printTimeLeft s (t.activeFile ≠ none) with _ | left
  · rw [hr] at h
    cases h
  · rw [hr] at h
    cases h
    rfl

/-! ## The settings and the message -/

/-- An entry of `settings.webcams`, as `webcam_entry` builds it. -/
structure Webcam where
  name : String
  isPrimaryCamera : Bool
  flipV : Bool := false
  flipH : Bool := false
  rotation : ℤ := 0
  streamRatio : String := "16:9"
  streamUrl : String
  snapshotUrl : String
  deriving DecidableEq

/-- `AGENT_NAME`. -/
def agentName : String := "flashforge_obico"

/-- The settings. The name of the host's platform and the entries that are always empty are left
out. -/
structure Settings where
  webcams : List Webcam
  agent : String := agentName
  deriving DecidableEq

/-- `build_settings`. -/
def buildSettings (webcams : List Webcam) : Settings := { webcams }

/-- A status message. -/
structure Message where
  currentPrintTs : ℤ
  status : Option Status
  event : Option Event
  settings : Option Settings
  deriving DecidableEq

/-- `build_message`. -/
def buildMessage (status : Option Status) (currentPrintTs : ℤ) (event : Option Event)
    (settings : Option Settings) : Message :=
  { currentPrintTs, status, event, settings }

end FlashforgeObico
