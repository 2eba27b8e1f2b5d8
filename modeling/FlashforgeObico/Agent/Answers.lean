import FlashforgeObico.Foundations.JsonText
import FlashforgeObico.Console.Status
import FlashforgeObico.Agent.Endpoints

/-!
# What the console answers

The handlers of `/api/status` and `/api/files` in `__main__.py`, and what the page gets from their
answers. Python writes an infinity and a NaN as words that are no JSON, and the page reads all of an
answer or nothing: `status_is_read_iff` and `files_are_received_iff` say that the page gets an
answer exactly when every float in it is finite. The page has each integer as the nearest binary64
number. A GET request whose body cannot be read gets no answer; the page sends none.
-/

namespace FlashforgeObico

open Py

/-! ## The answers as JSON -/

/-- A value, or `None`. -/
def ofOption {α : Type} (f : α → Json) (x : Option α) : Json := x.elim .null f

/-- A tool of a stored file. -/
def Tool.json (t : Tool) : Json :=
  .obj [("tool_id", ofOption .int t.toolId), ("slot_id", ofOption .int t.slotId),
    ("material", .str t.material), ("color", .str t.color),
    ("weight_g", ofOption .float t.weightG)]

/-- A stored file. -/
def GcodeFile.json (file : GcodeFile) : Json :=
  .obj [("name", .str file.name), ("printing_time_s", ofOption .int file.printingTimeS),
    ("filament_weight_g", ofOption .float file.filamentWeightG),
    ("tool_count", ofOption .int file.toolCount),
    ("uses_material_station", .bool file.usesMaterialStation),
    ("tools", .arr (file.tools.map Tool.json))]

/-- The weights of a stored file. -/
def GcodeFile.weights (file : GcodeFile) : List Double :=
  file.filamentWeightG.toList ++ file.tools.flatMap fun t => t.weightG.toList

/-- The health of a camera. -/
def CameraHealth.json (health : CameraHealth) : Json :=
  .obj [("name", .str health.name), ("streaming", .bool health.streaming),
    ("frame_age_s", ofOption .float health.frameAgeS), ("last_error", .str health.lastError)]

/-- A current temperature and its target. -/
def ConsoleReading.json (r : ConsoleReading) : Json :=
  .obj [("current", ofOption .float r.current), ("target", ofOption .float r.target)]

def ConsoleReading.floats (r : ConsoleReading) : List Double := r.current.toList ++ r.target.toList

/-- An entry of `nozzles`. -/
def ConsoleNozzle.json (n : ConsoleNozzle) : Json :=
  .obj [("tool", .int n.tool), ("current", .float n.current), ("target", ofOption .float n.target)]

/-- An entry of `slots`. -/
def MaterialSlot.json (m : MaterialSlot) : Json :=
  .obj [("slot_id", .int m.slotId), ("has_filament", .bool m.hasFilament),
    ("material", .str m.material), ("color", .str m.color)]

/-- The entry `printer`. -/
def ConsolePrinter.json (p : ConsolePrinter) : Json :=
  .obj [("state", .str p.state), ("has_job", .bool p.hasJob), ("warming_up", .bool p.warmingUp),
    ("paused", .bool p.paused), ("file", .str p.file), ("progress", .float p.progress),
    ("duration_s", .int p.durationS), ("remaining_est_s", ofOption .int p.remainingEstS),
    ("firmware_estimated_s", .int p.firmwareEstimatedS), ("layer", ofOption .int p.layer),
    ("total_layers", ofOption .int p.totalLayers), ("error_code", .str p.errorCode),
    ("light_on", .bool p.lightOn), ("door_open", .bool p.doorOpen), ("model", .str p.model),
    ("temperatures", .obj [("bed", p.bed.json), ("chamber", p.chamber.json),
      ("nozzles", .arr (p.nozzles.map ConsoleNozzle.json))]),
    ("slots", .arr (p.slots.map MaterialSlot.json)), ("can_pause", .bool p.canPause),
    ("can_resume", .bool p.canResume)]

/-- The readings of the printer that are floats. -/
def ConsolePrinter.floats (p : ConsolePrinter) : List Double :=
  p.progress :: (p.bed.floats ++ p.chamber.floats ++
    p.nozzles.flatMap fun n => n.current :: n.target.toList)

/-- The status. -/
def ConsoleStatus.json (status : ConsoleStatus) : Json :=
  .obj ([("ts", .float (.round64 status.ts)), ("version", .str status.version),
    ("connected", .bool status.connected), ("state_text", .str status.stateText.text),
    ("obico", .obj [("connected", .bool status.obicoConnected), ("viewing", .bool status.viewing),
      ("pending_command", ofOption .str status.pendingCommand)]),
    ("camera", ofOption .str status.camera),
    ("cameras", .arr (status.cameras.map CameraHealth.json)),
    ("controls", .arr (status.controls.map .str))] ++
      status.printer.toList.map fun p => ("printer", p.json))

/-- The floats of the status. -/
def ConsoleStatus.floats (status : ConsoleStatus) : List Double :=
  .round64 status.ts :: (status.cameras.flatMap fun c => c.frameAgeS.toList) ++
    status.printer.toList.flatMap ConsolePrinter.floats

/-! ## The handlers -/

/-- `Agent.console_status`, given what the other threads know. -/
def Agent.consoleStatus (obicoConnected : Bool) (cameras : List CameraHealth) (version : String)
    (now : Time) : Method ConsoleStatus := fun a =>
  (buildConsoleStatus a.snapshot a.stateText obicoConnected (a.pendingCommand.map Command.name)
    a.viewing cameras version now, a)

/-- The handler of `/api/status`. -/
def statusHandler (obicoConnected : Bool) (cameras : List CameraHealth) (version : String)
    (now : Time) : ConsoleHandler := fun _ => do
  let status ← onConsole (onAgent (Agent.consoleStatus obicoConnected cameras version now))
  return jsonDumped 200 status.json

/-- `Agent.files`, given what the transport makes of the request. -/
def storedFiles (client : FlashforgeClient) (listing : TransportReply) :
    Except Error (List GcodeFile) :=
  match client.post "gcodeList" listing with
  | .ok body => parseGcodeFiles (.obj body)
  | .error _ => .ok []

/-- The answer of `/api/files`. -/
def filesJson (files : List GcodeFile) : Json := .obj [("files", .arr (files.map GcodeFile.json))]

/-- The handler of `/api/files`. -/
def filesHandler (client : FlashforgeClient) (listing : TransportReply) : ConsoleHandler :=
  fun _ => do
    callPrinter .gcodeList
    let files ← .ofExcept ((storedFiles client listing).mapError .agent)
    return jsonDumped 200 (filesJson files)

/-! ## The page's side -/

/-- The bytes of a response, given `float.__repr__`. -/
def Response.bytes (repr : Double → List Char) (response : Response) : Bytes :=
  match response.payload with
  | .text text => ascii text.toList
  | .dumped v => encodeUtf8 ((dumps repr).write v)

/-- `r.json()`: the body is decoded as UTF-8, without a byte order mark. -/
def fetchedJson (limit : ℕ) (body : Bytes) : Option Json :=
  let text := decodeUtf8 body
  (readJson (scriptDialect limit) (if text.head? = some '\uFEFF' then text.tail else text)).toOption

/-- A tool of a stored file, as the page reads it. -/
structure PageTool where
  material : String
  color : String
  deriving DecidableEq

/-- A stored file, as the page reads it. -/
structure PageFile where
  name : String
  printingTimeS : Option Double
  filamentWeightG : Option Double
  tools : List PageTool
  deriving DecidableEq

/-- An item of `f.tools`. -/
def pageTool (tool : Json) : PageTool where
  material := asStr (Dict.get tool.fields "material")
  color := asStr (Dict.get tool.fields "color")

/-- An item of `j.files`. -/
def pageFile (file : Json) : PageFile where
  name := asStr (Dict.get file.fields "name")
  printingTimeS := (Dict.get file.fields "printing_time_s").float?
  filamentWeightG := (Dict.get file.fields "filament_weight_g").float?
  tools := (Dict.get file.fields "tools").items.map pageTool

/-- `j.files || []`, which becomes `lastFiles`, of what `r.json()` gave. -/
def receivedFiles : Option Json → Option (List PageFile)
  | some (.obj j) =>
    match Dict.get j "files" with
    | .arr files => some (files.map pageFile)
    | .null => some []
    | _ => none
  | _ => none

/-- What the page reads of a stored file. -/
def GcodeFile.received (file : GcodeFile) : PageFile where
  name := file.name
  printingTimeS := file.printingTimeS.map fun n : ℤ => .round64 n
  filamentWeightG := file.filamentWeightG
  tools := file.tools.map fun t => ⟨t.material, t.color⟩

/-! ## The shape of the answers -/

variable {n : ℕ}

theorem within_ofOption {α : Type} {f : α → Json} (h : ∀ x, (f x).Within n) (x : Option α) :
    (ofOption f x).Within n := by
  cases x with
  | none => exact .word rfl
  | some x => exact h x

theorem within_int (m : ℤ) : (Json.int m).Within n := .word rfl

theorem within_float (x : Double) : (Json.float x).Within n := .word rfl

theorem within_bool (b : Bool) : (Json.bool b).Within n := .word rfl

theorem within_map {α : Type} {f : α → Json} (h : ∀ x, (f x).Within n) (xs : List α) :
    (Json.arr (xs.map f)).Within (n + 1) :=
  .arr (List.forall_mem_map.mpr fun x _ => h x)

theorem floats_ofOption_int (x : Option ℤ) : (ofOption .int x).floats = [] := by
  cases x <;> rfl

theorem floats_ofOption_str (x : Option String) : (ofOption .str x).floats = [] := by
  cases x <;> rfl

theorem floats_ofOption_float (x : Option Double) : (ofOption .float x).floats = x.toList := by
  cases x <;> rfl

theorem Tool.within_json (t : Tool) : t.json.Within 1 := by
  refine .obj (by simp) ?_
  simp [within_ofOption, within_int, within_float, Json.Within.str]

theorem GcodeFile.within_json (file : GcodeFile) : file.json.Within 3 := by
  refine .obj (by simp) ?_
  simp [within_ofOption, within_int, within_float, within_bool, Json.Within.str, within_map,
    Tool.within_json]

theorem within_filesJson (files : List GcodeFile) : (filesJson files).Within 5 := by
  refine .obj (by simp) ?_
  simp [within_map, GcodeFile.within_json]

theorem Tool.floats_json (t : Tool) : t.json.floats = t.weightG.toList := by
  simp [Tool.json, floats_ofOption_int, floats_ofOption_float]

theorem GcodeFile.floats_json (file : GcodeFile) : file.json.floats = file.weights := by
  simp [GcodeFile.json, GcodeFile.weights, floats_ofOption_int, floats_ofOption_float,
    List.flatMap_map, Tool.floats_json]

theorem floats_filesJson (files : List GcodeFile) :
    (filesJson files).floats = files.flatMap GcodeFile.weights := by
  simp [filesJson, List.flatMap_map, GcodeFile.floats_json]

theorem CameraHealth.within_json (health : CameraHealth) : health.json.Within (n + 1) := by
  refine .obj (by simp) ?_
  simp [within_ofOption, within_float, within_bool, Json.Within.str]

theorem ConsoleReading.within_json (r : ConsoleReading) : r.json.Within (n + 1) := by
  refine .obj (by simp) ?_
  simp [within_ofOption, within_float]

theorem ConsoleNozzle.within_json (m : ConsoleNozzle) : m.json.Within (n + 1) := by
  refine .obj (by simp) ?_
  simp [within_ofOption, within_int, within_float]

theorem MaterialSlot.within_json (m : MaterialSlot) : m.json.Within (n + 1) := by
  refine .obj (by simp) ?_
  simp [within_int, within_bool, Json.Within.str]

theorem ConsolePrinter.within_json (p : ConsolePrinter) : p.json.Within 4 := by
  have htemperatures : (Json.obj [("bed", p.bed.json), ("chamber", p.chamber.json),
      ("nozzles", .arr (p.nozzles.map ConsoleNozzle.json))]).Within 3 := by
    refine .obj (by simp) ?_
    simp [ConsoleReading.within_json, within_map, ConsoleNozzle.within_json]
  refine .obj (by simp) ?_
  simp [htemperatures, within_ofOption, within_int, within_float, within_bool, Json.Within.str,
    within_map, MaterialSlot.within_json]

theorem ConsoleStatus.within_json (status : ConsoleStatus) : status.json.Within 5 := by
  have hobico : (Json.obj [("connected", .bool status.obicoConnected),
      ("viewing", .bool status.viewing),
      ("pending_command", ofOption .str status.pendingCommand)]).Within 4 := by
    refine .obj (by simp) ?_
    simp [within_ofOption, within_bool, Json.Within.str]
  refine .obj ?_ ?_
  · cases status.printer <;> simp
  · cases status.printer <;>
      simp [hobico, within_ofOption, within_float, within_bool, Json.Within.str, within_map,
        CameraHealth.within_json, ConsolePrinter.within_json]

theorem ConsolePrinter.floats_json (p : ConsolePrinter) : p.json.floats = p.floats := by
  simp [ConsolePrinter.json, ConsolePrinter.floats, ConsoleReading.json, ConsoleReading.floats,
    ConsoleNozzle.json, MaterialSlot.json, floats_ofOption_int, floats_ofOption_float,
    List.flatMap_map]

theorem ConsoleStatus.floats_json (status : ConsoleStatus) :
    status.json.floats = status.floats := by
  simp [ConsoleStatus.json, ConsoleStatus.floats, CameraHealth.json, floats_ofOption_str,
    floats_ofOption_float, List.flatMap_map, ConsolePrinter.floats_json]

/-! ## An answer is read, or nothing of it -/

section Read

variable {loads : Bytes → Except LoadsError Json} {client : FlashforgeClient}
  {replies : PrinterReplies} {pages : Pages} {capacity limit code : ℕ}
  {frames : List (Option Bytes)} {r : HttpRequest} {c : ConsoleServer} {repr : Double → List Char}

theorem fetchedJson_dumped {fields : Dict} (h : (Json.obj fields).Within 5)
    (hrepr : ∀ x ∈ (Json.obj fields).floats, x.isFinite = true → JsonWriter.Reprs repr x)
    (hlimit : 5 ≤ limit) :
    fetchedJson limit ((jsonDumped code (.obj fields)).bytes repr) =
      if (Json.obj fields).floats.all Double.isFinite then some (Json.obj fields).script
      else none := by
  have htext : decodeUtf8 ((jsonDumped code (.obj fields)).bytes repr) =
      (dumps repr).write (.obj fields) := decodeUtf8_encodeUtf8 _
  have hmark : ¬ ((dumps repr).write (.obj fields)).head? = some '\uFEFF' := by
    rw [JsonWriter.write, List.head?_cons]
    decide
  simp only [fetchedJson, htext, if_neg hmark, readJson_dumps h hrepr hlimit]
  split_ifs <;> rfl

/-- The answer of the server when a handler raises. -/
def internalError : Response where
  status := 500
  contentType := "text/plain"
  payload := .text "internal error"

theorem fetchedJson_internalError : fetchedJson limit (internalError.bytes repr) = none := rfl

/-- A GET request that is for neither the health of the server nor a camera. -/
theorem served_get_eq (hmethod : r.method = .get) (hhealth : r.path ≠ "/healthz".toList)
    (hcamera : cameraRoute r.path = none) : served loads client replies pages capacity frames r c =
      (dispatchTo capacity (consoleRoutes loads client replies pages) r { state := c }).2 := by
  rw [served, serve, hmethod]
  simp only [doGet, if_neg hhealth, hcamera]

/-- A GET request whose body cannot be read. -/
theorem served_get_unread {stop : Stop} (hmethod : r.method = .get)
    (hhealth : r.path ≠ "/healthz".toList) (hcamera : cameraRoute r.path = none)
    (hbody : r.body capacity = .error stop) :
    served loads client replies pages capacity frames r c = { state := c } := by
  rw [served_get_eq hmethod hhealth hcamera, dispatchTo, hbody, Procedure.ofExcept_error_bind]

/-- A GET request for one of the console's routes. -/
theorem served_get {route : Route ConsoleServer} {body : Bytes} (hmethod : r.method = .get)
    (hhealth : r.path ≠ "/healthz".toList) (hcamera : cameraRoute r.path = none)
    (hroute : (consoleRoutes loads client replies pages).find?
      (fun route => route.method = .get ∧ route.pattern r.path) = some route)
    (hbody : r.body capacity = .ok body) :
    served loads client replies pages capacity frames r c =
      (answer (route.handler r.path body) { state := c }).2 := by
  rw [served_get_eq hmethod hhealth hcamera, dispatchTo, hbody, Procedure.ofExcept_ok_bind]
  simp only [hmethod, hroute]

variable (client replies) in
/-- The pages of the console, with the handlers of the answers among them. -/
def withAnswers (obicoConnected : Bool) (cameras : List CameraHealth) (version : String)
    (now : Time) (pages : Pages) : Pages :=
  { pages with
    status := statusHandler obicoConnected cameras version now
    files := filesHandler client replies.listing }

/-- The request of the handler, and its answer or what it raises. -/
theorem filesHandler_apply (listing : TransportReply) (body : Bytes) :
    filesHandler client listing body c =
      (((storedFiles client listing).mapError .agent).map fun files =>
          jsonDumped 200 (filesJson files),
        { c with calls := c.calls ++ [.gcodeList] }) := by
  rw [filesHandler]
  cases storedFiles client listing <;> rfl

theorem float?_script_ofOption_int (x : Option ℤ) :
    (ofOption Json.int x).script.float? = x.map fun n : ℤ => .round64 n := by
  cases x <;> rfl

theorem float?_script_ofOption_float (x : Option Double) :
    (ofOption Json.float x).script.float? = x := by
  cases x <;> rfl

theorem pageFile_script_json (file : GcodeFile) : pageFile file.json.script = file.received := by
  have htools : (mapItems Json.number (file.tools.map Tool.json)).map pageTool =
      file.tools.map fun t => (⟨t.material, t.color⟩ : PageTool) := by
    rw [mapItems_eq, List.map_map, List.map_map]
    rfl
  change PageFile.mk file.name (ofOption Json.int file.printingTimeS).script.float?
    (ofOption Json.float file.filamentWeightG).script.float?
      ((mapItems Json.number (file.tools.map Tool.json)).map pageTool) = _
  rw [float?_script_ofOption_int, float?_script_ofOption_float, htools, GcodeFile.received]

theorem receivedFiles_filesJson (files : List GcodeFile) :
    receivedFiles (some (filesJson files).script) = some (files.map GcodeFile.received) := by
  change some ((mapItems Json.number (files.map GcodeFile.json)).map pageFile) = _
  rw [mapItems_eq, List.map_map, List.map_map]
  exact congrArg some (List.map_congr_left fun file _ => pageFile_script_json file)

/-- **The list of stored files.** A request for it asks the printer once, and the page gets the
files that the printer's reply was parsed to, all of them and all that it reads of them, exactly
when every weight is finite. A request whose body cannot be read does nothing. -/
theorem files_are_received_iff (loads : Bytes → Except LoadsError Json) (client : FlashforgeClient)
    (replies : PrinterReplies) (pages : Pages) (obicoConnected : Bool) (cameras : List CameraHealth)
    (version : String) (now : Time) (frames : List (Option Bytes)) (c : ConsoleServer)
    (hmethod : r.method = .get) (hpath : r.path = "/api/files".toList)
    (hrepr : ∀ files, storedFiles client replies.listing = .ok files → ∀ file ∈ files,
      ∀ x ∈ file.weights, x.isFinite = true → JsonWriter.Reprs repr x) (hlimit : 5 ≤ limit) :
    (∀ body, r.body capacity = .ok body → ∃ response, served loads client replies
        (withAnswers client replies obicoConnected cameras version now pages) capacity frames r c =
          { state := { c with calls := c.calls ++ [.gcodeList] },
            replies := [.response response] } ∧
      ∀ received, receivedFiles (fetchedJson limit (response.bytes repr)) = some received ↔
        ∃ files, storedFiles client replies.listing = .ok files ∧
          (∀ file ∈ files, ∀ x ∈ file.weights, x.isFinite = true) ∧
            files.map GcodeFile.received = received) ∧
      ∀ stop, r.body capacity = .error stop → served loads client replies
        (withAnswers client replies obicoConnected cameras version now pages) capacity frames r c =
          { state := c } := by
  have hhealth : r.path ≠ "/healthz".toList := by
    rw [hpath]
    decide
  have hcamera : cameraRoute r.path = none := by
    rw [hpath]
    rfl
  refine ⟨fun body hbody => ?_, fun stop hbody => served_get_unread hmethod hhealth hcamera hbody⟩
  rw [served_get hmethod hhealth hcamera (by rw [hpath]; rfl) hbody]
  simp only [answer, withAnswers, filesHandler_apply]
  rcases hfiles : storedFiles client replies.listing with e | files
  · refine ⟨internalError, rfl, fun received => ?_⟩
    rw [fetchedJson_internalError]
    exact iff_of_false (by rintro ⟨⟩) (by rintro ⟨_, ⟨⟩, -⟩)
  · refine ⟨jsonDumped 200 (filesJson files), rfl, fun received => ?_⟩
    have hmem (x : Double) : x ∈ (filesJson files).floats ↔ ∃ file ∈ files, x ∈ file.weights := by
      rw [floats_filesJson, List.mem_flatMap]
    have hfetched : fetchedJson limit ((jsonDumped 200 (filesJson files)).bytes repr) =
        if (filesJson files).floats.all Double.isFinite then some (filesJson files).script
        else none := by
      refine fetchedJson_dumped (within_filesJson files) (fun x hx => ?_) hlimit
      obtain ⟨file, hfile, hx⟩ := (hmem x).mp hx
      exact hrepr files hfiles file hfile x hx
    have hfinite : (filesJson files).floats.all Double.isFinite = true ↔
        ∀ file ∈ files, ∀ x ∈ file.weights, x.isFinite = true := by
      rw [List.all_eq_true]
      exact ⟨fun h file hfile x hx => h x ((hmem x).mpr ⟨file, hfile, hx⟩), fun h x hx => by
        obtain ⟨file, hfile, hx⟩ := (hmem x).mp hx
        exact h file hfile x hx⟩
    rw [hfetched]
    simp only [Except.ok.injEq, exists_eq_left']
    split_ifs with hall
    · rw [receivedFiles_filesJson, Option.some.injEq]
      exact ⟨fun hreceived => ⟨hfinite.mp hall, hreceived⟩, fun h => h.2⟩
    · exact iff_of_false (by rintro ⟨⟩) fun h => hall (hfinite.mpr h.1)

/-- The handler, and its answer or what it raises. -/
theorem statusHandler_apply {obicoConnected : Bool} {cameras : List CameraHealth}
    {version : String} {now : Time} (body : Bytes) :
    statusHandler obicoConnected cameras version now body c =
      (((Agent.consoleStatus obicoConnected cameras version now c.agent).1.mapError .agent).map
        fun status => jsonDumped 200 status.json, c) := by
  have hcall : onConsole (onAgent (Agent.consoleStatus obicoConnected cameras version now)) c =
      ((Agent.consoleStatus obicoConnected cameras version now c.agent).1.mapError .agent, c) := rfl
  rw [statusHandler]
  rcases hstatus : (Agent.consoleStatus obicoConnected cameras version now c.agent).1 with
    e | status
  · rw [hstatus] at hcall
    exact Procedure.bind_of_error hcall
  · rw [hstatus] at hcall
    exact Procedure.bind_of_ok hcall

/-- **The status.** The page gets the status of the agent, with its integers as the nearest binary64
numbers, exactly when there is one and every float in it is finite, and nothing of it otherwise. A
request whose body cannot be read does nothing. -/
theorem status_is_read_iff (loads : Bytes → Except LoadsError Json) (client : FlashforgeClient)
    (replies : PrinterReplies) (pages : Pages) (obicoConnected : Bool) (cameras : List CameraHealth)
    (version : String) (now : Time) (frames : List (Option Bytes)) (c : ConsoleServer)
    (hmethod : r.method = .get) (hpath : r.path = "/api/status".toList)
    (hrepr : ∀ status, (Agent.consoleStatus obicoConnected cameras version now c.agent).1 =
      .ok status → ∀ x ∈ status.floats, x.isFinite = true → JsonWriter.Reprs repr x)
    (hlimit : 5 ≤ limit) :
    (∀ body, r.body capacity = .ok body → ∃ response, served loads client replies
        (withAnswers client replies obicoConnected cameras version now pages) capacity frames r c =
          { state := c, replies := [.response response] } ∧
      ∀ v, fetchedJson limit (response.bytes repr) = some v ↔
        ∃ status, (Agent.consoleStatus obicoConnected cameras version now c.agent).1 = .ok status ∧
          (∀ x ∈ status.floats, x.isFinite = true) ∧ status.json.script = v) ∧
      ∀ stop, r.body capacity = .error stop → served loads client replies
        (withAnswers client replies obicoConnected cameras version now pages) capacity frames r c =
          { state := c } := by
  have hhealth : r.path ≠ "/healthz".toList := by
    rw [hpath]
    decide
  have hcamera : cameraRoute r.path = none := by
    rw [hpath]
    rfl
  refine ⟨fun body hbody => ?_, fun stop hbody => served_get_unread hmethod hhealth hcamera hbody⟩
  rw [served_get hmethod hhealth hcamera (by rw [hpath]; rfl) hbody]
  simp only [answer, withAnswers, statusHandler_apply]
  rcases hstatus : (Agent.consoleStatus obicoConnected cameras version now c.agent).1 with
    e | status
  · refine ⟨internalError, rfl, fun v => ?_⟩
    rw [fetchedJson_internalError]
    exact iff_of_false (by rintro ⟨⟩) (by rintro ⟨_, ⟨⟩, -⟩)
  · refine ⟨jsonDumped 200 status.json, rfl, fun v => ?_⟩
    have hfetched : fetchedJson limit ((jsonDumped 200 status.json).bytes repr) =
        if status.json.floats.all Double.isFinite then some status.json.script else none := by
      refine fetchedJson_dumped status.within_json (fun x hx => ?_) hlimit
      have hx : x ∈ status.json.floats := hx
      rw [ConsoleStatus.floats_json] at hx
      exact hrepr status hstatus x hx
    rw [hfetched, ConsoleStatus.floats_json]
    simp only [Except.ok.injEq, exists_eq_left', ← List.all_eq_true]
    split_ifs with hall
    · rw [Option.some.injEq]
      exact ⟨fun hv => ⟨hall, hv⟩, fun h => h.2⟩
    · exact iff_of_false (by rintro ⟨⟩) fun h => hall h.1

end Read

/-! ## A weight and a temperature that are no numbers -/

/-- A request for the list of stored files. -/
def getFiles : HttpRequest where
  method := .get
  target := "/api/files".toList
  contentLength := none
  sent := []
  closes := false

/-- A printer with two files, one of which has a weight of `nan`. -/
def nanReplies : PrinterReplies :=
  { emptyReplies with
    listing := .ok (.obj [("code", .int 0), ("gcodeList", .arr [.str "a.gcode", .str "b.gcode"]),
      ("gcodeListDetail", .arr [
        .obj [("gcodeFileName", .str "a.gcode"), ("totalFilamentWeight", .float (.round64 12.5))],
        .obj [("gcodeFileName", .str "b.gcode"), ("totalFilamentWeight", .str "nan")]])]) }

/-- What the agent makes of them. -/
def nanFiles : List GcodeFile :=
  [⟨"a.gcode", none, some (.round64 12.5), none, false, []⟩,
    ⟨"b.gcode", none, some .nan, none, false, []⟩]

/-- `repr(12.5)`. -/
theorem reprs_weight : JsonWriter.Reprs (fun _ => "12.5".toList) (.round64 12.5) where
  ne_nil := by decide
  chars := List.all_eq_true.mp rfl
  value := by
    have h : float? "12.5".toList = some (.round64 12.5) := by decide +kernel
    change (float? "12.5".toList).map Json.float = _
    rw [h]
    rfl

/-- The page gets neither of the two files. -/
theorem nan_weight_hides_files : ∃ response, served listLoads ⟨"1234"⟩ nanReplies
      (withAnswers ⟨"1234"⟩ nanReplies true [] "1.0" 0 emptyPages) 65536 [] getFiles
      ⟨idleAgent, []⟩ =
        { state := ⟨idleAgent, [.gcodeList]⟩, replies := [.response response] } ∧
    ∀ received, receivedFiles (fetchedJson 5 (response.bytes fun _ => "12.5".toList)) ≠
      some received := by
  have hbody : getFiles.body 65536 = .ok [] := rfl
  have hfiles : storedFiles ⟨"1234"⟩ nanReplies.listing = .ok nanFiles := rfl
  have hrepr : ∀ files, storedFiles ⟨"1234"⟩ nanReplies.listing = .ok files → ∀ file ∈ files,
      ∀ x ∈ file.weights, x.isFinite = true → JsonWriter.Reprs (fun _ => "12.5".toList) x := by
    intro files hof file hfile x hx hfinite
    obtain rfl := Except.ok.inj (hfiles.symm.trans hof)
    have hmem : x ∈ [Double.round64 12.5, .nan] := List.mem_flatMap.mpr ⟨file, hfile, hx⟩
    rcases List.mem_cons.mp hmem with rfl | hmem
    · exact reprs_weight
    · rw [List.mem_singleton.mp hmem] at hfinite
      cases hfinite
  obtain ⟨response, hserved, hreceived⟩ := (files_are_received_iff listLoads ⟨"1234"⟩ nanReplies
    emptyPages true [] "1.0" 0 [] ⟨idleAgent, []⟩ (r := getFiles) rfl rfl hrepr (le_refl 5)).1 []
      hbody
  refine ⟨response, hserved, fun received hfetched => ?_⟩
  obtain ⟨files, hof, hfinite, -⟩ := (hreceived received).mp hfetched
  obtain rfl := Except.ok.inj (hfiles.symm.trans hof)
  have hnan := hfinite _ (List.mem_cons_of_mem _ List.mem_cons_self) .nan List.mem_cons_self
  cases hnan

/-- A request for the status. -/
def getStatus : HttpRequest := { getFiles with target := "/api/status".toList }

/-- An agent whose printer reported a temperature of the bed that is no number. -/
def nanAgent : Agent :=
  { idleAgent with snapshot := idleAgent.snapshot.map fun s => { s with bedTemp := some .nan } }

/-- `repr(0.0)`. -/
theorem reprs_zero : JsonWriter.Reprs (fun _ => "0.0".toList) (.round64 0) where
  ne_nil := by decide
  chars := List.all_eq_true.mp rfl
  value := by
    have h : float? "0.0".toList = some (.round64 0) := by decide +kernel
    change (float? "0.0".toList).map Json.float = _
    rw [h]
    rfl

/-- The page gets nothing of the status. -/
theorem nan_temperature_hides_status : ∃ response, served listLoads ⟨"1234"⟩ emptyReplies
      (withAnswers ⟨"1234"⟩ emptyReplies true [] "1.0" 0 emptyPages) 65536 [] getStatus
      ⟨nanAgent, []⟩ = { state := ⟨nanAgent, []⟩, replies := [.response response] } ∧
    fetchedJson 5 (response.bytes fun _ => "0.0".toList) = none := by
  have hbody : getStatus.body 65536 = .ok [] := rfl
  have hfloats : (Agent.consoleStatus true [] "1.0" 0 nanAgent).1.map ConsoleStatus.floats =
      .ok [.round64 0, .round64 0, .nan] := by
    decide +kernel
  obtain ⟨status, hstatus, hfloats⟩ := Except.map_eq_ok_iff.mp hfloats
  have hrepr : ∀ status', (Agent.consoleStatus true [] "1.0" 0 nanAgent).1 = .ok status' →
      ∀ x ∈ status'.floats, x.isFinite = true → JsonWriter.Reprs (fun _ => "0.0".toList) x := by
    intro status' hstatus' x hx hfinite
    obtain rfl := Except.ok.inj (hstatus.symm.trans hstatus')
    rw [hfloats] at hx
    simp only [List.mem_cons, List.not_mem_nil, or_false] at hx
    rcases hx with rfl | rfl | rfl
    · exact reprs_zero
    · exact reprs_zero
    · cases hfinite
  obtain ⟨response, hserved, hread⟩ := (status_is_read_iff listLoads ⟨"1234"⟩ emptyReplies
    emptyPages true [] "1.0" 0 [] ⟨nanAgent, []⟩ (r := getStatus) rfl rfl hrepr (le_refl 5)).1 []
      hbody
  refine ⟨response, hserved, Option.eq_none_iff_forall_not_mem.mpr fun v hv => ?_⟩
  obtain ⟨status', hstatus', hfinite, -⟩ := (hread v).mp hv
  obtain rfl := Except.ok.inj (hstatus.symm.trans hstatus')
  have hnan : Double.isFinite .nan = true := hfinite .nan (by rw [hfloats]; simp)
  cases hnan

end FlashforgeObico
