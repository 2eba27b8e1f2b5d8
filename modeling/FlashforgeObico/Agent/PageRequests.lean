import FlashforgeObico.Foundations.JsonText
import FlashforgeObico.Agent.Answers

/-!
# The requests of the page

The script of `console/page.html` posts what is tapped as JSON, and the handlers in `__main__.py`
decode it. `page_requests_are_understood` says that the agent does what was tapped: it queues the
very command, switches the light to the very state, and starts the very file, whatever characters
its name is made of.
-/

namespace FlashforgeObico

open Py

/-- What the page asks for. -/
inductive PageRequest
  | pause
  | resume
  | light (on : Bool)
  | print (fileName : String)
  deriving DecidableEq

/-- `json.loads` reads the UTF-8 of a text as the text. It takes bytes with a zero among the first
few, and bytes with a byte order mark, for another encoding. -/
def LoadsUtf8 (limit : ℕ) (loads : Bytes → Except LoadsError Json) : Prop :=
  ∀ cs v, '\x00' ∉ cs → cs.head? ≠ some '\uFEFF' → readJson (loadsDialect limit) cs = .ok v →
    loads (encodeUtf8 cs) = .ok v

namespace PageRequest

/-- The route that a request is posted to. -/
def endpoint : PageRequest → Endpoint
  | pause | resume => .job
  | light _ => .light
  | print _ => .print

/-- The value of the field that the route requires. -/
def value : PageRequest → Json
  | pause => .str "pause"
  | resume => .str "resume"
  | light on => .bool on
  | print fileName => .str fileName

/-- The object that is posted. -/
def json (request : PageRequest) : Json := .obj [(request.endpoint.key, request.value)]

/- How `JSON.stringify` writes numbers. -/
variable (int : ℤ → List Char) (float : Double → List Char)

/-- `JSON.stringify(body)`. -/
def text (request : PageRequest) : List Char := (stringify int float).write request.json

/-- The bytes that are posted. -/
def bytes (request : PageRequest) : Bytes := encodeUtf8 (request.text int float)

/-- The HTTP request. -/
def http (request : PageRequest) : HttpRequest where
  method := .post
  target := request.endpoint.path
  contentLength := some (Nat.toDigits 10 (request.bytes int float).length)
  sent := request.bytes int float
  closes := false

/-- What the agent does, and its answer. -/
def handled (client : FlashforgeClient) (replies : PrinterReplies) (request : PageRequest)
    (c : ConsoleServer) : Response × ConsoleServer :=
  match request with
  | pause =>
    (jsonDumped 202 (.obj [("accepted", .str "pause")]),
      { c with agent := c.agent.enqueueAll .console [.pause] })
  | resume =>
    (jsonDumped 202 (.obj [("accepted", .str "resume")]),
      { c with agent := c.agent.enqueueAll .console [.resume] })
  | light on =>
    (if (client.post "control" replies.light).toBool then
        jsonDumped 200 (.obj [("light_on", .bool on)])
      else jsonDumped 502 (.obj [("light_on", .null)]),
      { c with calls := c.calls ++ [.lightControl (if on then "open" else "close")] })
  | print fileName =>
    let started := Agent.startPrint fileName (client.post "gcodeList" replies.listing)
      ((client.post "printGcode" replies.start).map fun _ => ()) c.agent
    (match started.1 with
      | .ok none => jsonDumped 202 (.obj [("started", .str fileName)])
      | .ok (some refusal) => jsonDumped 409 (.obj [("error", .str refusal.value)])
      | .error _ => internalError,
      { agent := started.2, calls := c.calls ++ [.gcodeList] })

/-! ## The text is read -/

variable {int float} {limit capacity : ℕ} {loads : Bytes → Except LoadsError Json}
  {request : PageRequest}

theorem printable_unicodeEscape (n : ℕ) : ∀ c ∈ unicodeEscape n, 0x20 ≤ c.toNat := by
  have hdigit : ∀ m < 16, 0x20 ≤ (Nat.digitChar m).toNat := by decide
  have hlt (m : ℕ) : m % 16 < 16 := Nat.mod_lt _ (by decide)
  simp only [unicodeEscape, List.forall_mem_cons]
  exact ⟨by decide, by decide, hdigit _ (hlt _), hdigit _ (hlt _), hdigit _ (hlt _),
    hdigit _ (hlt _), by simp⟩

theorem printable_stringifyChar (c : Char) : ∀ c' ∈ stringifyChar c, 0x20 ≤ c'.toNat := by
  have hall : (JsonReader.letters.all fun p => decide (0x20 ≤ p.1.toNat)) = true := rfl
  rw [stringifyChar]
  rcases hl : letterOf c with _ | l
  · dsimp only
    split_ifs with hc
    · exact printable_unicodeEscape _
    · exact List.forall_mem_singleton.mpr (not_lt.mp hc)
  · obtain ⟨p, hp, rfl⟩ := Option.map_eq_some_iff.mp hl
    have hletter := of_decide_eq_true (List.all_eq_true.mp hall p (List.mem_of_find?_eq_some hp))
    simp only [List.forall_mem_cons]
    exact ⟨by decide, hletter, by simp⟩

theorem printable_quote (s : String) :
    ∀ c ∈ (stringify int float).quote s, 0x20 ≤ c.toNat := by
  rw [JsonWriter.quote, List.forall_mem_cons, List.forall_mem_append]
  refine ⟨by decide, fun c hc => ?_, List.forall_mem_singleton.mpr (by decide)⟩
  obtain ⟨c', -, hc⟩ := List.mem_flatMap.mp hc
  exact printable_stringifyChar c' c hc

theorem printable_bool (b : Bool) :
    ∀ c ∈ (stringify int float).write (.bool b), 0x20 ≤ c.toNat := by
  have htrue : ("true".toList.all fun c => decide (0x20 ≤ c.toNat)) = true := rfl
  have hfalse : ("false".toList.all fun c => decide (0x20 ≤ c.toNat)) = true := rfl
  intro c hc
  cases b with
  | true => exact of_decide_eq_true (List.all_eq_true.mp htrue c hc)
  | false => exact of_decide_eq_true (List.all_eq_true.mp hfalse c hc)

theorem text_eq (request : PageRequest) : request.text int float =
    '\x7b' :: ((stringify int float).quote request.endpoint.key ++
      ':' :: ((stringify int float).write request.value ++ ['\x7d'])) := by
  simp [text, json, JsonWriter.write, JsonWriter.writeFields, JsonWriter.writeField, JsonWriter.join,
    stringify]

theorem printable_text (request : PageRequest) : ∀ c ∈ request.text int float, 0x20 ≤ c.toNat := by
  have hvalue : ∀ c ∈ (stringify int float).write request.value, 0x20 ≤ c.toNat := by
    cases request with
    | pause | resume | print _ => exact printable_quote _
    | light on => exact printable_bool on
  rw [text_eq]
  simp only [List.forall_mem_cons, List.forall_mem_append]
  exact ⟨by decide, printable_quote _, by decide, hvalue, by decide, by simp⟩

theorem within_json (request : PageRequest) : request.json.Within 1 := by
  refine .obj (by simp) ?_
  cases request <;> simp [value, within_bool, Json.Within.str]

/-- What is posted is decoded to the object that it was written for. -/
theorem loads_bytes (hloads : LoadsUtf8 limit loads) (hlimit : 1 ≤ limit) (request : PageRequest) :
    loads (request.bytes int float) = .ok request.json := by
  have hclear : ∀ x ∈ request.json.leaves,
      JsonWriter.Clear (loadsDialect limit) (stringify int float) id x := by
    have hleaves : request.json.leaves = [request.value] := by cases request <;> rfl
    rw [hleaves, List.forall_mem_singleton]
    cases request with
    | pause | resume | print _ => rintro ⟨⟩
    | light on =>
      have hsame {v : Json} : ∀ v' ∈ some v, v' = id v := fun v' hv => (Option.some.inj hv).symm
      cases on
      · exact fun _ => ⟨List.cons_ne_nil _ _, List.all_eq_true.mp rfl, hsame⟩
      · exact fun _ => ⟨List.cons_ne_nil _ _, List.all_eq_true.mp rfl, hsame⟩
  have hreadable : request.json.leaves.all ((stringify int float).readable (loadsDialect limit)) =
      true := by
    cases request with
    | pause | resume | print _ => rfl
    | light on => cases on <;> rfl
  have hsame : request.json.mapWords id = request.json := by cases request <;> rfl
  have hread := readJson_write (JsonWriter.sound_stringify int float) request.within_json hclear hlimit
  rw [if_pos hreadable, hsame] at hread
  refine hloads _ _ (fun hmem => ?_) ?_ hread
  · exact absurd (printable_text request _ hmem) (by decide)
  · rw [text_eq, List.head?_cons]
    decide

/-- The handler gets the value that the route requires. -/
theorem requested_bytes (hloads : LoadsUtf8 limit loads) (hlimit : 1 ≤ limit)
    (request : PageRequest) :
    requested loads request.endpoint.key (request.bytes int float) = .ok request.value := by
  have hne : request.bytes int float ≠ [] := by
    rw [bytes, text_eq, encodeUtf8, List.flatMap_cons]
    exact List.append_ne_nil_of_left_ne_nil (List.cons_ne_nil _ _) _
  rw [requested, if_neg hne, loads_bytes hloads hlimit]
  cases request <;> rfl

/-- The server gets all of the body. -/
theorem postsTo_http (hfits : (request.bytes int float).length ≤ capacity)
    (hcapacity : capacity < 10 ^ maxStrDigits) :
    PostsTo capacity (request.http int float) request.endpoint (request.bytes int float) := by
  have hpath : (request.http int float).path = request.endpoint.path := by
    cases request <;> rfl
  have hpos : 0 < (request.bytes int float).length := by
    rw [bytes, text_eq, encodeUtf8, List.flatMap_cons, List.length_append]
    exact Nat.add_pos_left (by decide) _
  have hstrip : strip ([] ++ Nat.toDigits 10 (request.bytes int float).length ++ []) =
      Nat.toDigits 10 (request.bytes int float).length := by
    refine strip_append Nat.toDigits_ne_nil (fun c hc => ?_) (by simp) (by simp)
    exact isSpace_of_isDigit (isDigit_of_mem_toDigits hc)
  rw [List.nil_append, List.append_nil] at hstrip
  have hlength : (request.http int float).length? =
      some ((request.bytes int float).length : ℤ) := by
    rw [HttpRequest.length?, http]
    dsimp only
    rw [if_neg Nat.toDigits_ne_nil, hstrip, int?_toDigits (by omega)]
  refine ⟨rfl, hpath, ?_⟩
  rw [HttpRequest.body, hlength]
  dsimp only
  rw [if_neg (by omega), if_neg (by omega), if_neg (by omega), if_neg (by omega),
    if_pos (by simp [http])]
  simp [http]

/-- What the handler of `/api/print` makes of a name. -/
theorem printHandler_apply {body : Bytes} {fileName : String} {client : FlashforgeClient}
    {replies : PrinterReplies} (h : requested loads "file" body = .ok (.str fileName))
    (c : ConsoleServer) :
    (answer (printHandler loads client replies body) { state := c }).2 =
      { state := (handled client replies (print fileName) c).2,
        replies := [.response (handled client replies (print fileName) c).1] } := by
  have hcall : printHandler loads client replies body c =
      onConsole (startPrintHandler loads client body replies.listing replies.start)
        { c with calls := c.calls ++ [.gcodeList] } := by
    rw [printHandler, h]
    rfl
  simp only [answer, hcall, onConsole, handled]
  rw [startPrintHandler, h, Procedure.ofExcept_ok_bind]
  dsimp only
  rcases hstart : Agent.startPrint fileName (client.post "gcodeList" replies.listing)
    ((client.post "printGcode" replies.start).map fun _ => ()) c.agent with ⟨e | _ | refusal, a⟩
  · rw [Procedure.bind_of_error (onAgent_of_error hstart)]
    rfl
  · rw [Procedure.bind_of_ok (onAgent_of_ok hstart)]
    rfl
  · rw [Procedure.bind_of_ok (onAgent_of_ok hstart)]
    rfl

/-- What the handler of the route makes of the body. -/
theorem handler_bytes (hloads : LoadsUtf8 limit loads) (hlimit : 1 ≤ limit)
    (client : FlashforgeClient) (replies : PrinterReplies) (request : PageRequest)
    (c : ConsoleServer) :
    (answer (request.endpoint.handler loads client replies (request.bytes int float))
      { state := c }).2 =
        { state := (request.handled client replies c).2,
          replies := [.response (request.handled client replies c).1] } := by
  have hrequested : requested loads request.endpoint.key (request.bytes int float) =
      .ok request.value := requested_bytes hloads hlimit request
  have hhandler (handler : ConsoleHandler)
      (h : handler (request.bytes int float) c =
        (.ok (request.handled client replies c).1, (request.handled client replies c).2)) :
      (answer (handler (request.bytes int float)) { state := c }).2 =
        { state := (request.handled client replies c).2,
          replies := [.response (request.handled client replies c).1] } := by
    simp only [answer, h]
    rfl
  cases request with
  | pause =>
    apply hhandler
    change requested loads "action" _ = .ok (.str "pause") at hrequested
    rw [endpoint, Endpoint.handler, jobHandler, hrequested, Procedure.ofExcept_ok_bind]
    rfl
  | resume =>
    apply hhandler
    change requested loads "action" _ = .ok (.str "resume") at hrequested
    rw [endpoint, Endpoint.handler, jobHandler, hrequested, Procedure.ofExcept_ok_bind]
    rfl
  | light on =>
    apply hhandler
    change requested loads "on" _ = .ok (.bool on) at hrequested
    rw [endpoint, Endpoint.handler, lightHandler, hrequested, Procedure.ofExcept_ok_bind]
    dsimp only
    have hset : setLight client replies on c = (.ok (client.post "control" replies.light).toBool,
        { c with calls := c.calls ++ [.lightControl (if on then "open" else "close")] }) := rfl
    rw [Procedure.bind_of_ok hset, handled]
    cases (client.post "control" replies.light).toBool <;> rfl
  | print fileName => exact printHandler_apply hrequested c

/-- **The agent does what is tapped.** Each request that the page posts gets one response, and the
agent has queued the command, asked the printer for the light, or started the file that was
tapped. -/
theorem page_requests_are_understood (hloads : LoadsUtf8 limit loads) (hlimit : 1 ≤ limit)
    (client : FlashforgeClient) (replies : PrinterReplies) (pages : Pages)
    (frames : List (Option Bytes)) (c : ConsoleServer)
    (hfits : (request.bytes int float).length ≤ capacity)
    (hcapacity : capacity < 10 ^ maxStrDigits) :
    served loads client replies pages capacity frames (request.http int float) c =
      { state := (request.handled client replies c).2,
        replies := [.response (request.handled client replies c).1] } := by
  rw [served, serve_of_postsTo (postsTo_http hfits hcapacity)]
  exact handler_bytes hloads hlimit client replies request c

end PageRequest

/-! ## A name with quotation marks -/

/-- `json.loads`, on UTF-8. -/
def utf8Loads (limit : ℕ) (body : Bytes) : Except LoadsError Json :=
  match readJson (loadsDialect limit) (decodeUtf8 body) with
  | .ok v => .ok v
  | .error .nested => .error .other
  | .error _ => .error .valueError

theorem loadsUtf8_utf8Loads (limit : ℕ) : LoadsUtf8 limit (utf8Loads limit) := by
  intro cs v _ _ hread
  rw [utf8Loads, decodeUtf8_encodeUtf8, hread]

/-- The name. -/
def quotedName : String := "\"é\".gcode"

/-- A printer that lists the file, and starts it. -/
def quotedReplies : PrinterReplies where
  light := .ok (.obj [])
  listing := .ok (.obj [("code", .int 0), ("gcodeList", .arr [.str quotedName])])
  start := .ok (.obj [("code", .int 0)])

/-- The very file is started. -/
theorem quoted_file_is_started : .printGcode quotedName [] true ∈
    (served (utf8Loads 1) ⟨"1234"⟩ quotedReplies emptyPages 65536 []
      ((PageRequest.print quotedName).http intText fun _ => []) ⟨idleAgent, []⟩).state.agent.trace := by
  have hfits : ((PageRequest.print quotedName).bytes intText fun _ => []).length ≤ 65536 := by
    decide
  have hcapacity : 65536 < 10 ^ maxStrDigits := by
    have hfive : 65536 < 10 ^ 5 := by decide
    exact hfive.trans_le (Nat.pow_le_pow_right (by decide) (by decide))
  rw [PageRequest.page_requests_are_understood (loadsUtf8_utf8Loads 1) le_rfl _ _ _ _ _ hfits
    hcapacity]
  decide +kernel

end FlashforgeObico
