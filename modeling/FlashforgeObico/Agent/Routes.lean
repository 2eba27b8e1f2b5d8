import FlashforgeObico.Foundations.PythonBytes
import FlashforgeObico.Agent.Console

/-!
# The routes of the phone console

The handler of `/api/print` in `__main__.py`, as the HTTP server dispatches it. Anyone on the LAN
can send it anything, and it starts a real machine. `print_guarded` says which requests do: those
that name a file which the printer lists, in the reply that is read during the request, while the
snapshot that the agent has shows it idle.
-/

namespace FlashforgeObico

open Py

/-! ## Responses -/

/-- The body of a response: the bytes of a text, or what `json.dumps` makes of a value. -/
inductive Payload
  | text (text : String)
  | dumped (v : Json)

/-- What a handler returns: status, content type and body. -/
structure Response where
  status : ℕ
  contentType : String
  payload : Payload

/-- What `json.loads` raises: `ValueError`, or another exception, as on values that are nested too
deeply. -/
inductive LoadsError
  | valueError
  | other
  deriving DecidableEq

/-- What a handler raises. -/
inductive RouteError
  | loads
  /-- The decoded body has no `get`. -/
  | attributeError
  | agent (e : Error)
  deriving DecidableEq

/-- A route handler. -/
abbrev RouteHandler := Procedure RouteError Agent Response

/-- `_dispatch`, to the handler of the route that matches. -/
def dispatch (handler : RouteHandler) (a : Agent) : Response × Agent :=
  match handler a with
  | (.ok response, b) => (response, b)
  | (.error _, b) =>
    ({ status := 500, contentType := "text/plain", payload := .text "internal error" }, b)

/-- A method of the agent, called by a handler. -/
def onAgent {α : Type} (method : Method α) : Procedure RouteError Agent α := fun a =>
  ((method a).1.mapError .agent, (method a).2)

theorem onAgent_of_ok {α : Type} {method : Method α} {a b : Agent} {x : α}
    (h : method a = (.ok x, b)) : onAgent method a = (.ok x, b) := by
  rw [onAgent, h]
  rfl

theorem onAgent_of_error {α : Type} {method : Method α} {a b : Agent} {e : Error}
    (h : method a = (.error e, b)) : onAgent method a = (.error (.agent e), b) := by
  rw [onAgent, h]
  rfl

/-! ## The handler -/

/-- `refusal.value`. -/
def Agent.PrintRefused.value : Agent.PrintRefused → String
  | .notReady => "not_ready"
  | .unknownFile => "unknown_file"

section Print

/- `json.loads`, on bytes. -/
variable (loads : Bytes → Except LoadsError Json)

/-- `b"{}"`. -/
def braces : Bytes := [0x7b, 0x7d]

/-- `json.loads(body or b"{}").get(key)`, which is `None` on a `ValueError`. -/
def requested (key : String) (body : Bytes) : Except RouteError Json :=
  match loads (if body = [] then braces else body) with
  | .ok (.obj fields) => .ok (Dict.get fields key)
  | .ok _ => .error .attributeError
  | .error .valueError => .ok .null
  | .error .other => .error .loads

/-- `start_print`, the handler: given the body of the request, and what the transport makes of the
requests to `gcodeList` and `printGcode`. -/
def startPrintHandler (client : FlashforgeClient) (body : Bytes) (listing answer : TransportReply) :
    RouteHandler := do
  match ← .ofExcept (requested loads "file" body) with
  | .str name =>
    let refusal ← onAgent (Agent.startPrint name (client.post "gcodeList" listing)
      ((client.post "printGcode" answer).map fun _ => ()))
    match refusal with
    | none => return {
        status := 202
        contentType := "application/json"
        payload := .dumped (.obj [("started", .str name)]) }
    | some refusal => return {
        status := 409
        contentType := "application/json"
        payload := .dumped (.obj [("error", .str refusal.value)]) }
  | _ => return {
      status := 400
      contentType := "application/json"
      payload := .text "\x7b\"error\": \"file must be a name from /api/files\"\x7d" }

/-- The response to a request to `/api/print`, and the agent after it. -/
def postPrint (client : FlashforgeClient) (body : Bytes) (listing answer : TransportReply) :
    Agent → Response × Agent :=
  dispatch (startPrintHandler loads client body listing answer)

/-- What lets a request start a file: the body is an object that names it, the reply to `gcodeList`
succeeds, is parsed and lists it, and the snapshot that the agent has is ready to start. -/
structure Allowed (body : Bytes) (listing : TransportReply) (snapshot : Option PrinterSnapshot)
    (name : String) : Prop where
  named : ∃ fields, loads body = .ok (.obj fields) ∧ Dict.get fields "file" = .str name
  ne_empty : name ≠ ""
  listed : ∃ reply files, listing = .ok (.obj reply) ∧
    FlashforgeClient.resultCode reply = some 0 ∧ parseGcodeFiles (.obj reply) = .ok files ∧
      Lists reply name
  ready : ∃ s ∈ snapshot, s.state ∈ Agent.readyToStart

variable {loads} {client : FlashforgeClient} {body : Bytes} {listing : TransportReply} {a : Agent}
  {name : String}

/-- The text that is requested, when `json.loads` reads an empty object in `{}` and nothing in
nothing. -/
theorem requested_eq_str_iff {key : String} (hnil : loads [] = .error .valueError)
    (hbraces : loads braces = .ok (.obj [])) :
    requested loads key body = .ok (.str name) ↔
      ∃ fields, loads body = .ok (.obj fields) ∧ Dict.get fields key = .str name := by
  rw [requested]
  split_ifs with hbody
  · subst hbody
    simp [hbraces, hnil, Dict.get, Dict.get?]
  · rcases loads body with (_ | _) | (_ | _ | _ | _ | _ | _ | fields) <;> simp

/-- A request is allowed exactly when the guard of `start_print` lets it pass. -/
theorem allowed_iff (hnil : loads [] = .error .valueError)
    (hbraces : loads braces = .ok (.obj [])) (client : FlashforgeClient) :
    Allowed loads body listing a.snapshot name ↔ requested loads "file" body = .ok (.str name) ∧
      ∃ ms, (Agent.guardStart name (client.post "gcodeList" listing) a).1 = .ok (.ok ms) := by
  rw [requested_eq_str_iff hnil hbraces, Agent.guardStart_ok_iff]
  constructor
  · rintro ⟨hnamed, hne, ⟨reply, files, rfl, hcode, hfiles, hlists⟩, hready⟩
    exact ⟨hnamed, reply, files, FlashforgeClient.post_eq_ok_iff.mpr ⟨rfl, hcode⟩, hfiles, hready,
      hne, (mem_parseGcodeFiles hfiles hne).mpr hlists⟩
  · rintro ⟨hnamed, reply, files, hpost, hfiles, hready, hne, hmem⟩
    obtain ⟨hlisting, hcode⟩ := FlashforgeClient.post_eq_ok_iff.mp hpost
    exact ⟨hnamed, hne, ⟨reply, files, hlisting, hcode, hfiles,
      (mem_parseGcodeFiles hfiles hne).mp hmem⟩, hready⟩

/-- A request that is let pass asks the printer to start the file. -/
theorem postPrint_of_passed {ms : List MaterialMapping}
    (hname : requested loads "file" body = .ok (.str name))
    (hpass : (Agent.guardStart name (client.post "gcodeList" listing) a).1 = .ok (.ok ms))
    (answer : TransportReply) : ∃ accepted, (postPrint loads client body listing answer a).2 =
      a.log [.printGcode name ms accepted] := by
  rw [postPrint, dispatch, startPrintHandler, hname, Procedure.ofExcept_ok_bind]
  rcases hanswer : client.post "printGcode" answer with e | reply
  · have hstart := Agent.startPrint_of_passed hpass (.error e)
    refine ⟨false, ?_⟩
    simp only [Except.map]
    rw [Procedure.bind_of_ok (onAgent_of_ok hstart)]
    rfl
  · have hstart := Agent.startPrint_of_passed hpass (.ok ())
    refine ⟨true, ?_⟩
    simp only [Except.map]
    rw [Procedure.bind_of_ok (onAgent_of_ok hstart)]
    rfl

/-- A request that is not let pass leaves the agent as it is. -/
theorem postPrint_of_not_passed
    (h : ∀ name ms, requested loads "file" body = .ok (.str name) →
      (Agent.guardStart name (client.post "gcodeList" listing) a).1 ≠ .ok (.ok ms))
    (answer : TransportReply) :
    (postPrint loads client body listing answer a).2 = a ∧
      (postPrint loads client body listing answer a).1.status ≠ 202 := by
  rw [postPrint, dispatch, startPrintHandler]
  rcases hname : requested loads "file" body with e | v
  · simp [Procedure.ofExcept_error_bind]
  rw [Procedure.ofExcept_ok_bind]
  cases v with
  | str name =>
    obtain ⟨hsame, hrefused⟩ := Agent.startPrint_of_not_passed (fun ms => h name ms hname)
      ((client.post "printGcode" answer).map fun _ => ())
    simp only
    rcases hstart : Agent.startPrint name (client.post "gcodeList" listing)
      ((client.post "printGcode" answer).map fun _ => ()) a with ⟨e | _ | refusal, b⟩ <;>
      rw [hstart] at hsame hrefused
    · rw [Procedure.bind_of_error (onAgent_of_error hstart)]
      exact ⟨hsame, by simp⟩
    · exact absurd rfl hrefused
    · rw [Procedure.bind_of_ok (onAgent_of_ok hstart)]
      exact ⟨hsame, by simp [Procedure.pure_apply]⟩
  | _ => simp [Procedure.pure_apply]

/-- **Starting a print is guarded.** A request to `/api/print` starts a file exactly when it is
allowed to, and at most once. Any other leaves the printer alone and is not answered with 202. -/
theorem print_guarded (hnil : loads [] = .error .valueError)
    (hbraces : loads braces = .ok (.obj [])) (client : FlashforgeClient) (body : Bytes)
    (listing answer : TransportReply) (a : Agent) :
    ∃ es, (postPrint loads client body listing answer a).2 = a.log es ∧ es.length ≤ 1 ∧
      (∀ name, (∃ mappings accepted, .printGcode name mappings accepted ∈ es) ↔
        Allowed loads body listing a.snapshot name) ∧
      ((∀ name, ¬ Allowed loads body listing a.snapshot name) →
        es = [] ∧ (postPrint loads client body listing answer a).1.status ≠ 202) := by
  by_cases hallowed : ∃ name, Allowed loads body listing a.snapshot name
  · obtain ⟨name, hname⟩ := hallowed
    obtain ⟨hrequested, ms, hpass⟩ := (allowed_iff hnil hbraces client).mp hname
    obtain ⟨accepted, ha⟩ := postPrint_of_passed hrequested hpass answer
    refine ⟨_, ha, le_rfl, fun name' => ⟨?_, fun hname' => ?_⟩,
      fun hnone => absurd hname (hnone name)⟩
    · rintro ⟨_, _, hmem⟩
      obtain ⟨rfl, -⟩ := Effect.printGcode.inj (List.mem_singleton.mp hmem)
      exact hname
    · -- The body names one file only.
      obtain ⟨hrequested', -⟩ := (allowed_iff hnil hbraces client).mp hname'
      obtain rfl : name = name' := by simpa using hrequested.symm.trans hrequested'
      exact ⟨ms, accepted, List.mem_singleton.mpr rfl⟩
  · rw [not_exists] at hallowed
    have hnot : ∀ name ms, requested loads "file" body = .ok (.str name) →
        (Agent.guardStart name (client.post "gcodeList" listing) a).1 ≠ .ok (.ok ms) :=
      fun name ms hname hpass =>
        hallowed name ((allowed_iff hnil hbraces client).mpr ⟨hname, ms, hpass⟩)
    obtain ⟨ha, hstatus⟩ := postPrint_of_not_passed hnot answer
    refine ⟨[], by rw [ha, Agent.log_nil], Nat.zero_le _, fun name => ?_, fun _ => ⟨rfl, hstatus⟩⟩
    simp [hallowed name]

end Print

/-! ## A start -/

/-- The body of a request for `a.gcode`. -/
def startBody : Bytes := ascii ("\x7b\"file\": \"a.gcode\"\x7d").toList

/-- `json.loads`, on that body and on an empty one. -/
def startLoads (body : Bytes) : Except LoadsError Json :=
  if body = startBody then .ok (.obj [("file", .str "a.gcode")])
  else if body = braces then .ok (.obj [])
  else .error .valueError

/-- A reply to `gcodeList`. -/
def listingReply : Dict := [("code", .int 0), ("gcodeList", .arr [.str "a.gcode", .str "b.gcode"])]

/-- An agent whose printer is idle. -/
def idleAgent : Agent := { Agent.bare with snapshot := shown "ready" "" }

/-- An idle printer that lists the file is asked to start it. -/
theorem listed_file_is_started : ∃ mappings accepted, .printGcode "a.gcode" mappings accepted ∈
    (postPrint startLoads ⟨"1234"⟩ startBody (.ok (.obj listingReply)) (.ok (.obj []))
      idleAgent).2.trace := by
  have hnil : startLoads [] = .error .valueError := rfl
  have hbraces : startLoads braces = .ok (.obj []) := rfl
  have hallowed : Allowed startLoads startBody (.ok (.obj listingReply)) idleAgent.snapshot
      "a.gcode" := by
    refine ⟨⟨_, rfl, rfl⟩, by decide, ⟨listingReply, _, rfl, rfl, rfl, ?_⟩, ?_⟩
    · exact .inl ⟨_, rfl, List.mem_cons_self⟩
    · exact ⟨_, rfl, by decide +kernel⟩
  obtain ⟨es, ha, -, hstarts, -⟩ := print_guarded hnil hbraces ⟨"1234"⟩ startBody
    (.ok (.obj listingReply)) (.ok (.obj [])) idleAgent
  obtain ⟨mappings, accepted, hmem⟩ := (hstarts "a.gcode").mpr hallowed
  rw [ha, Agent.log_trace]
  exact ⟨mappings, accepted, List.mem_append_right _ hmem⟩

end FlashforgeObico
