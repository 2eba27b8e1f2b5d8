import FlashforgeObico.Camera.Reserver

/-!
# Malformed requests to the phone console

The handlers of `/api/job`, `/api/light` and `/api/print` in `__main__.py`, mounted on the HTTP
server. Each decodes its body and wants one field of one type. `malformed_refused_iff` says when a
request gets exactly one reply, and a malformed one the answer 400. No malformed request queues a
command or reaches the printer.
-/

namespace FlashforgeObico

open Py

/-! ## What the handlers work on -/

/-- A request to the printer that the agent's trace does not list. -/
inductive PrinterCall
  | gcodeList
  | gcodeThumb (fileName : String)
  | lightControl (status : String)

/-- The agent, and the requests that the handlers made to the printer. -/
structure ConsoleServer where
  agent : Agent
  calls : List PrinterCall := []

/-- A handler, given the body of the request. -/
abbrev ConsoleHandler := Bytes → Procedure RouteError ConsoleServer Response

/-- The part of a handler that works on the agent. -/
def onConsole {α : Type} (m : Procedure RouteError Agent α) :
    Procedure RouteError ConsoleServer α :=
  fun c => ((m c.agent).1, { c with agent := (m c.agent).2 })

/-- Ask the printer something. -/
def callPrinter (call : PrinterCall) : Procedure RouteError ConsoleServer Unit :=
  .modify fun c => { c with calls := c.calls ++ [call] }

/-- A JSON answer whose bytes are given. -/
def jsonText (status : ℕ) (text : String) : Response :=
  { status, contentType := "application/json", payload := .text text }

/-- A JSON answer that is dumped. -/
def jsonDumped (status : ℕ) (v : Json) : Response :=
  { status, contentType := "application/json", payload := .dumped v }

/-- What the transport makes of the requests to the printer. -/
structure PrinterReplies where
  light : TransportReply
  listing : TransportReply
  start : TransportReply

/-- The handlers of the other routes. They may do anything. -/
structure Pages where
  home : ConsoleHandler
  status : ConsoleHandler
  files : ConsoleHandler
  thumbnail : List Char → ConsoleHandler

/-- The pattern `^/api/files/(.+)/thumbnail$`. -/
def thumbnailRoute (path : List Char) : Bool :=
  let stem := if path.getLast? = some '\n' then path.dropLast else path
  '\n' ∉ stem ∧ "/api/files/".toList.isPrefixOf stem ∧ "/thumbnail".toList.isSuffixOf stem ∧
    "/api/files/".length + "/thumbnail".length < stem.length

section Handlers

/- `json.loads`, on bytes. -/
variable (loads : Bytes → Except LoadsError Json)

/-- `job`. -/
def jobHandler : ConsoleHandler := fun body => do
  match ← .ofExcept (requested loads "action" body) with
  | .str action =>
    if ← onConsole (onAgent (Agent.requestCommand action)) then
      return jsonDumped 202 (.obj [("accepted", .str action)])
    else return jsonText 400 "\x7b\"error\": \"action must be pause or resume\"\x7d"
  | _ => return jsonText 400 "\x7b\"error\": \"action must be pause or resume\"\x7d"

variable (client : FlashforgeClient) (replies : PrinterReplies)

/-- `Agent.set_light`. -/
def setLight (on : Bool) : Procedure RouteError ConsoleServer Bool := do
  callPrinter (.lightControl (if on then "open" else "close"))
  return (client.post "control" replies.light).toBool

/-- `light`. -/
def lightHandler : ConsoleHandler := fun body => do
  match ← .ofExcept (requested loads "on" body) with
  | .bool on =>
    if ← setLight client replies on then return jsonDumped 200 (.obj [("light_on", .bool on)])
    else return jsonDumped 502 (.obj [("light_on", .null)])
  | _ => return jsonText 400 "\x7b\"error\": \"on must be true or false\"\x7d"

/-- `start_print`, with the request for the list of files that it makes for a name. -/
def printHandler : ConsoleHandler := fun body => do
  match requested loads "file" body with
  | .ok (.str _) => callPrinter .gcodeList
  | _ => pure ()
  onConsole (startPrintHandler loads client body replies.listing replies.start)

/-- `_mount_console`. -/
def consoleRoutes (pages : Pages) : List (Route ConsoleServer) :=
  [⟨.get, endsAt "/".toList, fun _ => pages.home⟩,
    ⟨.get, endsAt "/api/status".toList, fun _ => pages.status⟩,
    ⟨.post, endsAt "/api/job".toList, fun _ => jobHandler loads⟩,
    ⟨.post, endsAt "/api/light".toList, fun _ => lightHandler loads client replies⟩,
    ⟨.get, endsAt "/api/files".toList, fun _ => pages.files⟩,
    ⟨.get, thumbnailRoute, pages.thumbnail⟩,
    ⟨.post, endsAt "/api/print".toList, fun _ => printHandler loads client replies⟩]

/-! ## The routes that take a body -/

/-- The routes that a body is posted to. -/
inductive Endpoint
  | job
  | light
  | print
  deriving DecidableEq

namespace Endpoint

/-- The path of a route. -/
def path : Endpoint → List Char
  | job => "/api/job".toList
  | light => "/api/light".toList
  | print => "/api/print".toList

/-- The field that a route requires. -/
def key : Endpoint → String
  | job => "action"
  | light => "on"
  | print => "file"

/-- The value is of the type that a route requires. -/
def Accepts : Endpoint → Json → Prop
  | job, v | print, v => ∃ s, v = .str s
  | light, v => ∃ b, v = .bool b

/-- The handler of a route. -/
def handler : Endpoint → ConsoleHandler
  | job => jobHandler loads
  | light => lightHandler loads client replies
  | print => printHandler loads client replies

end Endpoint

/-- The body is no JSON object with the required field of the required type. -/
def Malformed (e : Endpoint) (body : Bytes) : Prop :=
  ¬ ∃ fields, loads body = .ok (.obj fields) ∧ e.Accepts (Dict.get fields e.key)

/-- The body is a JSON value that is no object, or makes `json.loads` raise something that is no
`ValueError`. -/
def Misread (body : Bytes) : Prop :=
  (∃ v, loads body = .ok v ∧ ∀ fields, v ≠ .obj fields) ∨ loads body = .error .other

/-- A request posts a body to a route. -/
def PostsTo (capacity : ℕ) (r : HttpRequest) (e : Endpoint) (body : Bytes) : Prop :=
  r.method = .post ∧ r.path = e.path ∧ r.body capacity = .ok body

variable {loads} {client replies} {e : Endpoint} {body : Bytes} {c : ConsoleServer}

/-- What a malformed body is decoded to: a value that the route does not accept, or an exception. -/
theorem requested_of_malformed (hnil : loads [] = .error .valueError)
    (hbraces : loads braces = .ok (.obj [])) (h : Malformed loads e body) :
    (Misread loads body ∧ ∃ err, requested loads e.key body = .error err) ∨
      (¬ Misread loads body ∧ ∃ v, requested loads e.key body = .ok v ∧ ¬ e.Accepts v) := by
  have hnull : ¬ e.Accepts .null := by cases e <;> simp [Endpoint.Accepts]
  rw [requested]
  split_ifs with hbody
  · subst hbody
    refine .inr ⟨by simp [Misread, hnil], .null, ?_, hnull⟩
    simp [hbraces, Dict.get, Dict.get?]
  rcases hloads : loads body with (_ | _) | v
  · exact .inr ⟨by simp [Misread, hloads], .null, rfl, hnull⟩
  · exact .inl ⟨.inr hloads, _, rfl⟩
  cases v with
  | obj fields =>
    refine .inr ⟨by simp [Misread, hloads], _, rfl, fun haccepts => h ⟨fields, hloads, haccepts⟩⟩
  | _ => exact .inl ⟨.inl ⟨_, hloads, by simp⟩, _, rfl⟩

/-- A body whose field is not accepted is answered 400. -/
theorem handler_of_not_accepts {v : Json} (hv : requested loads e.key body = .ok v)
    (h : ¬ e.Accepts v) :
    ∃ response, e.handler loads client replies body c = (.ok response, c) ∧
      response.status = 400 := by
  cases e with
  | job =>
    change requested loads "action" body = .ok v at hv
    rw [Endpoint.handler, jobHandler, hv, Procedure.ofExcept_ok_bind]
    cases v with
    | str action => exact absurd ⟨action, rfl⟩ h
    | _ => exact ⟨_, rfl, rfl⟩
  | light =>
    change requested loads "on" body = .ok v at hv
    rw [Endpoint.handler, lightHandler, hv, Procedure.ofExcept_ok_bind]
    cases v with
    | bool on => exact absurd ⟨on, rfl⟩ h
    | _ => exact ⟨_, rfl, rfl⟩
  | print =>
    change requested loads "file" body = .ok v at hv
    have hcall : printHandler loads client replies body c =
        onConsole (startPrintHandler loads client body replies.listing replies.start) c := by
      rw [printHandler, hv]
      cases v with
      | str name => exact absurd ⟨name, rfl⟩ h
      | _ => rfl
    rw [Endpoint.handler, hcall, onConsole, startPrintHandler, hv, Procedure.ofExcept_ok_bind]
    cases v with
    | str name => exact absurd ⟨name, rfl⟩ h
    | _ => exact ⟨_, rfl, rfl⟩

/-- A body that makes the decoding raise makes the handler raise. -/
theorem handler_of_requested_error {err : RouteError}
    (h : requested loads e.key body = .error err) :
    e.handler loads client replies body c = (.error err, c) := by
  cases e with
  | job =>
    change requested loads "action" body = .error err at h
    rw [Endpoint.handler, jobHandler, h, Procedure.ofExcept_error_bind]
  | light =>
    change requested loads "on" body = .error err at h
    rw [Endpoint.handler, lightHandler, h, Procedure.ofExcept_error_bind]
  | print =>
    change requested loads "file" body = .error err at h
    rw [Endpoint.handler, printHandler, h]
    change onConsole (startPrintHandler loads client body replies.listing replies.start) c = _
    rw [onConsole, startPrintHandler, h, Procedure.ofExcept_error_bind]

/-! ## What a malformed request gets -/

variable {capacity : ℕ} {pages : Pages} {frames : List (Option Bytes)} {r : HttpRequest}

/-- A body that is posted to a route is given to its handler. -/
theorem serve_of_postsTo (h : PostsTo capacity r e body) :
    (serve capacity (consoleRoutes loads client replies pages) frames r c).2 =
      (answer (e.handler loads client replies body) { state := c }).2 := by
  obtain ⟨hmethod, hpath, hbody⟩ := h
  have hfind : (consoleRoutes loads client replies pages).find?
      (fun route => route.method = r.method ∧ route.pattern r.path) =
        some ⟨.post, endsAt e.path, fun _ => e.handler loads client replies⟩ := by
    rw [hmethod, hpath]
    cases e <;> rfl
  rw [serve, hmethod]
  dsimp only
  rw [dispatchTo, hbody, Procedure.ofExcept_ok_bind, hfind]

/-- The answer to a malformed body: 400, unless decoding it raises, and then 500. -/
theorem status_of_malformed (hnil : loads [] = .error .valueError)
    (hbraces : loads braces = .ok (.obj [])) (h : PostsTo capacity r e body)
    (hmalformed : Malformed loads e body) :
    ∃ response, (serve capacity (consoleRoutes loads client replies pages) frames r c).2 =
        { state := c, replies := [.response response] } ∧
      (response.status = 400 ↔ ¬ Misread loads body) := by
  rw [serve_of_postsTo h, answer]
  rcases requested_of_malformed hnil hbraces hmalformed with
    ⟨hmisread, err, herr⟩ | ⟨hread, v, hv, hrefused⟩
  · dsimp only
    rw [handler_of_requested_error herr]
    exact ⟨_, rfl, iff_of_false (by simp) (not_not.mpr hmisread)⟩
  · obtain ⟨response, hresponse, hstatus⟩ := handler_of_not_accepts hv hrefused
    dsimp only
    rw [hresponse]
    exact ⟨response, rfl, iff_of_true hstatus hread⟩

variable (loads client replies) in
/-- The state after a request, and what was written for it. -/
def served (pages : Pages) (capacity : ℕ) (frames : List (Option Bytes)) (r : HttpRequest)
    (c : ConsoleServer) : Exchange ConsoleServer :=
  (serve capacity (consoleRoutes loads client replies pages) frames r c).2

variable (loads) in
/-- Exactly one reply is written for a request, and it is 400 if that posts a malformed body. -/
structure Refuses (capacity : ℕ) (r : HttpRequest) (x : Exchange ConsoleServer) : Prop where
  one : x.replies.length = 1
  refused : ∀ e body, PostsTo capacity r e body → Malformed loads e body →
    ∃ response, x.replies = [.response response] ∧ response.status = 400

/-- **A request gets exactly one reply, and 400 for a malformed body, exactly when it is answerable
and the body is decoded to an object or to nothing. No malformed request changes anything.** -/
theorem malformed_refused_iff (hnil : loads [] = .error .valueError)
    (hbraces : loads braces = .ok (.obj [])) (client : FlashforgeClient) (replies : PrinterReplies)
    (pages : Pages) (capacity : ℕ) (frames : List (Option Bytes)) (r : HttpRequest)
    (c : ConsoleServer) :
    (Refuses loads capacity r (served loads client replies pages capacity frames r c) ↔
        Answerable capacity r ∧ ∀ e body, PostsTo capacity r e body → Malformed loads e body →
          ¬ Misread loads body) ∧
      ((¬ Answerable capacity r ∨ ∃ e body, PostsTo capacity r e body ∧ Malformed loads e body) →
        (served loads client replies pages capacity frames r c).state = c) := by
  have hreplied : Replied (Answerable capacity r) c
      (served loads client replies pages capacity frames r c) := replied_serve
  refine ⟨⟨fun h => ⟨?_, ?_⟩, fun ⟨hanswerable, hread⟩ => ⟨?_, ?_⟩⟩, ?_⟩
  · rcases hreplied with ⟨hanswerable, -⟩ | ⟨-, hnone, -⟩
    · exact hanswerable
    · have hone := h.one
      rw [hnone] at hone
      cases hone
  · intro e body hposts hmalformed
    obtain ⟨response, hserved, hstatus⟩ := status_of_malformed hnil hbraces hposts hmalformed
    obtain ⟨response', hreply, h400⟩ := h.refused e body hposts hmalformed
    rw [served, hserved] at hreply
    obtain rfl : response = response' := by simpa using hreply
    exact hstatus.mp h400
  · rcases hreplied with ⟨-, reply, hone⟩ | ⟨hnot, -⟩
    · rw [hone]
      rfl
    · exact absurd hanswerable hnot
  · intro e body hposts hmalformed
    obtain ⟨response, hserved, hstatus⟩ := status_of_malformed hnil hbraces hposts hmalformed
    exact ⟨response, by rw [served, hserved], hstatus.mpr (hread e body hposts hmalformed)⟩
  · rintro (hnot | ⟨e, body, hposts, hmalformed⟩)
    · rcases hreplied with ⟨hanswerable, -⟩ | ⟨-, -, hsame⟩
      · exact absurd hanswerable hnot
      · exact hsame
    · obtain ⟨response, hserved, -⟩ := status_of_malformed hnil hbraces hposts hmalformed
      rw [served, hserved]

end Handlers

/-! ## A list for a body -/

/-- `[]`, as bytes. -/
def brackets : Bytes := [0x5b, 0x5d]

/-- `json.loads`, on that body and on an empty object. -/
def listLoads (body : Bytes) : Except LoadsError Json :=
  if body = brackets then .ok (.arr [])
  else if body = braces then .ok (.obj [])
  else .error .valueError

/-- A request that posts two bytes to `/api/job`. -/
def postJob (body : Bytes) : HttpRequest where
  method := .post
  target := "/api/job".toList
  contentLength := some ['2']
  sent := body
  closes := false

/-- Pages that are empty. -/
def emptyPages : Pages where
  home := fun _ => pure (jsonText 200 "")
  status := fun _ => pure (jsonText 200 "")
  files := fun _ => pure (jsonText 200 "")
  thumbnail := fun _ _ => pure (jsonText 200 "")

/-- A printer that replies with an empty object. -/
def emptyReplies : PrinterReplies := ⟨.ok (.obj []), .ok (.obj []), .ok (.obj [])⟩

/-- An object without the required field is refused. -/
theorem braces_refused :
    (Refuses listLoads 65536 (postJob braces)
        (served listLoads ⟨"1234"⟩ emptyReplies emptyPages 65536 [] (postJob braces)
          ⟨idleAgent, []⟩) ↔
      Answerable 65536 (postJob braces) ∧ ∀ e body, PostsTo 65536 (postJob braces) e body →
        Malformed listLoads e body → ¬ Misread listLoads body) ∧
    ((¬ Answerable 65536 (postJob braces) ∨
        ∃ e body, PostsTo 65536 (postJob braces) e body ∧ Malformed listLoads e body) →
      (served listLoads ⟨"1234"⟩ emptyReplies emptyPages 65536 [] (postJob braces)
        ⟨idleAgent, []⟩).state = ⟨idleAgent, []⟩) :=
  malformed_refused_iff rfl rfl _ _ _ _ _ _ _

/-- A list is answered 500. -/
theorem not_refuses_brackets :
    ¬ Refuses listLoads 65536 (postJob brackets)
      (served listLoads ⟨"1234"⟩ emptyReplies emptyPages 65536 [] (postJob brackets)
        ⟨idleAgent, []⟩) := by
  intro h
  have hposts : PostsTo 65536 (postJob brackets) .job brackets := ⟨rfl, rfl, rfl⟩
  have hmalformed : Malformed listLoads .job brackets := by
    rintro ⟨fields, hfields, -⟩
    cases hfields
  obtain ⟨response, hreply, hstatus⟩ := h.refused .job brackets hposts hmalformed
  have hserved : (served listLoads ⟨"1234"⟩ emptyReplies emptyPages 65536 [] (postJob brackets)
      ⟨idleAgent, []⟩).replies = [plain 500 "internal error"] := rfl
  rw [hserved] at hreply
  cases hreply
  exact absurd hstatus (by decide)

end FlashforgeObico
