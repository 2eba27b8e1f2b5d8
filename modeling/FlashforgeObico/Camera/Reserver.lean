import FlashforgeObico.Agent.Routes

/-!
# The HTTP server

The request handler of `camera/reserve.py`, which serves the cameras and the routes that are added
to it. `_dispatch` answers whatever a route handler raises, but not what reading the length and the
body raises: `replied_serve` says which requests get one reply, and that the others get none and
reach no handler.
-/

namespace FlashforgeObico

open Py

/-! ## Requests and what is written -/

/-- The methods that the handler implements. -/
inductive HttpMethod
  | get
  | post
  deriving DecidableEq

/-- A request, with what the client sends after its headers. -/
structure HttpRequest where
  method : HttpMethod
  /-- `self.path`. -/
  target : List Char
  /-- The value of the `Content-Length` header, if there is one. -/
  contentLength : Option (List Char)
  sent : Bytes
  /-- Whether the client closes its side of the connection after these bytes. -/
  closes : Bool

/-- What is written for a request. -/
inductive Reply
  | response (response : Response)
  /-- The latest frame of a camera. -/
  | snapshot (jpeg : Bytes)
  /-- The frames of a camera, until it is stale or the client leaves. -/
  | stream (index : ℕ)

/-- Why the handler of a request does not return. -/
inductive Stop
  /-- An exception leaves it, and the server closes the connection. -/
  | raised
  /-- It waits for bytes that do not come. -/
  | waits
  deriving DecidableEq

/-- The state that the routes work on, and what was written for the request so far. -/
structure Exchange (σ : Type) where
  state : σ
  replies : List Reply := []

/-- A route: what `add_route` is given. The handler gets the path that matched, and the body. -/
structure Route (σ : Type) where
  method : HttpMethod
  pattern : List Char → Bool
  handler : List Char → Bytes → Procedure RouteError σ Response

namespace HttpRequest

/-- `self.path.split("?", 1)[0]`. -/
def path (r : HttpRequest) : List Char := r.target.takeWhile (· ≠ '?')

/-- `int(self.headers.get("Content-Length") or 0)`. -/
def length? (r : HttpRequest) : Option ℤ :=
  match r.contentLength with
  | none => some 0
  | some text => if text = [] then some 0 else int? (strip text)

/-- `self.rfile.read(length) if length else b""`, when a read can hold `capacity` bytes. -/
def body (r : HttpRequest) (capacity : ℕ) : Except Stop Bytes :=
  match r.length? with
  | none => .error .raised
  | some length =>
    if length = 0 then .ok []
    else if length < -1 then .error .raised
    else if length = -1 then -- everything up to the end of the stream
      if capacity < r.sent.length then .error .raised
      else if r.closes then .ok r.sent
      else .error .waits
    else if capacity < length.toNat then .error .raised
    else if length.toNat ≤ r.sent.length then .ok (r.sent.take length.toNat)
    else if r.closes then .ok r.sent
    else .error .waits

end HttpRequest

/-! ## Routes -/

/-- A pattern that ends with `$`, which also matches before a last newline. -/
def endsAt (tail rest : List Char) : Bool := rest = tail ∨ rest = tail ++ ['\n']

/-- What is asked of a camera. -/
inductive CameraKind
  | stream
  | snapshot
  deriving DecidableEq

/-- The name of what is asked. -/
def CameraKind.name : CameraKind → String
  | stream => "stream"
  | snapshot => "snapshot"

/-- `_ROUTE.match(path)`: the index, as it is written, and what is asked. -/
def cameraRoute (path : List Char) : Option (List Char × CameraKind) :=
  match "/cameras/".toList.isPrefixOf path with
  | false => none
  | true =>
    let rest := path.drop "/cameras/".toList.length
    let digits := rest.takeWhile fun c => (digit? c).isSome
    let tail := rest.drop digits.length
    if digits = [] then none
    else if endsAt "/stream".toList tail then some (digits, .stream)
    else if endsAt "/snapshot".toList tail then some (digits, .snapshot)
    else none

section Handler

variable {σ : Type}

/-- `_send`, or the response of a stream. -/
def send (reply : Reply) : Procedure Stop (Exchange σ) Unit :=
  .modify fun x => { x with replies := x.replies ++ [reply] }

/-- A short answer of the server itself. -/
def plain (status : ℕ) (text : String) : Reply :=
  .response { status, contentType := "text/plain", payload := .text text }

/-- Run a handler, and answer 500 when it raises. -/
def answer (handler : Procedure RouteError σ Response) : Procedure Stop (Exchange σ) Unit :=
  fun x => match handler x.state with
    | (.ok response, s) => send (.response response) { x with state := s }
    | (.error _, s) => send (plain 500 "internal error") { x with state := s }

variable (capacity : ℕ) (routes : List (Route σ)) (frames : List (Option Bytes))

/-- `_dispatch`. -/
def dispatchTo (r : HttpRequest) : Procedure Stop (Exchange σ) Unit := do
  let body ← .ofExcept (r.body capacity)
  match routes.find? fun route => route.method = r.method ∧ route.pattern r.path with
  | some route => answer (route.handler r.path body)
  | none => send (plain 404 "not found")

/-- The route of a camera, given the latest frame of every source. -/
def serveCamera (index : ℕ) (kind : CameraKind) : Procedure Stop (Exchange σ) Unit :=
  match frames[index]?, kind with
  | none, _ => send (plain 404 "no such camera")
  | some _, .stream => send (.stream index)
  | some none, .snapshot => send (plain 503 "no frame yet")
  | some (some jpeg), .snapshot => send (.snapshot jpeg)

/-- `do_GET`. -/
def doGet (r : HttpRequest) : Procedure Stop (Exchange σ) Unit :=
  if r.path = "/healthz".toList then send (plain 200 "ok")
  else match cameraRoute r.path with
    | some (digits, kind) =>
      match int? digits with
      | some index => serveCamera frames index.toNat kind
      | none => .raise .raised
    | none => dispatchTo capacity routes r

/-- A request, handled. -/
def serve (r : HttpRequest) (state : σ) : Except Stop Unit × Exchange σ :=
  match r.method with
  | .get => doGet capacity routes frames r { state }
  | .post => dispatchTo capacity routes r { state }

/-! ## When a request is answered -/

/-- The length can be read, and as many bytes arrive, or the client closes the connection. -/
def BodyArrives (r : HttpRequest) : Prop :=
  ∃ length, r.length? = some length ∧
    (length = 0 ∨
      (length = -1 ∧ r.sent.length ≤ capacity ∧ r.closes) ∨
      (0 < length ∧ length ≤ capacity ∧ (length ≤ r.sent.length ∨ r.closes)))

/-- The request asks for the health of the server or for a camera, whose index has no more digits
than `int` accepts, or its body arrives. -/
def Answerable (r : HttpRequest) : Prop :=
  if r.method = .get ∧ r.path = "/healthz".toList then True
  else match if r.method = .get then cameraRoute r.path else none with
    | some (digits, _) => digits.length ≤ maxStrDigits
    | none => BodyArrives capacity r

variable {capacity routes frames} {r : HttpRequest} {state : σ}

theorem exists_body_eq_ok_iff : (∃ body, r.body capacity = .ok body) ↔ BodyArrives capacity r := by
  unfold HttpRequest.body BodyArrives
  rcases r.length? with _ | length
  · simp
  simp only [Option.some.injEq, exists_eq_left']
  split_ifs with h0 hneg hend hfull hcloses hcap harrives hcloses
  · exact iff_of_true ⟨_, rfl⟩ (.inl h0)
  · refine iff_of_false (by simp) ?_
    rintro (h | ⟨h, -⟩ | ⟨h, -⟩) <;> omega
  · refine iff_of_false (by simp) ?_
    rintro (h | ⟨-, h, -⟩ | ⟨h, -⟩) <;> omega
  · exact iff_of_true ⟨_, rfl⟩ (.inr (.inl ⟨hend, not_lt.mp hfull, hcloses⟩))
  · refine iff_of_false (by simp) ?_
    rintro (h | ⟨-, -, h⟩ | ⟨h, -⟩)
    exacts [h0 h, hcloses h, by omega]
  · refine iff_of_false (by simp) ?_
    rintro (h | ⟨h, -⟩ | ⟨-, h, -⟩)
    exacts [h0 h, hend h, by omega]
  · exact iff_of_true ⟨_, rfl⟩ (.inr (.inr ⟨by omega, by omega, .inl (by omega)⟩))
  · exact iff_of_true ⟨_, rfl⟩ (.inr (.inr ⟨by omega, by omega, .inr hcloses⟩))
  · refine iff_of_false (by simp) ?_
    rintro (h | ⟨h, -⟩ | ⟨-, -, h | h⟩)
    exacts [h0 h, hend h, by omega, hcloses h]

/-- The index of a camera route is too long exactly when it has too many digits. -/
theorem int?_eq_none_of_cameraRoute {path digits : List Char} {kind : CameraKind}
    (h : cameraRoute path = some (digits, kind)) :
    int? digits = none ↔ maxStrDigits < digits.length := by
  have hdigits : digits ≠ [] ∧ ∀ c ∈ digits, (digit? c).isSome := by
    unfold cameraRoute at h
    split at h
    · cases h
    dsimp only at h
    split_ifs at h with hnil
    all_goals
      obtain ⟨rfl, -⟩ := Prod.mk.inj (Option.some.inj h)
      exact ⟨hnil, fun c hc => List.mem_takeWhile_imp (p := fun c => (digit? c).isSome) hc⟩
  obtain ⟨hne, hall⟩ := hdigits
  have hforeign : ∀ c, digit? c = none → c ∉ digits := by
    intro c hnone hmem
    have hsome := hall c hmem
    rw [hnone] at hsome
    cases hsome
  rw [int?_eq_none_iff hne (hforeign _ rfl) (hforeign _ rfl) (hforeign _ rfl)]
  refine or_iff_right ?_
  rintro ⟨c, hc, hnone⟩
  exact hforeign c hnone hc

/-- One reply is written, or none and the state is left as it is. -/
def Replied (answered : Prop) (state : σ) (x : Exchange σ) : Prop :=
  (answered ∧ ∃ reply, x.replies = [reply]) ∨ (¬ answered ∧ x.replies = [] ∧ x.state = state)

theorem replied_answer (handler : Procedure RouteError σ Response) :
    ∃ reply, (answer handler { state }).2.replies = [reply] := by
  unfold answer
  rcases handler state with ⟨e | response, s⟩
  · exact ⟨_, rfl⟩
  · exact ⟨_, rfl⟩

theorem replied_dispatchTo : Replied (BodyArrives capacity r) state
    (dispatchTo capacity routes r { state }).2 := by
  rw [← exists_body_eq_ok_iff, dispatchTo]
  rcases hbody : r.body capacity with stop | body
  · exact .inr ⟨by simp, rfl, rfl⟩
  · refine .inl ⟨⟨body, rfl⟩, ?_⟩
    rw [Procedure.ofExcept_ok_bind]
    rcases routes.find? _ with _ | route
    · exact ⟨_, rfl⟩
    · exact replied_answer _

theorem replied_serveCamera (index : ℕ) (kind : CameraKind) :
    ∃ reply, (serveCamera frames index kind { state }).2.replies = [reply] := by
  unfold serveCamera
  rcases frames[index]? with _ | _ | jpeg <;> cases kind <;> exact ⟨_, rfl⟩

/-- **Every request gets one reply**, unless its length or its index cannot be read or its body does
not arrive: then it gets none, and no handler runs. -/
theorem replied_serve :
    Replied (Answerable capacity r) state (serve capacity routes frames r state).2 := by
  rw [serve, Answerable]
  cases hmethod : r.method with
  | post => simpa using replied_dispatchTo
  | get =>
    simp only [true_and, if_true]
    rw [doGet]
    split_ifs with hhealth
    · exact .inl ⟨trivial, _, rfl⟩
    rcases hroute : cameraRoute r.path with _ | ⟨digits, kind⟩
    · exact replied_dispatchTo
    · have hindex := int?_eq_none_of_cameraRoute hroute
      dsimp only
      rcases hint : int? digits with _ | index
      · exact .inr ⟨not_le.mpr (hindex.mp hint), rfl, rfl⟩
      · have hle : digits.length ≤ maxStrDigits := by
          by_contra hlong
          rw [hindex.mpr (not_le.mp hlong)] at hint
          cases hint
        exact .inl ⟨hle, replied_serveCamera _ _⟩

end Handler

end FlashforgeObico
