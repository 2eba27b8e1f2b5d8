import FlashforgeObico.Foundations.Replace
import FlashforgeObico.Flashforge.Parsing

/-!
# Requests to the LAN API

`flashforge/client.py`: a request succeeds when the reply is a JSON object with a zero result code,
and fails with a `FlashforgeError` on everything else. The error quotes the text of the exception of
the transport, or the printer's message, and `not_infix_of_post_eq_error` says that the check code
is not in what it quotes.
-/

namespace FlashforgeObico

open Py

/-- `FlashforgeError`: the printer refused, or could not be reached. -/
structure FlashforgeError where
  message : String
  deriving DecidableEq

/-- What `printer.detail()` gives. -/
abbrev DetailReply := Except FlashforgeError Dict

/-- An exception of the transport: the name of its type and its text. -/
structure TransportError where
  typeName : String
  text : String
  deriving DecidableEq

/-- What the transport makes of a request: the parsed body of the reply, or an exception. -/
abbrev TransportReply := Except TransportError Json

/-- The part of a `FlashforgeClient` that its methods read once the printer has replied. -/
structure FlashforgeClient where
  checkCode : String
  deriving DecidableEq

namespace FlashforgeClient

/-- `_scrub`. -/
def scrub (client : FlashforgeClient) (text : String) : String :=
  if client.checkCode = "" then text
  else String.ofList (Replacement.replace client.checkCode.toList "<redacted>".toList text.toList)

/-- The result code of a reply. -/
def resultCode (body : Dict) : Option ℤ := asInt ((body.get? "code").getD (body.get "err"))

/-- What the printer says about a result code that is not zero. -/
def resultMessage (body : Dict) : String :=
  let message := asStr (body.get "message")
  let msg := asStr (body.get "msg")
  if message ≠ "" then message else if msg ≠ "" then msg else "no message"

/-- `_post`, given what the transport makes of the request. -/
def post (client : FlashforgeClient) (endpoint : String) :
    TransportReply → Except FlashforgeError Dict
  | .error e => .error ⟨endpoint ++ ": " ++ e.typeName ++ ": " ++ client.scrub e.text⟩
  | .ok (.obj body) =>
    match resultCode body with
    | none => .error ⟨endpoint ++ ": reply has no result code"⟩
    | some 0 => .ok body
    | some code => .error ⟨endpoint ++ ": printer returned " ++ toString code ++ ": " ++
        client.scrub (resultMessage body)⟩
  | .ok _ => .error ⟨endpoint ++ ": reply is not a JSON object"⟩

/-- A request succeeds exactly on an object with a zero result code. -/
theorem post_eq_ok_iff {client : FlashforgeClient} {endpoint : String} {reply : TransportReply}
    {body : Dict} :
    client.post endpoint reply = .ok body ↔ reply = .ok (.obj body) ∧ resultCode body = some 0 := by
  rcases reply with e | v
  · simp [post]
  cases v with
  | obj fields =>
    have hcode : client.post endpoint (.ok (.obj fields)) = .ok body ↔
        resultCode fields = some 0 ∧ fields = body := by
      rw [post]
      split <;> simp_all
    rw [hcode, Except.ok.injEq, Json.obj.injEq, and_comm]
    exact and_congr_right fun hbody => by rw [hbody]
  | _ => simp [post]

/-! ## What an error quotes -/

/-- What the error of a reply says before the text it quotes. -/
def errorLead (endpoint : String) : TransportReply → String
  | .error e => endpoint ++ ": " ++ e.typeName ++ ": "
  | .ok (.obj body) =>
    match resultCode body with
    | none => endpoint ++ ": reply has no result code"
    | some code => endpoint ++ ": printer returned " ++ toString code ++ ": "
  | .ok _ => endpoint ++ ": reply is not a JSON object"

/-- The text of the exception, or of the printer, that the error of a reply quotes. -/
def quoted : TransportReply → Option String
  | .error e => some e.text
  | .ok (.obj body) => (resultCode body).map fun _ => resultMessage body
  | .ok _ => none

/-- The part of the message of an error that is derived from such a text. -/
def derived (client : FlashforgeClient) (reply : TransportReply) : String :=
  ((quoted reply).map client.scrub).getD ""

variable {client : FlashforgeClient} {endpoint : String} {reply : TransportReply}
  {err : FlashforgeError}

/-- An error is its lead and the part derived from the text it quotes, and nothing else. -/
theorem message_of_post_eq_error (h : client.post endpoint reply = .error err) :
    err.message = errorLead endpoint reply ++ client.derived reply := by
  rcases reply with e | v
  · simp only [post, Except.error.injEq] at h
    simp [← h, errorLead, derived, quoted]
  cases v with
  | obj body =>
    simp only [post] at h
    split at h
    next hcode =>
      simp only [Except.error.injEq] at h
      simp [← h, errorLead, derived, quoted, hcode]
    next => cases h
    next code _ hcode =>
      simp only [Except.error.injEq] at h
      simp [← h, errorLead, derived, quoted, hcode]
  | _ =>
    simp only [post, Except.error.injEq] at h
    simp [← h, errorLead, derived, quoted]

/-- A scrubbed text does not contain the check code: the marker put in its place begins and ends
with a character that the code does not have, so no new occurrence forms across it. -/
theorem not_infix_scrub (hne : client.checkCode ≠ "") (hopen : '<' ∉ client.checkCode.toList)
    (hclose : '>' ∉ client.checkCode.toList)
    (hword : ¬ client.checkCode.toList <:+: "redacted".toList) (text : String) :
    ¬ client.checkCode.toList <:+: (client.scrub text).toList := by
  have hforeign : Replacement.Foreign "<redacted>".toList client.checkCode.toList :=
    ⟨fun h => hne (String.toList_eq_nil_iff.mp h),
      '<', "redacted".toList, '>', rfl, hopen, hclose, hword⟩
  rw [scrub, if_neg hne, String.toList_ofList]
  exact Replacement.not_infix_replace hforeign

/-- **The check code is not in what an error quotes.** -/
theorem not_infix_of_post_eq_error (hne : client.checkCode ≠ "")
    (hopen : '<' ∉ client.checkCode.toList) (hclose : '>' ∉ client.checkCode.toList)
    (hword : ¬ client.checkCode.toList <:+: "redacted".toList)
    (h : client.post endpoint reply = .error err) :
    err.message = errorLead endpoint reply ++ client.derived reply ∧
      ¬ client.checkCode.toList <:+: (client.derived reply).toList := by
  refine ⟨message_of_post_eq_error h, ?_⟩
  rw [derived]
  cases quoted reply with
  | none => exact fun hs => hne (String.toList_eq_nil_iff.mp (List.infix_nil.mp hs))
  | some text => exact not_infix_scrub hne hopen hclose hword text

/-- The code `aa` in a refusal that has it twice, overlapping. -/
theorem not_infix_of_refusal :
    ¬ "aa".toList <:+: ((FlashforgeClient.mk "aa").derived
      (.ok (.obj [("code", .int 5), ("message", .str "aaa")]))).toList := by
  have herror : (FlashforgeClient.mk "aa").post "detail"
      (.ok (.obj [("code", .int 5), ("message", .str "aaa")])) =
        .error ⟨"detail: printer returned 5: <redacted>a"⟩ := rfl
  exact (not_infix_of_post_eq_error (by decide) (by decide) (by decide) (by decide) herror).2

end FlashforgeClient

end FlashforgeObico
