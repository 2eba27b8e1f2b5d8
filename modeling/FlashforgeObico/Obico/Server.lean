import FlashforgeObico.Foundations.Transition
import Mathlib.Logic.Function.Basic
import Mathlib.Order.Basic

/-!
# The websocket of Obico

`ObicoServer` of `obico/server.py`: threads queue messages with `send`, and the run thread connects
to Obico, sends what is on the queue and connects again when the session fails. Each session has a
reader thread, which may outlive it. `step` moves one thread, and `Stepped` lists what a step can
do.

The model has any number of threads that send, and its messages are of any type. Sessions are
numbered by the calls of the connector, from 1 on.
-/

namespace FlashforgeObico

/-- `QUEUE_MAX`. -/
def queueMax : ℕ := 50

/-- `BACKOFF_START_S`. -/
def backoffStartS : ℕ := 1

/-- `BACKOFF_MAX_S`. -/
def backoffMaxS : ℕ := 300

/-- What `recv` raises, other than a timeout: `SharedTokenClosed`, of close code 4321, or another
exception. -/
inductive ReceiveError
  | sharedTokenClosed
  | other
  deriving DecidableEq

/-- The place of a thread that sends. -/
inductive SendPlace (μ : Type)
  | idle
  /-- At `put_nowait`. -/
  | putting (message : μ)
  /-- At `get_nowait`, because the queue was full. -/
  | dropping (message : μ)

/-- The place of the run thread. -/
inductive RunPlace (μ : Type)
  /-- At the test of the loop of `_run`. -/
  | looping
  | connecting
  /-- In `_pump`, at the test of `_stop`. -/
  | testingStop
  /-- In `_pump`, at the test of `failure`. -/
  | testingFailure
  | getting
  | sending (message : μ)
  /-- At the end of `_session`, which returns whether it connected. -/
  | closing (connected : Bool)
  /-- In `_run`, after `_session`. -/
  | pausing (connected : Bool)
  | sleeping
  | ended

/-- The place of a reader thread. -/
inductive ReaderThread
  | unstarted
  /-- At the test of `_stop`. -/
  | testing
  | receiving
  /-- In `_dispatch`. -/
  | dispatching
  | ended
  deriving DecidableEq

/-- How a `recv` ends. -/
inductive Received
  | frame
  | timeout
  | failed (e : ReceiveError)
  deriving DecidableEq

/-- The fields of the server, the places of its threads, the number of calls of the connector, and
the readers and the lists `failure` of the sessions. The rest records what became of the messages:
those that were queued, those for which `ws.send` returned, with their sessions, those for which it
raised, and those that `send` dropped, with how many were on the queue then. -/
structure ObicoServer (π μ : Type) where
  queue : List μ := []
  stop : Bool := false
  connected : Bool := false
  sharedTokenDetected : Bool := false
  senders : π → SendPlace μ := fun _ => .idle
  place : RunPlace μ := .looping
  backoff : ℕ := backoffStartS
  attempts : ℕ := 0
  readers : ℕ → ReaderThread := fun _ => .unstarted
  failure : ℕ → List ReceiveError := fun _ => []
  queued : List μ := []
  delivered : List (ℕ × μ) := []
  lost : List μ := []
  dropped : List (μ × ℕ) := []

/-- A step of a thread that sends, of the run thread or of a reader. -/
inductive ServerMove (π μ : Type)
  /-- `send` is called. -/
  | send (p : π) (message : μ)
  | put (p : π)
  | drop (p : π)
  | stop
  /-- The test of `_should_run` at the head of the loop. -/
  | testRun
  | connect
  /-- The connector raises, or what follows on the socket does. -/
  | connectFails (connected : Bool)
  | testStop
  | testFailure
  | get
  /-- `get` raises `Empty`. -/
  | timeout
  | sent
  /-- `ws.send` raises. -/
  | sendFails
  | close
  | pause
  | wake
  /-- The reader of a session tests `_stop`. -/
  | readerTest (n : ℕ)
  | receive (n : ℕ) (received : Received)
  /-- `_dispatch` returns, or raises because `json.loads` does something else than `ValueError`. -/
  | dispatch (n : ℕ) (raises : Bool)

namespace ObicoServer

variable {π μ : Type}

/-- `_should_run`. -/
def shouldRun (s : ObicoServer π μ) : Bool := !s.stop && !s.sharedTokenDetected

/-- Put the run thread in another place. -/
def go (s : ObicoServer π μ) (place : RunPlace μ) : ObicoServer π μ := { s with place }

/-- Put a reader in another place. -/
def moveReader (s : ObicoServer π μ) (n : ℕ) (r : ReaderThread) : ObicoServer π μ :=
  { s with readers := Function.update s.readers n r }

/-- `failure.append(exc)`, in the reader of a session. -/
def fail (s : ObicoServer π μ) (n : ℕ) (e : ReceiveError) : ObicoServer π μ :=
  { s with failure := Function.update s.failure n (s.failure n ++ [e]) }

/-- `put_nowait` puts a message on the queue. -/
def enqueue (s : ObicoServer π μ) (message : μ) : ObicoServer π μ :=
  { s with queue := s.queue ++ [message], queued := s.queued ++ [message] }

/-- `get_nowait` takes the oldest message off the queue. -/
def discard (s : ObicoServer π μ) (oldest : μ) (queue : List μ) : ObicoServer π μ :=
  { s with queue, dropped := s.dropped ++ [(oldest, s.queue.length)] }

/-- `_pump` raises the failure of the reader, and `_session` handles it. -/
def raise (s : ObicoServer π μ) (e : ReceiveError) : ObicoServer π μ :=
  { s with
    sharedTokenDetected := s.sharedTokenDetected || e = .sharedTokenClosed
    place := .closing true }

variable [DecidableEq π]

/-- Put a thread that sends in another place. -/
def moveSender (s : ObicoServer π μ) (p : π) (place : SendPlace μ) : ObicoServer π μ :=
  { s with senders := Function.update s.senders p place }

/-- One step; `none` when the thread is elsewhere. -/
def step (s : ObicoServer π μ) : ServerMove π μ → Option (ObicoServer π μ)
  | .send p message =>
    match s.senders p with
    | .idle => some (s.moveSender p (.putting message))
    | _ => none
  | .put p =>
    match s.senders p with
    | .putting message =>
      if s.queue.length < queueMax then some ((s.enqueue message).moveSender p .idle)
      else some (s.moveSender p (.dropping message))
    | _ => none
  | .drop p =>
    match s.senders p, s.queue with
    | .dropping message, oldest :: queue =>
      some ((s.discard oldest queue).moveSender p (.putting message))
    | .dropping message, [] => some (s.moveSender p (.putting message))
    | _, _ => none
  | .stop => some { s with stop := true }
  | .testRun =>
    match s.place with
    | .looping =>
      if s.shouldRun then some ({ s with attempts := s.attempts + 1 }.go .connecting)
      else some (s.go .ended)
    | _ => none
  | .connect =>
    match s.place with
    | .connecting => some (({ s with connected := true }.moveReader s.attempts .testing).go .testingStop)
    | _ => none
  | .connectFails connected =>
    match s.place with
    | .connecting => some (s.go (.closing connected))
    | _ => none
  | .testStop =>
    match s.place with
    | .testingStop => some (s.go (if s.stop then .closing true else .testingFailure))
    | _ => none
  | .testFailure =>
    match s.place, s.failure s.attempts with
    | .testingFailure, e :: _ => some (s.raise e)
    | .testingFailure, [] => some (s.go .getting)
    | _, _ => none
  | .get =>
    match s.place, s.queue with
    | .getting, message :: queue => some ({ s with queue }.go (.sending message))
    | _, _ => none
  | .timeout =>
    match s.place, s.queue with
    | .getting, [] => some (s.go .testingStop)
    | _, _ => none
  | .sent =>
    match s.place with
    | .sending message =>
      some ({ s with delivered := s.delivered ++ [(s.attempts, message)] }.go .testingStop)
    | _ => none
  | .sendFails =>
    match s.place with
    | .sending message => some ({ s with lost := s.lost ++ [message] }.go (.closing true))
    | _ => none
  | .close =>
    match s.place with
    | .closing connected => some ({ s with connected := false }.go (.pausing connected))
    | _ => none
  | .pause =>
    match s.place with
    | .pausing connected =>
      some ({ s with backoff := if connected then backoffStartS else s.backoff }.go
        (if s.shouldRun then .sleeping else .looping))
    | _ => none
  | .wake =>
    match s.place with
    | .sleeping => some ({ s with backoff := min (s.backoff * 2) backoffMaxS }.go .looping)
    | _ => none
  | .readerTest n =>
    if s.readers n = .testing then some (s.moveReader n (if s.stop then .ended else .receiving))
    else none
  | .receive n received =>
    if s.readers n = .receiving then
      match received with
      | .frame => some (s.moveReader n .dispatching)
      | .timeout => some (s.moveReader n .testing)
      | .failed e => some ((s.fail n e).moveReader n .ended)
    else none
  | .dispatch n raises =>
    if s.readers n = .dispatching then some (s.moveReader n (if raises then .ended else .testing))
    else none

/-! ## What a step can do -/

/-- The steps, each under its guards. -/
inductive Stepped (s : ObicoServer π μ) : ServerMove π μ → ObicoServer π μ → Prop
  | send {p message} : s.senders p = .idle →
      Stepped s (.send p message) (s.moveSender p (.putting message))
  | put {p message} : s.senders p = .putting message → s.queue.length < queueMax →
      Stepped s (.put p) ((s.enqueue message).moveSender p .idle)
  | full {p message} : s.senders p = .putting message → queueMax ≤ s.queue.length →
      Stepped s (.put p) (s.moveSender p (.dropping message))
  | drop {p message oldest queue} : s.senders p = .dropping message → s.queue = oldest :: queue →
      Stepped s (.drop p) ((s.discard oldest queue).moveSender p (.putting message))
  | dropNone {p message} : s.senders p = .dropping message → s.queue = [] →
      Stepped s (.drop p) (s.moveSender p (.putting message))
  | stop : Stepped s .stop { s with stop := true }
  | run : s.place = .looping → s.shouldRun = true →
      Stepped s .testRun ({ s with attempts := s.attempts + 1 }.go .connecting)
  | endRun : s.place = .looping → s.shouldRun = false → Stepped s .testRun (s.go .ended)
  | connect : s.place = .connecting → Stepped s .connect
      (({ s with connected := true }.moveReader s.attempts .testing).go .testingStop)
  | connectFails {connected} : s.place = .connecting →
      Stepped s (.connectFails connected) (s.go (.closing connected))
  | stopPump : s.place = .testingStop → s.stop = true → Stepped s .testStop (s.go (.closing true))
  | goOn : s.place = .testingStop → s.stop = false → Stepped s .testStop (s.go .testingFailure)
  | raise {e rest} : s.place = .testingFailure → s.failure s.attempts = e :: rest →
      Stepped s .testFailure (s.raise e)
  | noFailure : s.place = .testingFailure → s.failure s.attempts = [] →
      Stepped s .testFailure (s.go .getting)
  | get {message queue} : s.place = .getting → s.queue = message :: queue →
      Stepped s .get ({ s with queue }.go (.sending message))
  | timeout : s.place = .getting → s.queue = [] → Stepped s .timeout (s.go .testingStop)
  | sent {message} : s.place = .sending message → Stepped s .sent
      ({ s with delivered := s.delivered ++ [(s.attempts, message)] }.go .testingStop)
  | sendFails {message} : s.place = .sending message →
      Stepped s .sendFails ({ s with lost := s.lost ++ [message] }.go (.closing true))
  | close {connected} : s.place = .closing connected →
      Stepped s .close ({ s with connected := false }.go (.pausing connected))
  | pause {connected} : s.place = .pausing connected → Stepped s .pause
      ({ s with backoff := if connected then backoffStartS else s.backoff }.go
        (if s.shouldRun then .sleeping else .looping))
  | wake : s.place = .sleeping →
      Stepped s .wake ({ s with backoff := min (s.backoff * 2) backoffMaxS }.go .looping)
  | readerStops {n} : s.readers n = .testing → s.stop = true →
      Stepped s (.readerTest n) (s.moveReader n .ended)
  | readerGoesOn {n} : s.readers n = .testing → s.stop = false →
      Stepped s (.readerTest n) (s.moveReader n .receiving)
  | frame {n} : s.readers n = .receiving → Stepped s (.receive n .frame)
      (s.moveReader n .dispatching)
  | noFrame {n} : s.readers n = .receiving → Stepped s (.receive n .timeout)
      (s.moveReader n .testing)
  | failed {n e} : s.readers n = .receiving →
      Stepped s (.receive n (.failed e)) ((s.fail n e).moveReader n .ended)
  | dispatched {n} : s.readers n = .dispatching →
      Stepped s (.dispatch n false) (s.moveReader n .testing)
  | dispatchRaises {n} : s.readers n = .dispatching →
      Stepped s (.dispatch n true) (s.moveReader n .ended)

/-- **What one step does.** -/
theorem stepped {s t : ObicoServer π μ} {m : ServerMove π μ} (h : s.step m = some t) :
    s.Stepped m t := by
  cases m with
  | put p =>
    simp only [step] at h
    split at h
    · split_ifs at h with hroom <;> cases h
      · exact .put ‹_› hroom
      · exact .full ‹_› (Nat.not_lt.mp hroom)
    · cases h
  | drop p =>
    simp only [step] at h
    split at h <;> cases h
    · exact .drop ‹_› ‹_›
    · exact .dropNone ‹_› ‹_›
  | testRun =>
    simp only [step] at h
    split at h
    · split_ifs at h with hrun <;> cases h
      · exact .run ‹_› hrun
      · exact .endRun ‹_› (by simpa using hrun)
    · cases h
  | testStop =>
    simp only [step] at h
    split at h <;> cases h
    rcases hstop : s.stop with _ | _
    · exact .goOn ‹_› hstop
    · exact .stopPump ‹_› hstop
  | testFailure =>
    simp only [step] at h
    split at h <;> cases h
    · exact .raise ‹_› ‹_›
    · exact .noFailure ‹_› ‹_›
  | readerTest n =>
    obtain ⟨hreader, h⟩ := Option.ite_none_right_eq_some.mp h
    obtain rfl := Option.some.inj h
    rcases hstop : s.stop with _ | _
    · exact .readerGoesOn hreader hstop
    · exact .readerStops hreader hstop
  | receive n received =>
    obtain ⟨hreader, h⟩ := Option.ite_none_right_eq_some.mp h
    rcases received with _ | _ | e <;> cases h
    · exact .frame hreader
    · exact .noFrame hreader
    · exact .failed hreader
  | dispatch n raises =>
    obtain ⟨hreader, h⟩ := Option.ite_none_right_eq_some.mp h
    obtain rfl := Option.some.inj h
    rcases raises with _ | _
    · exact .dispatched hreader
    · exact .dispatchRaises hreader
  | stop =>
    cases h
    exact .stop
  | get | timeout =>
    simp only [step] at h
    split at h <;> cases h
    constructor <;> assumption
  | send p message | connect | connectFails connected | sent | sendFails | close | pause | wake =>
    simp only [step] at h
    split at h <;> cases h
    constructor
    assumption

end ObicoServer

end FlashforgeObico
