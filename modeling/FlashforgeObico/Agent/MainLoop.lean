import FlashforgeObico.Agent.Receiving
import FlashforgeObico.Agent.Threads
import FlashforgeObico.Obico.Reconnect

/-!
# The main loop

`Agent.run` of `agent.py`, as `run` of `__main__.py` calls it: it polls the printer until a signal
sets `stop` or the websocket has seen close code 4321, and then, or when a poll raises, the
websocket is told to stop. The loop, the websocket with its readers and the agent are one process.
`exits_for_a_reason` says why it exits, and `main_loop_winds_down` that it exits soon once it has a
reason.
-/

namespace FlashforgeObico

open Py Transition

/-- `POLL_ACTIVE_S`. -/
def pollActiveS : ℕ := 2

/-- `POLL_IDLE_S`. -/
def pollIdleS : ℕ := 5

/-- `poll_interval`. -/
def Agent.pollInterval (a : Agent) : ℕ :=
  if a.stateText = .printing ∨ a.stateText = .paused then pollActiveS else pollIdleS

/-- How `run` is left. -/
inductive RunExit
  | ok
  | sharedToken
  | raised
  deriving DecidableEq

/-- The exit code of the process: `EXIT_OK`, `EXIT_SHARED_TOKEN`, or that of an exception. -/
def RunExit.code : RunExit → ℕ
  | ok => 0
  | sharedToken => 2
  | raised => 1

/-- The place of the main thread. -/
inductive MainPlace
  /-- At the test of `stop`. -/
  | testingStop
  /-- At the test of `shared_token_detected`. -/
  | testingToken
  | polling
  /-- In `stop.wait`. -/
  | waiting (interval : ℕ)
  /-- At `obico.stop()`. -/
  | stopping (exit : RunExit)
  | returned (exit : RunExit)
  deriving DecidableEq

/-- Whether `run` has returned. -/
def MainPlace.isReturned : MainPlace → Bool
  | returned _ => true
  | _ => false

/-- A step that isn't the main thread's: neither a poll nor `obico.stop()`. -/
def DownlinkMove.ofOtherThread {π μ : Type} : DownlinkMove π μ → Bool
  | .server .stop => false
  | .agent (.poll _ _ _ _) => false
  | _ => true

/-- The process. -/
structure Process (π μ : Type) where
  downlink : Downlink π μ
  stop : Bool := false
  place : MainPlace := .testingStop

/-- A step of the process. -/
inductive ProcessMove (π μ : Type)
  /-- SIGINT or SIGTERM. -/
  | signal
  | testStop
  | testToken
  | poll (reply : DetailReply) (now : Time) (answers : Answers) (later : Time)
  | wake
  | stopServer
  /-- A step of another thread. -/
  | downlink (m : DownlinkMove π μ)

/-- Only a poll ends the process. -/
theorem Agent.exited_step {l : Label}
    (hl : ∀ reply now answers later, l ≠ .poll reply now answers later) (a : Agent) :
    (a.step l).exited = a.exited := by
  have hstepped := Agent.stepped a l
  generalize a.step l = b at hstepped ⊢
  cases hstepped with
  | exited _ => rfl
  | poll _ => exact absurd rfl (hl _ _ _ _)
  | queues _ => rfl
  | executes hcommands hexecuted => exact hexecuted.exited_eq
  | idle _ => rfl

namespace Downlink

variable {π μ : Type} [DecidableEq π] {loads : List Char → Except LoadsError Json}
  {d d' : Downlink π μ} {m : DownlinkMove π μ}

/-- A step of the system is a step of the websocket, or none. -/
theorem server_step (h : d.step loads m = some d') :
    d'.server = d.server ∨ ∃ sm, d.server.step sm = some d'.server := by
  cases stepped h with
  | receives _ hserver | timesOut _ hserver | fails _ hserver | ignores _ _ hserver
  | handles _ _ hserver | server _ _ hserver => exact .inr ⟨_, hserver⟩
  | waits _ | agent _ => exact .inl rfl

/-- `shared_token_detected` and `_stop` stay set. -/
theorem flags_step (h : d.step loads m = some d') :
    (d.server.sharedTokenDetected = true → d'.server.sharedTokenDetected = true) ∧
      (d.server.stop = true → d'.server.stop = true) := by
  rcases server_step h with hsame | ⟨sm, hserver⟩
  · rw [hsame]
    exact ⟨id, id⟩
  · exact ObicoServer.flags_step hserver

/-- `obico.stop()`. -/
theorem Arrived.stop {a : Agent} {ms : List (DownlinkMove π μ)} (h : Arrived loads a ms d) :
    Arrived loads a (ms ++ [.server .stop])
      { d with server := { d.server with stop := true } } := by
  obtain ⟨⟨ss, hrun⟩, hheld, ⟨ls, handled, hh⟩, hclosed⟩ := h
  have hstop : d.server.step .stop = some { d.server with stop := true } := rfl
  refine ⟨⟨_, hrun.snoc hstop⟩, hheld,
    ⟨ls, handled, hh.other rfl (fun _ => rfl) (by simp) (by simp)⟩, fun n => ?_⟩
  rw [incoming_other (by simp)]
  exact hclosed n

/-- The other threads do not end the process. -/
theorem exited_step (h : d.step loads m = some d') (hm : m.ofOtherThread = true) :
    d'.agent.exited = d.agent.exited := by
  cases stepped h with
  | @agent l _ =>
    refine Agent.exited_step (fun reply now answers later hl => ?_) _
    rw [hl] at hm
    cases hm
  | handles => exact Agent.exited_step (by simp) _
  | _ => rfl

end Downlink

namespace ProcessMove

variable {π μ : Type}

/-- A step of the main thread. -/
def ofMainThread : ProcessMove π μ → Bool
  | testStop | testToken | poll _ _ _ _ | wake | stopServer => true
  | _ => false

/-- A poll. -/
def isPoll : ProcessMove π μ → Bool
  | poll _ _ _ _ => true
  | _ => false

/-- What a step is to the websocket, its readers and the agent. -/
def downlink? : ProcessMove π μ → Option (DownlinkMove π μ)
  | poll reply now answers later => some (.agent (.poll reply now answers later))
  | stopServer => some (.server .stop)
  | downlink m => some m
  | _ => none

end ProcessMove

namespace Process

variable {π μ : Type}

/-- `obico.stop()`. -/
def stopServer (p : Process π μ) : Downlink π μ :=
  { p.downlink with server := { p.downlink.server with stop := true } }

variable [DecidableEq π] (loads : List Char → Except LoadsError Json)

/-- One step; `none` when the thread is elsewhere, or when the process has ended. -/
def step (p : Process π μ) : ProcessMove π μ → Option (Process π μ)
  | .signal => some { p with stop := true }
  | .testStop =>
    match p.place with
    | .testingStop => some { p with place := if p.stop then .stopping .ok else .testingToken }
    | _ => none
  | .testToken =>
    match p.place with
    | .testingToken =>
      some { p with
        place := if p.downlink.server.sharedTokenDetected then .stopping .sharedToken
          else .polling }
    | _ => none
  | .poll reply now answers later =>
    match p.place with
    | .polling =>
      (p.downlink.step loads (.agent (.poll reply now answers later))).map fun downlink =>
        { p with
          downlink
          place := if downlink.agent.exited then .stopping .raised
            else .waiting downlink.agent.pollInterval }
    | _ => none
  | .wake =>
    match p.place with
    | .waiting _ => some { p with place := .testingStop }
    | _ => none
  | .stopServer =>
    match p.place with
    | .stopping exit => some { p with downlink := p.stopServer, place := .returned exit }
    | _ => none
  | .downlink m =>
    if m.ofOtherThread && !p.place.isReturned then
      (p.downlink.step loads m).map fun downlink => { p with downlink }
    else none

/-- The steps, each under its guards. -/
inductive Stepped (p : Process π μ) : ProcessMove π μ → Process π μ → Prop
  | signal : Stepped p .signal { p with stop := true }
  | stops : p.place = .testingStop → p.stop = true →
      Stepped p .testStop { p with place := .stopping .ok }
  | goesOn : p.place = .testingStop → p.stop = false →
      Stepped p .testStop { p with place := .testingToken }
  | detects : p.place = .testingToken → p.downlink.server.sharedTokenDetected = true →
      Stepped p .testToken { p with place := .stopping .sharedToken }
  | detectsNone : p.place = .testingToken → p.downlink.server.sharedTokenDetected = false →
      Stepped p .testToken { p with place := .polling }
  | raises {reply now answers later downlink} : p.place = .polling →
      p.downlink.step loads (.agent (.poll reply now answers later)) = some downlink →
      downlink.agent.exited = true →
      Stepped p (.poll reply now answers later) { p with downlink, place := .stopping .raised }
  | polls {reply now answers later downlink interval} : p.place = .polling →
      p.downlink.step loads (.agent (.poll reply now answers later)) = some downlink →
      downlink.agent.exited = false →
      Stepped p (.poll reply now answers later) { p with downlink, place := .waiting interval }
  | wakes {interval} : p.place = .waiting interval →
      Stepped p .wake { p with place := .testingStop }
  | stopsServer {exit} : p.place = .stopping exit →
      Stepped p .stopServer { p with downlink := p.stopServer, place := .returned exit }
  | downlink {m downlink} : m.ofOtherThread = true → p.place.isReturned = false →
      p.downlink.step loads m = some downlink → Stepped p (.downlink m) { p with downlink }

variable {loads} {p q : Process π μ} {m : ProcessMove π μ}

theorem stepped (h : p.step loads m = some q) : p.Stepped loads m q := by
  cases m with
  | signal =>
    cases h
    exact .signal
  | testStop =>
    simp only [step] at h
    split at h <;> cases h
    by_cases hstop : p.stop = true
    · rw [if_pos hstop]
      exact .stops ‹_› hstop
    · rw [if_neg hstop]
      exact .goesOn ‹_› (Bool.eq_false_iff.mpr hstop)
  | testToken =>
    simp only [step] at h
    split at h <;> cases h
    rcases hseen : p.downlink.server.sharedTokenDetected with _ | _
    · exact .detectsNone ‹_› hseen
    · exact .detects ‹_› hseen
  | poll reply now answers later =>
    simp only [step] at h
    split at h
    · obtain ⟨downlink, hdownlink, rfl⟩ := Option.map_eq_some_iff.mp h
      rcases hexited : downlink.agent.exited with _ | _
      · exact .polls ‹_› hdownlink hexited
      · exact .raises ‹_› hdownlink hexited
    · cases h
  | wake =>
    simp only [step] at h
    split at h <;> cases h
    exact .wakes ‹_›
  | stopServer =>
    simp only [step] at h
    split at h <;> cases h
    exact .stopsServer ‹_›
  | downlink m =>
    obtain ⟨hguard, h⟩ := Option.ite_none_right_eq_some.mp h
    obtain ⟨hother, hreturned⟩ := Bool.and_eq_true_iff.mp hguard
    obtain ⟨downlink, hdownlink, rfl⟩ := Option.map_eq_some_iff.mp h
    exact .downlink hother (by simpa using hreturned) hdownlink

/-! ## Why the process exits -/

/-- Why the main thread is about to return, or has returned. -/
def exit? (p : Process π μ) : Option RunExit :=
  match p.place with
  | .stopping exit | .returned exit => some exit
  | _ => none

/-- What the websocket, its readers and the agent have done. -/
def downlinkMoves (ms : List (ProcessMove π μ)) : List (DownlinkMove π μ) :=
  ms.filterMap ProcessMove.downlink?

variable (loads) in
/-- The invariant: there is a reason for the exit. -/
structure Reasoned (a : Agent) (ms : List (ProcessMove π μ)) (p : Process π μ) : Prop where
  arrived : Downlink.Arrived loads a (downlinkMoves ms) p.downlink
  signalled : p.stop = true → .signal ∈ ms
  ok : p.exit? = some .ok → p.stop = true
  sharedToken : p.exit? = some .sharedToken → p.downlink.server.sharedTokenDetected = true
  raised : p.downlink.agent.exited = true ↔ p.exit? = some .raised
  stopped : p.place.isReturned = true → p.downlink.server.stop = true

theorem reasoned_initial {a : Agent} (ha : a.exited = false) :
    Reasoned loads a [] ({ downlink := { agent := a } } : Process π μ) where
  arrived := Downlink.arrived_initial a
  signalled h := by cases h
  ok h := by cases h
  sharedToken h := by cases h
  raised := iff_of_false (by simp [ha]) (by simp [exit?])
  stopped h := by cases h

variable {a : Agent} {ms : List (ProcessMove π μ)}

omit [DecidableEq π] in
theorem downlinkMoves_concat (m : ProcessMove π μ) :
    downlinkMoves (ms ++ [m]) = downlinkMoves ms ++ m.downlink?.toList := by
  rw [downlinkMoves, List.filterMap_append, downlinkMoves]
  cases hm : m.downlink? <;> simp [hm]

/-- A step of the main thread in its loop. -/
theorem Reasoned.go (h : Reasoned loads a ms p) (hm : m.downlink? = none)
    (hdownlink : q.downlink = p.downlink) (hstop : q.stop = p.stop) (hp : p.exit? = none)
    (hok : q.exit? = some .ok → p.stop = true)
    (htoken : q.exit? = some .sharedToken → p.downlink.server.sharedTokenDetected = true)
    (hraised : q.exit? ≠ some .raised) (hreturned : q.place.isReturned = false) :
    Reasoned loads a (ms ++ [m]) q := by
  refine ⟨?_, fun hs => ?_, fun hq => hstop.trans (hok hq), fun hq => ?_, ?_, fun hq => ?_⟩
  · rw [downlinkMoves_concat, hm, hdownlink]
    simpa using h.arrived
  · exact List.mem_append_left _ (h.signalled (hstop ▸ hs))
  · rw [hdownlink]
    exact htoken hq
  · rw [hdownlink, h.raised, hp]
    exact iff_of_false (by simp) hraised
  · rw [hreturned] at hq
    cases hq

theorem Reasoned.step (h : Reasoned loads a ms p) (hm : p.step loads m = some q) :
    Reasoned loads a (ms ++ [m]) q := by
  cases stepped hm with
  | signal =>
    refine ⟨?_, fun _ => by simp, fun _ => rfl, h.sharedToken, h.raised, h.stopped⟩
    rw [downlinkMoves_concat]
    simpa [ProcessMove.downlink?] using h.arrived
  | stops hplace hstop =>
    exact h.go rfl rfl rfl (by simp [exit?, hplace]) (fun _ => hstop) (by simp [exit?])
      (by simp [exit?]) rfl
  | detects hplace hseen =>
    exact h.go rfl rfl rfl (by simp [exit?, hplace]) (by simp [exit?]) (fun _ => hseen)
      (by simp [exit?]) rfl
  | goesOn hplace | detectsNone hplace | wakes hplace =>
    exact h.go rfl rfl rfl (by simp [exit?, hplace]) (by simp [exit?]) (by simp [exit?])
      (by simp [exit?]) rfl
  | raises hplace hdownlink hexited =>
    refine ⟨?_, fun hs => List.mem_append_left _ (h.signalled hs), by simp [exit?],
      by simp [exit?], iff_of_true hexited rfl, by simp [MainPlace.isReturned]⟩
    rw [downlinkMoves_concat]
    exact h.arrived.step hdownlink
  | polls hplace hdownlink hexited =>
    refine ⟨?_, fun hs => List.mem_append_left _ (h.signalled hs), by simp [exit?],
      by simp [exit?], iff_of_false (by simp [hexited]) (by simp [exit?]),
      by simp [MainPlace.isReturned]⟩
    rw [downlinkMoves_concat]
    exact h.arrived.step hdownlink
  | @stopsServer exit hplace =>
    have hexit : p.exit? = some exit := by rw [Process.exit?, hplace]
    refine ⟨?_, fun hs => List.mem_append_left _ (h.signalled hs), fun hq => h.ok (hexit.trans hq),
      fun hq => h.sharedToken (hexit.trans hq), ?_, fun _ => rfl⟩
    · rw [downlinkMoves_concat]
      exact h.arrived.stop
    · exact h.raised.trans (by rw [hexit]; rfl)
  | downlink hother hreturned hdownlink =>
    obtain ⟨hseen, hstop⟩ := Downlink.flags_step hdownlink
    refine ⟨?_, fun hs => List.mem_append_left _ (h.signalled hs), h.ok,
      fun hq => hseen (h.sharedToken hq), ?_, fun hq => hstop (h.stopped hq)⟩
    · rw [downlinkMoves_concat]
      exact h.arrived.step hdownlink
    · rw [Downlink.exited_step hdownlink hother]
      exact h.raised

variable (loads) in
/-- **The process exits for a reason.** When `run` has returned, the websocket has been told to
stop, and there was a signal if the exit code is 0, some session has received a close frame with
code 4321 if it is 2, and a poll has raised if it is 1. -/
theorem exits_for_a_reason {config : Config} {cameras : List Camera}
    {reserver : Option (List Camera)} {exit : RunExit}
    (h : Run (ofPartial (step loads))
      { downlink := { agent := Agent.initial config cameras reserver } } ms p)
    (hexit : p.place = .returned exit) :
    p.downlink.server.stop = true ∧
      match exit with
      | .ok => .signal ∈ ms
      | .sharedToken => ∃ n, ∃ x ∈ Downlink.incoming n (downlinkMoves ms), x.ClosesSharedToken
      | .raised => p.downlink.agent.exited = true := by
  have hreasoned : Reasoned loads (Agent.initial config cameras reserver) ms p :=
    h.history (I := fun ms p => Reasoned loads (Agent.initial config cameras reserver) ms p)
      (reasoned_initial rfl) fun _ _ _ _ hs hm => hs.step hm
  refine ⟨hreasoned.stopped (by rw [hexit]; rfl), ?_⟩
  cases exit with
  | ok => exact hreasoned.signalled (hreasoned.ok (by rw [exit?, hexit]))
  | sharedToken =>
    obtain ⟨ss, hrun⟩ := hreasoned.arrived.server
    have hseen := hreasoned.sharedToken (by rw [exit?, hexit])
    obtain ⟨n, hn⟩ := ObicoServer.tokenClosed_of_detected hrun hseen
    exact ⟨n, (hreasoned.arrived.closed n).mp hn⟩
  | raised => exact hreasoned.raised.mpr (by rw [exit?, hexit])

/-- A session is closed with code 4321, and the process exits. -/
def exiting : List (ProcessMove Unit ℕ) :=
  Downlink.pausing.map .downlink ++ [.downlink (.server .testStop),
    .downlink (.server .testFailure), .testStop, .testToken, .stopServer]

theorem shared_token_exits_for_a_reason : ∃ p ∈ exiting.foldlM (step Downlink.pauseLoads)
      ({ downlink := { agent := Agent.bare } } : Process Unit ℕ),
    p.place = .returned .sharedToken ∧ p.downlink.server.stop = true ∧
      ∃ n, ∃ x ∈ Downlink.incoming n (downlinkMoves exiting), x.ClosesSharedToken := by
  have hrun : Run (ofPartial (step Downlink.pauseLoads))
      ({ downlink := { agent := Agent.bare } } : Process Unit ℕ) exiting _ := run_ofPartial.mpr rfl
  exact ⟨_, rfl, rfl, exits_for_a_reason Downlink.pauseLoads hrun rfl⟩

/-! ## How soon -/

/-- There is a reason to return: a signal, or close code 4321. -/
def IsToReturn (p : Process π μ) : Prop :=
  p.stop = true ∨ p.downlink.server.sharedTokenDetected = true

/-- The steps that the main thread has left once it is to return. -/
def stepsLeft (p : Process π μ) : ℕ :=
  let fromTest := if p.stop then 2 else 3
  match p.place with
  | .testingToken => if p.downlink.server.sharedTokenDetected then 2 else 5
  | .polling => fromTest + 2
  | .waiting _ => fromTest + 1
  | .testingStop => fromTest
  | .stopping _ => 1
  | .returned _ => 0

/-- The polls that the main thread has left once it is to return. -/
def pollsLeft (p : Process π μ) : ℕ :=
  match p.place with
  | .testingToken => if p.downlink.server.sharedTokenDetected then 0 else 1
  | .polling => 1
  | _ => 0

omit [DecidableEq π] in
theorem stepsLeft_le (p : Process π μ) : p.stepsLeft ≤ 5 := by
  unfold stepsLeft
  split <;> grind

omit [DecidableEq π] in
theorem pollsLeft_le (p : Process π μ) : p.pollsLeft ≤ 1 := by
  unfold pollsLeft
  split <;> grind

/-- What a step does once the main thread is to return. -/
structure Returning (m : ProcessMove π μ) (p q : Process π μ) : Prop where
  isToReturn : q.IsToReturn
  steps : q.stepsLeft + (if m.ofMainThread = true then 1 else 0) ≤ p.stepsLeft
  polls : q.pollsLeft + (if m.isPoll = true then 1 else 0) ≤ p.pollsLeft

omit [DecidableEq π] in
/-- A step of another thread. -/
theorem IsToReturn.frame (h : p.IsToReturn) (hm : m.ofMainThread = false) (hpoll : m.isPoll = false)
    (hplace : q.place = p.place) (hstop : p.stop = true → q.stop = true)
    (hseen : p.downlink.server.sharedTokenDetected = true →
      q.downlink.server.sharedTokenDetected = true) : Returning m p q := by
  refine ⟨h.imp hstop hseen, ?_, ?_⟩
  · rw [hm, stepsLeft, stepsLeft, hplace]
    rcases p.place <;> grind
  · rw [hpoll, pollsLeft, pollsLeft, hplace]
    rcases p.place <;> grind

theorem IsToReturn.step (h : p.IsToReturn) (hm : p.step loads m = some q) : Returning m p q := by
  cases stepped hm with
  | signal => exact h.frame rfl rfl rfl (fun _ => rfl) id
  | downlink _ _ hdownlink => exact h.frame rfl rfl rfl id (Downlink.flags_step hdownlink).1
  | stops hplace hstop =>
    refine ⟨h, ?_, ?_⟩ <;>
    simp [stepsLeft, pollsLeft, ProcessMove.ofMainThread, ProcessMove.isPoll, hplace, hstop]
  | goesOn hplace hstop =>
    -- no signal, so that close code 4321 has been seen
    have hseen : p.downlink.server.sharedTokenDetected = true := by
      simpa [IsToReturn, hstop] using h
    refine ⟨h, ?_, ?_⟩ <;>
    simp [stepsLeft, pollsLeft, ProcessMove.ofMainThread, ProcessMove.isPoll, hplace, hstop, hseen]
  | detects hplace hseen =>
    refine ⟨h, ?_, ?_⟩ <;>
    simp [stepsLeft, pollsLeft, ProcessMove.ofMainThread, ProcessMove.isPoll, hplace, hseen]
  | detectsNone hplace hseen =>
    have hstop : p.stop = true := by simpa [IsToReturn, hseen] using h
    refine ⟨h, ?_, ?_⟩ <;>
    simp [stepsLeft, pollsLeft, ProcessMove.ofMainThread, ProcessMove.isPoll, hplace, hstop, hseen]
  | raises hplace hdownlink | polls hplace hdownlink =>
    refine ⟨h.imp_right (Downlink.flags_step hdownlink).1, ?_, ?_⟩ <;>
    simp [stepsLeft, pollsLeft, ProcessMove.ofMainThread, ProcessMove.isPoll, hplace]
  | wakes hplace =>
    refine ⟨h, ?_, ?_⟩ <;>
    simp [stepsLeft, pollsLeft, ProcessMove.ofMainThread, ProcessMove.isPoll, hplace]
  | stopsServer hplace =>
    refine ⟨h, ?_, ?_⟩ <;>
    simp [stepsLeft, pollsLeft, ProcessMove.ofMainThread, ProcessMove.isPoll, hplace]

/-- Until it has returned, the main thread can take a step. -/
theorem exists_step (hraised : p.downlink.agent.exited = true ↔ p.exit? = some .raised)
    (h : p.place.isReturned = false) :
    ∃ m, m.ofMainThread = true ∧ (p.step loads m).isSome = true := by
  rcases hplace : p.place with _ | _ | _ | interval | exit | exit
  · exact ⟨.testStop, rfl, by simp [step, hplace]⟩
  · exact ⟨.testToken, rfl, by simp [step, hplace]⟩
  · have hrunning : p.downlink.agent.exited = false := by
      rw [Bool.eq_false_iff, Ne, hraised]
      simp [exit?, hplace]
    refine ⟨.poll (.ok []) 0 (.constant (.ok [])) 0, rfl, ?_⟩
    simp [step, hplace, Downlink.step, hrunning]
  · exact ⟨.wake, rfl, by simp [step, hplace]⟩
  · exact ⟨.stopServer, rfl, by simp [step, hplace]⟩
  · rw [hplace] at h
    cases h

variable (loads) in
/-- **The main loop winds down.** Once there is a signal, or the run thread has seen close code
4321, the main thread polls at most once more and returns after at most five of its own steps,
whatever the other threads do. -/
theorem main_loop_winds_down {config : Config} {cameras : List Camera}
    {reserver : Option (List Camera)} {ls : List (ProcessMove π μ)}
    (h : Run (ofPartial (step loads))
      { downlink := { agent := Agent.initial config cameras reserver } } ms p)
    (hp : p.IsToReturn) (hrun : Run (ofPartial (step loads)) p ls q) :
    ls.countP ProcessMove.isPoll ≤ 1 ∧ ls.countP ProcessMove.ofMainThread ≤ 5 ∧
      (q.place.isReturned = false →
        ∃ m, m.ofMainThread = true ∧ (q.step loads m).isSome = true) := by
  have hpolls : q.IsToReturn ∧ ls.countP ProcessMove.isPoll + q.pollsLeft ≤ p.pollsLeft :=
    hrun.countP_add_rank_le hp fun u m v hu hm => ⟨(hu.step hm).isToReturn, (hu.step hm).polls⟩
  have hsteps : q.IsToReturn ∧ ls.countP ProcessMove.ofMainThread + q.stepsLeft ≤ p.stepsLeft :=
    hrun.countP_add_rank_le hp fun u m v hu hm => ⟨(hu.step hm).isToReturn, (hu.step hm).steps⟩
  have hreasoned : ∃ ms, Reasoned loads (Agent.initial config cameras reserver) ms p := by
    refine ⟨ms, ?_⟩
    exact h.history
      (I := fun ms p => Reasoned loads (Agent.initial config cameras reserver) ms p)
      (reasoned_initial rfl) fun _ _ _ _ hs hm => hs.step hm
  obtain ⟨ms', hreasoned'⟩ : ∃ ms, Reasoned loads (Agent.initial config cameras reserver) ms q :=
    hrun.invariant
      (I := fun q => ∃ ms, Reasoned loads (Agent.initial config cameras reserver) ms q)
      hreasoned fun _ _ _ hs hm => hs.imp' (· ++ [_]) fun _ hs => hs.step hm
  have hpolls' := pollsLeft_le p
  have hsteps' := stepsLeft_le p
  exact ⟨by omega, by omega, exists_step hreasoned'.raised⟩

theorem signalled_process_winds_down :
    ∃ p ∈ ([.testStop, .signal] : List (ProcessMove Unit ℕ)).foldlM (step Downlink.pauseLoads)
        ({ downlink := { agent := Agent.bare } } : Process Unit ℕ),
      ∃ q ∈ ([.testToken] : List (ProcessMove Unit ℕ)).foldlM (step Downlink.pauseLoads) p,
        ∃ m, m.ofMainThread = true ∧ (q.step Downlink.pauseLoads m).isSome = true := by
  have hrun : Run (ofPartial (step Downlink.pauseLoads))
      ({ downlink := { agent := Agent.bare } } : Process Unit ℕ) [.testStop, .signal] _ :=
    run_ofPartial.mpr rfl
  obtain ⟨-, -, hstep⟩ := main_loop_winds_down Downlink.pauseLoads hrun (.inl rfl)
    (run_ofPartial.mpr (rfl : [.testToken].foldlM _ _ = some _))
  exact ⟨_, rfl, _, rfl, hstep rfl⟩

end Process

end FlashforgeObico
