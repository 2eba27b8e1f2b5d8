import Mathlib.Algebra.Group.Nat.Defs
import FlashforgeObico.Foundations.Trace
import FlashforgeObico.Obico.Supervision

/-!
# How often Obico is called

`_run` sleeps between two sessions, longer and longer while no session connects, and leaves its loop
when it is told to stop or has seen close code 4321. `sessions_are_spaced` says how long it sleeps,
in every interleaving of its threads, and `winds_down` what is left to do once it is to stop.
-/

namespace FlashforgeObico

open Transition Trace

namespace ServerMove

variable {π μ : Type}

/-- The connector has returned a socket. -/
def connects : ServerMove π μ → Bool
  | .connect | .connectFails true => true
  | _ => false

/-- A sleep ends. -/
def wakes : ServerMove π μ → Bool
  | .wake => true
  | _ => false

end ServerMove

/-- The run thread is in a session that has connected, or just after it. -/
def RunPlace.IsConnected {μ : Type} : RunPlace μ → Prop
  | .testingStop | .testingFailure | .getting | .sending _ | .closing true | .pausing true => True
  | _ => False

namespace ObicoServer

variable {π μ : Type} {s t : ObicoServer π μ} {m : ServerMove π μ} {ms : List (ServerMove π μ)}

/-! ## The sleeps -/

/-- The sleeps that have ended since a session connected, or since the start. -/
def sleepsSince (ms : List (ServerMove π μ)) : ℕ :=
  (since ServerMove.connects ms).countP ServerMove.wakes

theorem sleepsSince_of_connects (h : m.connects = true) : sleepsSince (ms ++ [m]) = 0 := by
  rw [sleepsSince, since_concat_of_pos h]
  rfl

theorem sleepsSince_of_not_connects (h : m.connects = false) :
    sleepsSince (ms ++ [m]) = sleepsSince ms + if m.wakes = true then 1 else 0 := by
  rw [sleepsSince, since_concat_of_neg h, List.countP_append, List.countP_singleton, sleepsSince]

/-- The invariant: outside a session that connected, the backoff is the length of the next sleep,
and every session but the first was begun after a sleep. -/
structure Spaced (ms : List (ServerMove π μ)) (s : ObicoServer π μ) : Prop where
  connected : s.place.IsConnected → sleepsSince ms = 0
  backoff : ¬ s.place.IsConnected → s.backoff = min (2 ^ sleepsSince ms) backoffMaxS
  attempts : s.attempts ≤ ms.countP ServerMove.wakes + 1
  looping : s.place = .looping → s.shouldRun = true → s.attempts ≤ ms.countP ServerMove.wakes

theorem spaced_initial : Spaced [] ({} : ObicoServer π μ) := by
  refine ⟨fun h => h.elim, fun _ => rfl, ?_, fun _ _ => ?_⟩ <;> exact Nat.zero_le _

/-- A step that neither connects nor wakes, nor brings the run thread back to its loop. -/
theorem Spaced.frame (h : s.Spaced ms) (hconnects : m.connects = false) (hwakes : m.wakes = false)
    (hbackoff : t.backoff = s.backoff) (hattempts : t.attempts = s.attempts)
    (hplace : t.place.IsConnected ↔ s.place.IsConnected)
    (hloop : t.place = .looping → t.shouldRun = true → s.place = .looping ∧ s.shouldRun = true) :
    t.Spaced (ms ++ [m]) := by
  have hsleeps : sleepsSince (ms ++ [m]) = sleepsSince ms := by
    rw [sleepsSince_of_not_connects hconnects, hwakes]
    rfl
  have hcount : (ms ++ [m]).countP ServerMove.wakes = ms.countP ServerMove.wakes := by
    rw [List.countP_append, List.countP_singleton, hwakes]
    rfl
  refine ⟨fun ht => ?_, fun ht => ?_, ?_, fun hlooping hrun => ?_⟩
  · rw [hsleeps]
    exact h.connected (hplace.mp ht)
  · rw [hsleeps, hbackoff]
    exact h.backoff fun hs => ht (hplace.mpr hs)
  · rw [hcount, hattempts]
    exact h.attempts
  · obtain ⟨hlooping, hrun⟩ := hloop hlooping hrun
    rw [hcount, hattempts]
    exact h.looping hlooping hrun

/-- **One step.** -/
theorem Spaced.step [DecidableEq π] (h : s.Spaced ms) (hm : s.step m = some t) :
    t.Spaced (ms ++ [m]) := by
  cases stepped hm with
  | send | put | full | drop | dropNone | readerStops | readerGoesOn | frame | noFrame
  | failed | dispatched | dispatchRaises =>
    exact h.frame rfl rfl rfl rfl Iff.rfl fun hlooping hrun => ⟨hlooping, hrun⟩
  | stop =>
    refine h.frame rfl rfl rfl rfl Iff.rfl fun hlooping hrun => ?_
    cases hrun
  | goOn hplace | noFailure hplace | get hplace | timeout hplace | sent hplace
  | sendFails hplace | stopPump hplace | raise hplace =>
    refine h.frame rfl rfl rfl rfl ?_ fun hlooping => by cases hlooping
    rw [hplace]
    exact Iff.rfl
  | endRun hplace =>
    refine h.frame rfl rfl rfl rfl ?_ fun hlooping => by cases hlooping
    rw [hplace]
    exact Iff.rfl
  | @close connected hplace =>
    refine h.frame rfl rfl rfl rfl ?_ fun hlooping => by cases hlooping
    rw [hplace]
    cases connected <;> exact Iff.rfl
  | run hplace hrun =>
    have hbackoff := h.backoff (by rw [hplace]; exact id)
    have hattempts := h.looping hplace hrun
    refine ⟨fun hc => hc.elim, fun _ => ?_, ?_, fun hlooping => by cases hlooping⟩
    · rw [sleepsSince_of_not_connects rfl]
      exact hbackoff
    · rw [List.countP_append]
      exact Nat.succ_le_succ hattempts
  | connect hplace =>
    refine ⟨fun _ => sleepsSince_of_connects rfl, fun hc => (hc trivial).elim, ?_,
      fun hlooping => by cases hlooping⟩
    rw [List.countP_append]
    exact h.attempts
  | @connectFails connected hplace =>
    rcases connected with _ | _
    · refine h.frame rfl rfl rfl rfl ?_ fun hlooping => by cases hlooping
      rw [hplace]
      exact Iff.rfl
    · refine ⟨fun _ => sleepsSince_of_connects rfl, fun hc => (hc trivial).elim, ?_,
        fun hlooping => by cases hlooping⟩
      rw [List.countP_append]
      exact h.attempts
  | @pause connected hplace =>
    -- the backoff is reset after a session that connected
    have hsleeps : sleepsSince (ms ++ [ServerMove.pause]) = sleepsSince ms :=
      sleepsSince_of_not_connects rfl
    have hattempts : s.attempts ≤ (ms ++ [ServerMove.pause]).countP ServerMove.wakes + 1 := by
      rw [List.countP_append]
      exact h.attempts
    refine ⟨fun hc => ?_, fun _ => ?_, hattempts, fun hlooping hrun => ?_⟩
    · change (if s.shouldRun then RunPlace.sleeping else RunPlace.looping : RunPlace μ).IsConnected
        at hc
      split_ifs at hc <;> exact hc.elim
    · rw [hsleeps]
      change (if connected then backoffStartS else s.backoff) = _
      cases connected with
      | true =>
        rw [h.connected (by rw [hplace]; trivial)]
        rfl
      | false => exact h.backoff (by rw [hplace]; exact id)
    · change s.shouldRun = true at hrun
      change (if s.shouldRun then RunPlace.sleeping else RunPlace.looping : RunPlace μ) = .looping
        at hlooping
      rw [if_pos hrun] at hlooping
      cases hlooping
  | wake hplace =>
    have hbackoff := h.backoff (by rw [hplace]; exact id)
    refine ⟨fun hc => hc.elim, fun _ => ?_, ?_, fun _ _ => ?_⟩
    · rw [sleepsSince_of_not_connects rfl]
      change min (s.backoff * 2) backoffMaxS = min (2 ^ (sleepsSince ms + 1)) backoffMaxS
      rw [hbackoff, pow_succ]
      omega
    · rw [List.countP_append]
      exact h.attempts.trans (Nat.le_succ _)
    · rw [List.countP_append]
      exact h.attempts

/-- **Sessions are spaced.** In every interleaving there was a sleep before each session but the
first, and the sleep after `k` sleeps since the last session that connected lasts `2 ^ k` seconds,
at most `BACKOFF_MAX_S`. -/
theorem sessions_are_spaced [DecidableEq π] (h : Run (ofPartial step) {} ms s) :
    s.attempts ≤ ms.countP ServerMove.wakes + 1 ∧
      (s.place = .sleeping → s.backoff = min (2 ^ sleepsSince ms) backoffMaxS) := by
  have hspaced : s.Spaced ms :=
    h.history (I := fun ms s => s.Spaced ms) spaced_initial fun _ _ _ _ hs hm => hs.step hm
  exact ⟨hspaced.attempts, fun hplace => hspaced.backoff (by rw [hplace]; exact id)⟩

/-- Obico can't be reached, twice. -/
def unreachable : List (ServerMove Unit ℕ) :=
  [.testRun, .connectFails false, .close, .pause, .wake, .testRun, .connectFails false, .close,
    .pause]

theorem unreachable_is_spaced :
    ∃ s ∈ unreachable.foldlM step ({} : ObicoServer Unit ℕ),
      s.attempts ≤ 2 ∧ s.backoff = min (2 ^ 1) backoffMaxS := by
  have hrun : Run (ofPartial step) ({} : ObicoServer Unit ℕ) unreachable _ := run_ofPartial.mpr rfl
  obtain ⟨hattempts, hbackoff⟩ := sessions_are_spaced hrun
  exact ⟨_, rfl, hattempts, hbackoff rfl⟩

/-! ## Close code 4321 -/

/-- `shared_token_detected` and `_stop` stay set. -/
theorem flags_step [DecidableEq π] (hm : s.step m = some t) :
    (s.sharedTokenDetected = true → t.sharedTokenDetected = true) ∧
      (s.stop = true → t.stop = true) := by
  cases stepped hm with
  | raise => exact ⟨fun hseen => by simp [ObicoServer.raise, hseen], id⟩
  | stop => exact ⟨id, fun _ => rfl⟩
  | _ => exact ⟨id, id⟩

/-- `shared_token_detected` is set for a session that was closed with code 4321. -/
theorem tokenClosed_of_detected [DecidableEq π] (h : Run (ofPartial step) {} ms s)
    (hseen : s.sharedTokenDetected = true) : ∃ n, s.TokenClosed n := by
  refine h.invariant (I := fun s => s.sharedTokenDetected = true → ∃ n, s.TokenClosed n)
    (fun h => by cases h) (fun s m t hs hm hseen => ?_) hseen
  cases stepped hm with
  | @raise e rest hplace hfailure =>
    rcases Bool.or_eq_true_iff.mp hseen with hseen | he
    · exact hs hseen
    · obtain rfl : e = .sharedTokenClosed := of_decide_eq_true he
      refine ⟨s.attempts, ?_⟩
      change _ ∈ s.failure s.attempts
      rw [hfailure]
      exact List.mem_cons_self
  | failed =>
    obtain ⟨n, hn⟩ := hs hseen
    exact ⟨n, tokenClosed_failed.mpr (.inl hn)⟩
  | _ => exact hs hseen

/-! ## The end of the run thread -/

/-- The steps that the run thread has left once it is to stop. -/
def stepsLeft (s : ObicoServer π μ) : ℕ :=
  match s.place with
  | .testingFailure => 8
  | .getting => 7
  | .sending _ => 6
  | .connecting => 5
  | .testingStop => 4
  | .closing _ => 3
  | .pausing _ | .sleeping => 2
  | .looping => 1
  | .ended => 0

/-- The messages that the run thread may still send once it is to stop: the one in its hand, or one
that it is about to take off the queue. -/
def sendsLeft (s : ObicoServer π μ) : ℕ :=
  match s.place with
  | .testingFailure | .getting | .sending _ => 1
  | _ => 0

/-- The run thread is to leave its loop: it is told to stop, or it has seen close code 4321, and
then it is out of the pump. -/
def WindsDown (s : ObicoServer π μ) : Prop :=
  s.stop = true ∨ s.sharedTokenDetected = true ∧ ¬ s.InPump ∧ s.place ≠ .connecting

theorem shouldRun_eq_false_iff :
    s.shouldRun = false ↔ s.stop = true ∨ s.sharedTokenDetected = true := by
  rw [shouldRun, Bool.and_eq_false_iff, Bool.not_eq_false', Bool.not_eq_false']

theorem Consistent.windsDown_iff (h : s.Consistent) : s.WindsDown ↔ s.shouldRun = false := by
  rw [shouldRun_eq_false_iff]
  refine or_congr_right ⟨And.left, fun hseen => ?_⟩
  obtain ⟨hpump, hplace, -⟩ := h.seen hseen
  exact ⟨hseen, hpump, hplace⟩

theorem WindsDown.shouldRun_eq_false (h : s.WindsDown) : s.shouldRun = false :=
  shouldRun_eq_false_iff.mpr (h.imp_right And.left)

/-- What a step does once the run thread is to stop: no session begins, a step of the run thread
brings it closer to its end, and it sends what it may still send. -/
structure WoundDown (m : ServerMove π μ) (s t : ObicoServer π μ) : Prop where
  windsDown : t.WindsDown
  attempts : t.attempts = s.attempts
  steps : t.stepsLeft + (if m.ofRunThread = true then 1 else 0) ≤ s.stepsLeft
  sends : t.delivered.length + t.sendsLeft ≤ s.delivered.length + s.sendsLeft

/-- A step of another thread. -/
theorem WindsDown.frame (h : s.WindsDown) (hm : m.ofRunThread = false)
    (hstop : s.stop = true → t.stop = true) (hseen : t.sharedTokenDetected = s.sharedTokenDetected)
    (hattempts : t.attempts = s.attempts) (hplace : t.place = s.place)
    (hdelivered : t.delivered = s.delivered) : WoundDown m s t := by
  have hpump : t.InPump ↔ s.InPump := by rw [InPump, pumpSteps, hplace, InPump, pumpSteps]
  refine ⟨?_, hattempts, ?_, ?_⟩
  · rcases h with h | ⟨h, hout, hconnecting⟩
    · exact .inl (hstop h)
    · exact .inr ⟨hseen.trans h, fun ht => hout (hpump.mp ht), hplace ▸ hconnecting⟩
  · rw [stepsLeft, stepsLeft, hplace, hm]
    exact Nat.le_refl _
  · rw [sendsLeft, sendsLeft, hplace, hdelivered]

/-- A step of the run thread that isn't the one that sends. -/
theorem WindsDown.go (h : s.WindsDown) (hstop : t.stop = s.stop)
    (hseen : s.sharedTokenDetected = true → t.sharedTokenDetected = true)
    (hattempts : t.attempts = s.attempts) (hdelivered : t.delivered = s.delivered)
    (hpump : ¬ s.InPump → s.place ≠ .connecting → ¬ t.InPump ∧ t.place ≠ .connecting)
    (hsteps : t.stepsLeft < s.stepsLeft) (hsends : t.sendsLeft ≤ s.sendsLeft) :
    WoundDown m s t := by
  refine ⟨?_, hattempts, ?_, ?_⟩
  · rcases h with h | ⟨h, hout, hconnecting⟩
    · exact .inl (hstop.trans h)
    · exact .inr ⟨hseen h, hpump hout hconnecting⟩
  · split_ifs <;> omega
  · rw [hdelivered]
    omega

theorem WindsDown.step [DecidableEq π] (h : s.WindsDown) (hm : s.step m = some t) :
    WoundDown m s t := by
  have hrun := h.shouldRun_eq_false
  cases stepped hm with
  | send | put | full | drop | dropNone | readerStops | readerGoesOn | frame | noFrame
  | failed | dispatched | dispatchRaises => exact h.frame rfl id rfl rfl rfl rfl
  | stop => exact h.frame rfl (fun _ => rfl) rfl rfl rfl rfl
  | run _ hruns =>
    rw [hrun] at hruns
    cases hruns
  | goOn hplace hstop =>
    rcases h with h | ⟨-, hout, -⟩
    · rw [hstop] at h
      cases h
    · exact absurd (by simp [InPump, pumpSteps, hplace]) hout
  | endRun hplace | connect hplace | connectFails hplace | stopPump hplace | noFailure hplace
  | get hplace | timeout hplace | sendFails hplace | close hplace | wake hplace =>
    refine h.go rfl id rfl rfl (fun hout hconnecting => ?_) ?_ ?_
    all_goals
      simp_all [InPump, pumpSteps, stepsLeft, sendsLeft, ObicoServer.go, ObicoServer.moveReader]
  | raise hplace =>
    refine h.go rfl (fun hseen => by simp [ObicoServer.raise, hseen]) rfl rfl (fun _ _ => ?_) ?_ ?_
    all_goals simp [InPump, pumpSteps, stepsLeft, sendsLeft, ObicoServer.raise, hplace]
  | pause hplace =>
    refine h.go rfl id rfl rfl (fun _ _ => ?_) ?_ ?_
    all_goals simp [InPump, pumpSteps, stepsLeft, sendsLeft, ObicoServer.go, hplace, hrun]
  | sent hplace =>
    refine ⟨?_, rfl, ?_, ?_⟩
    · rcases h with h | ⟨-, hout, -⟩
      · exact .inl h
      · exact absurd (by simp [InPump, pumpSteps, hplace]) hout
    · simp [stepsLeft, ObicoServer.go, ServerMove.ofRunThread, hplace]
    · simp [sendsLeft, ObicoServer.go, hplace]

/-- Until it has ended, the run thread can take a step. -/
theorem exists_step [DecidableEq π] (h : s.place ≠ .ended) :
    ∃ m, m.ofRunThread = true ∧ (s.step m).isSome = true := by
  rcases hplace : s.place with _ | _ | _ | _ | _ | message | connected | connected | _ | _
  · refine ⟨.testRun, rfl, ?_⟩
    rcases hrun : s.shouldRun <;> simp [ObicoServer.step, hplace, hrun]
  · exact ⟨.connect, rfl, by simp [ObicoServer.step, hplace]⟩
  · exact ⟨.testStop, rfl, by simp [ObicoServer.step, hplace]⟩
  · refine ⟨.testFailure, rfl, ?_⟩
    rcases hfailure : s.failure s.attempts <;> simp [ObicoServer.step, hplace, hfailure]
  · rcases hqueue : s.queue with _ | ⟨message, queue⟩
    · exact ⟨.timeout, rfl, by simp [ObicoServer.step, hplace, hqueue]⟩
    · exact ⟨.get, rfl, by simp [ObicoServer.step, hplace, hqueue]⟩
  · exact ⟨.sent, rfl, by simp [ObicoServer.step, hplace]⟩
  · exact ⟨.close, rfl, by simp [ObicoServer.step, hplace]⟩
  · exact ⟨.pause, rfl, by simp [ObicoServer.step, hplace]⟩
  · exact ⟨.wake, rfl, by simp [ObicoServer.step, hplace]⟩
  · exact absurd hplace h

theorem stepsLeft_le (s : ObicoServer π μ) : s.stepsLeft ≤ 8 := by
  unfold stepsLeft
  split <;> decide

theorem sendsLeft_le (s : ObicoServer π μ) : s.sendsLeft ≤ 1 := by
  unfold sendsLeft
  split <;> decide

/-- **The run thread winds down.** Once it is told to stop or has seen close code 4321 it begins no
session, sends at most one more message, and ends after at most eight of its own steps, whatever the
other threads do. -/
theorem winds_down [DecidableEq π] {ls : List (ServerMove π μ)} (h : Run (ofPartial step) {} ms s)
    (hs : s.shouldRun = false) (hrun : Run (ofPartial step) s ls t) :
    t.attempts = s.attempts ∧ t.delivered.length ≤ s.delivered.length + 1 ∧
      ls.countP ServerMove.ofRunThread ≤ 8 ∧
      (t.place ≠ .ended → ∃ m, m.ofRunThread = true ∧ (t.step m).isSome = true) := by
  have hc : s.Consistent := h.invariant consistent_initial fun _ _ _ hs hm => hs.step hm
  have hwinds : s.WindsDown := hc.windsDown_iff.mpr hs
  have hleft : (t.WindsDown ∧ t.attempts = s.attempts ∧
      t.delivered.length + t.sendsLeft ≤ s.delivered.length + s.sendsLeft) ∧
      ls.countP ServerMove.ofRunThread + t.stepsLeft ≤ s.stepsLeft := by
    refine hrun.countP_add_rank_le (I := fun u => u.WindsDown ∧ u.attempts = s.attempts ∧
      u.delivered.length + u.sendsLeft ≤ s.delivered.length + s.sendsLeft)
      ⟨hwinds, rfl, Nat.le_refl _⟩ fun u m v hu hm => ?_
    obtain ⟨hu, hattempts, hsends⟩ := hu
    obtain ⟨hv, hattempts', hsteps, hsends'⟩ := hu.step hm
    exact ⟨⟨hv, hattempts'.trans hattempts, hsends'.trans hsends⟩, hsteps⟩
  obtain ⟨⟨-, hattempts, hsends⟩, hsteps⟩ := hleft
  have hbound := stepsLeft_le s
  have hbound' := sendsLeft_le s
  exact ⟨hattempts, by omega, by omega, exists_step⟩

/-- The server is told to stop while a message is being sent. -/
def stopping : List (ServerMove Unit ℕ) :=
  [.send () 1, .put (), .testRun, .connect, .testStop, .testFailure, .get, .stop]

/-- The rest of that run. -/
def windingDown : List (ServerMove Unit ℕ) :=
  [.send () 2, .sent, .put (), .testStop, .close, .pause, .testRun]

theorem stopped_server_winds_down :
    ∃ s ∈ stopping.foldlM step ({} : ObicoServer Unit ℕ), ∃ t ∈ windingDown.foldlM step s,
      t.attempts = s.attempts ∧ t.delivered.length ≤ s.delivered.length + 1 ∧
        windingDown.countP ServerMove.ofRunThread ≤ 8 := by
  have hstopping : Run (ofPartial step) ({} : ObicoServer Unit ℕ) stopping _ :=
    run_ofPartial.mpr rfl
  obtain ⟨hattempts, hdelivered, hsteps, -⟩ := winds_down hstopping rfl
    (run_ofPartial.mpr (rfl : windingDown.foldlM step _ = some _))
  exact ⟨_, rfl, _, rfl, hattempts, hdelivered, hsteps⟩

end ObicoServer

end FlashforgeObico
