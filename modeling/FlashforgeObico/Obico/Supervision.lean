import FlashforgeObico.Obico.Server

/-!
# How a session is supervised

A session has two threads: the reader records in `failure` why `recv` raised, and the run thread, in
`_pump`, looks at `failure` before it takes a message. A session is supervised when close code 4321
ends it for good, and when a reader that has exited has recorded a failure. The run thread can miss
the code, because its own `ws.send` fails first or because it has left the pump, and a reader dies
without a record when `_dispatch` raises. `session_is_supervised` says that there is no other way,
and `Failed.ends` that the run thread leaves the pump within four of its steps after a failure.
-/

namespace FlashforgeObico

open Transition

/-- A step of the run thread. -/
def ServerMove.ofRunThread {π μ : Type} : ServerMove π μ → Bool
  | .testRun | .connect | .connectFails _ | .testStop | .testFailure | .get | .timeout | .sent
  | .sendFails | .close | .pause | .wake => true
  | _ => false

namespace ObicoServer

variable {π μ : Type} {s t : ObicoServer π μ} {m : ServerMove π μ}

/-- The steps that the run thread has left in `_pump` once `failure` isn't empty. -/
def pumpSteps (s : ObicoServer π μ) : ℕ :=
  match s.place with
  | .getting => 4
  | .sending _ => 3
  | .testingStop => 2
  | .testingFailure => 1
  | _ => 0

/-- The run thread is in `_pump`. -/
def InPump (s : ObicoServer π μ) : Prop := 0 < s.pumpSteps

instance (s : ObicoServer π μ) : Decidable s.InPump := inferInstanceAs (Decidable (0 < s.pumpSteps))

/-- The reader of a session has received close code 4321. -/
def TokenClosed (s : ObicoServer π μ) (n : ℕ) : Prop := .sharedTokenClosed ∈ s.failure n

instance (s : ObicoServer π μ) (n : ℕ) : Decidable (s.TokenClosed n) :=
  inferInstanceAs (Decidable (.sharedTokenClosed ∈ s.failure n))

/-- A session that close code 4321 ended is the last one, and `shared_token_detected` is set when
the run thread has left it; a reader that has exited has recorded a failure, unless the server
stops. -/
structure Supervised (s : ObicoServer π μ) : Prop where
  last : ∀ n, s.TokenClosed n → n = s.attempts
  detected : ∀ n, s.TokenClosed n → ¬ s.InPump → s.sharedTokenDetected = true
  recorded : s.stop = false → ∀ n, s.readers n = .ended → s.failure n ≠ []

/-- Close code 4321 is received while the run thread is in the pump of that session; it doesn't
leave the pump through `ws.send` or `_stop` then; and no reader dies in `_dispatch` before `_stop`
is set. -/
def Supervises (s : ObicoServer π μ) : ServerMove π μ → Prop
  | .receive n (.failed .sharedTokenClosed) => n = s.attempts ∧ s.InPump
  | .sendFails => ¬ s.TokenClosed s.attempts
  | .testStop => s.stop = true → ¬ s.TokenClosed s.attempts
  | .dispatch _ true => s.stop = true
  | _ => True

/-- What holds in every run: a reader records a failure when it ends, and a session is connected
before its reader starts. -/
structure Consistent (s : ObicoServer π μ) : Prop where
  single : ∀ n, (s.failure n).length ≤ 1
  ends : ∀ n, s.failure n ≠ [] → s.readers n = .ended
  unstarted : ∀ n, s.attempts < n ∨ n = s.attempts ∧ s.place = .connecting →
    s.readers n = .unstarted
  seen : s.sharedTokenDetected = true → ¬ s.InPump ∧ s.place ≠ .connecting ∧
    s.readers s.attempts = .ended

theorem consistent_initial : Consistent ({} : ObicoServer π μ) := by
  constructor <;> simp

theorem not_detected_of_shouldRun (h : s.shouldRun = true) : s.sharedTokenDetected = false := by
  simp only [shouldRun, Bool.and_eq_true, Bool.not_eq_true'] at h
  exact h.2

theorem Consistent.failure_eq_nil (h : s.Consistent) {n : ℕ} (hreader : s.readers n ≠ .ended) :
    s.failure n = [] := by
  by_contra hfailure
  exact hreader (h.ends n hfailure)

theorem supervised_initial : Supervised ({} : ObicoServer π μ) := by
  constructor <;> simp [TokenClosed]

/-- A step of the run thread that neither starts a session nor sees a failure, or a step of another
thread that isn't a reader. -/
theorem Consistent.frame (h : s.Consistent) (hreaders : t.readers = s.readers)
    (hfailure : t.failure = s.failure) (hattempts : t.attempts = s.attempts)
    (hseen : t.sharedTokenDetected = s.sharedTokenDetected)
    (hconnecting : t.place = .connecting → s.place = .connecting) (hpump : t.InPump → s.InPump) :
    t.Consistent := by
  obtain ⟨hsingle, hends, hunstarted, hdetected⟩ := h
  constructor
  · rwa [hfailure]
  · rwa [hfailure, hreaders]
  · intro n hn
    rw [hattempts] at hn
    rw [hreaders]
    exact hunstarted n (hn.imp_right fun hn => ⟨hn.1, hconnecting hn.2⟩)
  · intro ht
    rw [hseen] at ht
    obtain ⟨hout, hplace, hreader⟩ := hdetected ht
    rw [hreaders, hattempts]
    exact ⟨fun ht => hout (hpump ht), fun ht => hplace (hconnecting ht), hreader⟩

/-- A step of a reader that records nothing. -/
theorem Consistent.moveReader (h : s.Consistent) {n : ℕ} {r : ReaderThread}
    (hunstarted : s.readers n ≠ .unstarted) (hended : s.readers n ≠ .ended) :
    (s.moveReader n r).Consistent := by
  have hnone := h.failure_eq_nil hended
  constructor
  · exact h.single
  · intro k hk
    have hne : k ≠ n := by
      rintro rfl
      exact hk hnone
    simpa [ObicoServer.moveReader, hne] using h.ends k hk
  · intro k hk
    have hk' := h.unstarted k hk
    have hne : k ≠ n := by
      rintro rfl
      exact hunstarted hk'
    simpa [ObicoServer.moveReader, hne] using hk'
  · intro hseen
    obtain ⟨hout, hplace, hreader⟩ := h.seen hseen
    have hne : s.attempts ≠ n := by
      rintro rfl
      exact hended hreader
    exact ⟨hout, hplace, by simpa [ObicoServer.moveReader, hne] using hreader⟩

/-- A step that leaves the sessions alone. -/
theorem Supervised.frame (h : s.Supervised) (hfailure : t.failure = s.failure)
    (hreaders : t.readers = s.readers) (hattempts : t.attempts = s.attempts)
    (hseen : t.sharedTokenDetected = s.sharedTokenDetected)
    (hstop : t.stop = false → s.stop = false)
    (hpump : s.TokenClosed s.attempts → s.InPump → t.InPump) : t.Supervised := by
  have hclosed : ∀ n, t.TokenClosed n ↔ s.TokenClosed n :=
    fun n => by rw [TokenClosed, TokenClosed, hfailure]
  refine ⟨fun n hn => ?_, fun n hn hout => ?_, fun ht n hn => ?_⟩
  · rw [hattempts]
    exact h.last n ((hclosed n).mp hn)
  · have hs := (hclosed n).mp hn
    obtain rfl := h.last n hs
    rw [hseen]
    exact h.detected _ hs fun hs' => hout (hpump hs hs')
  · rw [hfailure]
    rw [hreaders] at hn
    exact h.recorded (hstop ht) n hn

/-- The run thread may leave the pump without a look at `failure` only if there is no close code
4321. -/
theorem Supervised.leave_iff (h : s.Supervised) (hc : s.Consistent) (hs : s.InPump)
    (ht : ¬ t.InPump)
    (hfailure : t.failure = s.failure) (hreaders : t.readers = s.readers)
    (hattempts : t.attempts = s.attempts) (hseen : t.sharedTokenDetected = s.sharedTokenDetected)
    (hstop : t.stop = s.stop) : t.Supervised ↔ ¬ s.TokenClosed s.attempts := by
  constructor
  · intro hsupervised hclosed
    have hdetected := hsupervised.detected s.attempts (by rwa [TokenClosed, hfailure]) ht
    exact (hc.seen (hseen ▸ hdetected)).1 hs
  · intro hok
    exact h.frame hfailure hreaders hattempts hseen (hstop ▸ ·) fun hclosed => absurd hclosed hok

/-- A step of a reader that records nothing. -/
theorem Supervised.moveReader (h : s.Supervised) {n : ℕ} {r : ReaderThread}
    (hr : s.stop = false → r ≠ .ended) : (s.moveReader n r).Supervised := by
  refine ⟨h.last, h.detected, fun hs k hk => ?_⟩
  have hne : k ≠ n := by
    rintro rfl
    exact hr hs (by simpa [ObicoServer.moveReader] using hk)
  exact h.recorded hs k (by simpa [ObicoServer.moveReader, hne] using hk)

/-- What the readers have received after a failure of one of them. -/
theorem tokenClosed_failed {n k : ℕ} {e : ReceiveError} :
    ((s.fail n e).moveReader n .ended).TokenClosed k ↔
      s.TokenClosed k ∨ k = n ∧ e = .sharedTokenClosed := by
  by_cases hk : k = n
  · subst hk
    simp [TokenClosed, ObicoServer.moveReader, fail, eq_comm]
  · simp [TokenClosed, ObicoServer.moveReader, fail, hk]

theorem Supervised.failed (h : s.Supervised) {n : ℕ} {e : ReceiveError}
    (hok : e = .sharedTokenClosed → n = s.attempts ∧ s.InPump) :
    ((s.fail n e).moveReader n .ended).Supervised := by
  refine ⟨fun k hk => ?_, fun k hk hout => ?_, fun hs k hk => ?_⟩
  · rcases tokenClosed_failed.mp hk with hk | ⟨rfl, rfl⟩
    · exact h.last k hk
    · exact (hok rfl).1
  · rcases tokenClosed_failed.mp hk with hk | ⟨rfl, rfl⟩
    · exact h.detected k hk hout
    · exact absurd (hok rfl).2 hout
  · by_cases hkn : k = n
    · subst hkn
      simp [ObicoServer.moveReader, fail]
    · have hk' : s.readers k = .ended := by simpa [ObicoServer.moveReader, fail, hkn] using hk
      simpa [ObicoServer.moveReader, fail, hkn] using h.recorded hs k hk'

section Steps

variable [DecidableEq π]

/-- The run thread enters the pump when it has connected. -/
theorem inPump_step (hm : s.step m = some t) (ht : t.InPump) :
    m = .connect ∨ s.InPump ∧ t.attempts = s.attempts := by
  cases stepped hm with
  | connect _ => exact .inl rfl
  | goOn hplace _ | noFailure hplace _ | get hplace _ | timeout hplace _ | sent hplace =>
    exact .inr ⟨by simp [InPump, pumpSteps, hplace], rfl⟩
  | run _ _ | endRun _ _ | connectFails _ | stopPump _ _ | raise _ _ | sendFails _
  | close _ | wake _ =>
    exact absurd ht (by simp [InPump, pumpSteps, go, ObicoServer.raise])
  | pause _ =>
    refine absurd ht ?_
    rcases hrun : s.shouldRun with _ | _ <;> simp [InPump, pumpSteps, go]
  | _ => exact .inr ⟨ht, rfl⟩

theorem Consistent.step (h : s.Consistent) (hm : s.step m = some t) : t.Consistent := by
  cases stepped hm with
  | run hplace hrun =>
    have hseen := not_detected_of_shouldRun hrun
    refine ⟨h.single, h.ends, fun n hn => h.unstarted n (.inl ?_), fun ht => ?_⟩
    · rcases hn with hn | ⟨rfl, -⟩
      · exact Nat.lt_of_succ_lt hn
      · exact Nat.lt_succ_self _
    · exact absurd ht (by simp [go, hseen])
  | connect hplace =>
    have hreader := h.unstarted s.attempts (.inr ⟨rfl, hplace⟩)
    refine ⟨h.single, fun n hn => ?_, fun n hn => ?_, fun ht => ?_⟩
    · have hended := h.ends n hn
      have hne : n ≠ s.attempts := by
        rintro rfl
        simp [hreader] at hended
      simpa [go, ObicoServer.moveReader, hne] using hended
    · have hlater : s.attempts < n := by simpa [go, ObicoServer.moveReader] using hn
      have hne : n ≠ s.attempts := Nat.ne_of_gt hlater
      simpa [go, ObicoServer.moveReader, hne] using h.unstarted n (.inl hlater)
    · exact absurd hplace (h.seen ht).2.1
  | @raise e rest hplace hfailure =>
    have hended := h.ends s.attempts (by simp [hfailure])
    refine ⟨h.single, h.ends, fun n hn => h.unstarted n (.inl ?_), fun _ => ?_⟩
    · simpa [ObicoServer.raise] using hn
    · exact ⟨by simp [InPump, pumpSteps, ObicoServer.raise], by simp [ObicoServer.raise], hended⟩
  | @failed n e hreader =>
    have hmoved := h.moveReader (n := n) (r := .ended) (by simp [hreader]) (by simp [hreader])
    have hnone : s.failure n = [] := h.failure_eq_nil (by simp [hreader])
    refine ⟨fun k => ?_, fun k hk => ?_, hmoved.unstarted, hmoved.seen⟩
    · by_cases hk : k = n
      · subst hk
        simp [ObicoServer.moveReader, fail, hnone]
      · simpa [ObicoServer.moveReader, fail, hk] using h.single k
    · by_cases hkn : k = n
      · subst hkn
        simp [ObicoServer.moveReader]
      · exact hmoved.ends k (by simpa [ObicoServer.moveReader, fail, hkn] using hk)
  | readerStops hreader _ | readerGoesOn hreader _ | frame hreader | noFrame hreader
  | dispatched hreader | dispatchRaises hreader =>
    exact h.moveReader (by simp [hreader]) (by simp [hreader])
  | send _ | put _ _ | full _ _ | drop _ _ | dropNone _ _ | stop =>
    exact h.frame rfl rfl rfl rfl id id
  | endRun hplace _ | connectFails hplace | stopPump hplace _
  | goOn hplace _ | noFailure hplace _ | get hplace _ | timeout hplace _ | sent hplace
  | sendFails hplace | close hplace | wake hplace =>
    exact h.frame rfl rfl rfl rfl (by simp [go]) (by simp [InPump, pumpSteps, go, hplace])
  | pause hplace =>
    refine h.frame rfl rfl rfl rfl ?_ ?_ <;>
    rcases hrun : s.shouldRun with _ | _ <;> simp [InPump, pumpSteps, go]

/-- A step keeps the sessions supervised exactly when `Supervises` allows it. -/
theorem supervised_step (hc : s.Consistent) (h : s.Supervised) (hm : s.step m = some t) :
    t.Supervised ↔ s.Supervises m := by
  cases stepped hm with
  | run hplace hrun =>
    refine iff_of_true ?_ trivial
    have hseen := not_detected_of_shouldRun hrun
    have hnone : ∀ n, ¬ s.TokenClosed n := by
      intro n hn
      have hdetected := h.detected n hn (by simp [InPump, pumpSteps, hplace])
      simp [hseen] at hdetected
    exact ⟨fun n hn => absurd hn (hnone n), fun n hn => absurd hn (hnone n), h.recorded⟩
  | connect hplace =>
    refine iff_of_true ?_ trivial
    have hmoved := h.moveReader (n := s.attempts) (r := .testing) (by simp)
    exact hmoved.frame rfl rfl rfl rfl id (by simp [InPump, pumpSteps, go])
  | @raise e rest hplace hfailure =>
    refine iff_of_true ⟨h.last, fun n hn _ => ?_, h.recorded⟩ trivial
    obtain rfl := h.last n hn
    have hsingle := hc.single s.attempts
    rw [hfailure, List.length_cons] at hsingle
    obtain rfl : rest = [] := List.length_eq_zero_iff.mp (by omega)
    obtain rfl : .sharedTokenClosed = e := by
      simpa [TokenClosed, ObicoServer.raise, hfailure] using hn
    simp [ObicoServer.raise]
  | stopPump hplace hstop =>
    have hout := h.leave_iff (t := s.go (.closing true)) hc (by simp [InPump, pumpSteps, hplace])
      (by simp [InPump, pumpSteps, go]) rfl rfl rfl rfl rfl
    exact hout.trans ⟨fun hok _ => hok, fun hok => hok hstop⟩
  | sendFails hplace =>
    exact h.leave_iff hc (by simp [InPump, pumpSteps, hplace]) (by simp [InPump, pumpSteps, go])
      rfl rfl rfl rfl rfl
  | @failed n e hreader =>
    rcases e with _ | _
    · refine ⟨fun ht => ?_, fun hok => h.failed fun _ => hok⟩
      have hclosed : ((s.fail n .sharedTokenClosed).moveReader n .ended).TokenClosed n :=
        tokenClosed_failed.mpr (.inr ⟨rfl, rfl⟩)
      obtain rfl : n = s.attempts := ht.last n hclosed
      refine ⟨rfl, ?_⟩
      by_contra hout
      have hended := (hc.seen (ht.detected _ hclosed hout)).2.2
      simp [hreader] at hended
    · exact iff_of_true (h.failed (by simp)) trivial
  | @dispatchRaises n hreader =>
    constructor
    · intro ht
      by_contra hstop
      have hfailure : s.failure n ≠ [] :=
        ht.recorded (Bool.eq_false_iff.mpr hstop) n (by simp [ObicoServer.moveReader])
      simp [hc.ends n hfailure] at hreader
    · intro hstop
      exact h.moveReader (by simp [show s.stop = true from hstop])
  | goOn hplace hstop =>
    refine iff_of_true (h.frame rfl rfl rfl rfl id ?_) (by simp [Supervises, hstop])
    simp [InPump, pumpSteps, go]
  | readerStops _ hstop =>
    exact iff_of_true (h.moveReader (by simp [hstop])) trivial
  | readerGoesOn _ _ | frame _ | noFrame _ | dispatched _ =>
    exact iff_of_true (h.moveReader (by simp)) trivial
  | stop => exact iff_of_true (h.frame rfl rfl rfl rfl (by simp) fun _ => id) trivial
  | send _ | put _ _ | full _ _ | drop _ _ | dropNone _ _ =>
    exact iff_of_true (h.frame rfl rfl rfl rfl id fun _ => id) trivial
  | noFailure _ _ | get _ _ | timeout _ _ | sent _ =>
    exact iff_of_true (h.frame rfl rfl rfl rfl id (by simp [InPump, pumpSteps, go])) trivial
  | endRun hplace _ | connectFails hplace | close hplace | wake hplace | pause hplace =>
    have hout : ¬ s.InPump := by simp [InPump, pumpSteps, hplace]
    exact iff_of_true (h.frame rfl rfl rfl rfl id fun _ hs => absurd hs hout) trivial

end Steps

/-! ## The pump sees a failure -/

/-- A session that has failed and isn't being connected. -/
structure Failed (s : ObicoServer π μ) : Prop where
  failed : s.failure s.attempts ≠ []
  connected : s.place ≠ .connecting

/-- The next session has begun, or the run thread is `k` steps closer to the end of `_pump`, or out
of it. -/
def Closer (s : ObicoServer π μ) (k : ℕ) (t : ObicoServer π μ) : Prop :=
  s.attempts < t.attempts ∨
    t.attempts = s.attempts ∧ t.Failed ∧ (t.InPump → t.pumpSteps + k ≤ s.pumpSteps)

theorem Closer.trans {u : ObicoServer π μ} {j k : ℕ} (h : s.Closer j t)
    (h' : t.Failed → t.Closer k u)
    (hle : t.attempts ≤ u.attempts) : s.Closer (j + k) u := by
  rcases h with hlater | ⟨hsame, hfailed, hsteps⟩
  · exact .inl (Nat.lt_of_lt_of_le hlater hle)
  · rcases h' hfailed with hlater | ⟨hsame', hfailed', hsteps'⟩
    · exact .inl (hsame ▸ hlater)
    · refine .inr ⟨hsame'.trans hsame, hfailed', fun hpump => ?_⟩
      have hafter := hsteps' hpump
      have hpos : 0 < u.pumpSteps := hpump
      have hbefore := hsteps (show 0 < t.pumpSteps by omega)
      omega

theorem pumpSteps_le (s : ObicoServer π μ) : s.pumpSteps ≤ 4 := by
  unfold pumpSteps
  split <;> decide

section Steps

variable [DecidableEq π]

/-- While a session has failed, each step of the run thread brings it closer to the end of
`_pump`. -/
theorem Failed.step (h : s.Failed) (hm : s.step m = some t) :
    s.Closer (if m.ofRunThread then 1 else 0) t := by
  obtain ⟨hfailed, hconnected⟩ := h
  cases stepped hm with
  | run _ _ => exact .inl (Nat.lt_succ_self _)
  | connect hplace => exact absurd hplace hconnected
  | noFailure _ hfailure => exact absurd hfailure hfailed
  | @failed n e _ =>
    refine .inr ⟨rfl, ⟨?_, hconnected⟩, fun _ => Nat.le_refl _⟩
    by_cases hn : s.attempts = n
    · simp [ObicoServer.moveReader, fail, hn]
    · simpa [ObicoServer.moveReader, fail, hn] using hfailed
  | send _ | put _ _ | full _ _ | drop _ _ | dropNone _ _ | stop | readerStops _ _
  | readerGoesOn _ _
  | frame _ | noFrame _ | dispatched _ | dispatchRaises _ =>
    exact .inr ⟨rfl, ⟨hfailed, hconnected⟩, fun _ => Nat.le_refl _⟩
  | endRun hplace _ | connectFails hplace | stopPump hplace _ | goOn hplace _ | raise hplace _
  | get hplace _ | timeout hplace _ | sent hplace | sendFails hplace | close hplace | wake hplace =>
    refine .inr ⟨rfl, ⟨hfailed, ?_⟩, ?_⟩
    · simp [go, ObicoServer.raise]
    · simp [InPump, pumpSteps, ServerMove.ofRunThread, go, ObicoServer.raise, hplace]
  | pause hplace =>
    refine .inr ⟨rfl, ⟨hfailed, ?_⟩, ?_⟩ <;>
    rcases hrun : s.shouldRun with _ | _ <;> simp [InPump, pumpSteps, go]

theorem attempts_le (hm : s.step m = some t) : s.attempts ≤ t.attempts := by
  cases stepped hm with
  | run _ _ => exact Nat.le_succ _
  | _ => exact Nat.le_refl _

/-- The run thread leaves the pump of a session that has failed after at most four of its steps. -/
theorem Failed.ends {ms : List (ServerMove π μ)} (h : s.Failed)
    (hrun : Run (ofPartial ObicoServer.step) s ms t) (hms : 4 ≤ ms.countP ServerMove.ofRunThread)
    (ht : t.attempts = s.attempts) : ¬ t.InPump := by
  have hcloser : s.Closer (ms.countP ServerMove.ofRunThread) t := by
    refine hrun.history (I := fun ms t => s.Closer (ms.countP ServerMove.ofRunThread) t)
      (.inr ⟨rfl, h, fun _ => Nat.le_refl _⟩) fun ms u m v hu hm => ?_
    rw [List.countP_append, List.countP_singleton]
    exact hu.trans (fun hfailed => hfailed.step hm) (attempts_le hm)
  rcases hcloser with hlater | ⟨-, -, hsteps⟩
  · omega
  · intro hpump
    have hclose := hsteps hpump
    have hpos : 0 < t.pumpSteps := hpump
    have hbound := pumpSteps_le s
    omega

/-- **Every session of a run is supervised exactly when each step is one that `Supervises` allows,
and a session in which `recv` has failed ends after at most four steps of the run thread.** -/
theorem session_is_supervised {ms : List (ServerMove π μ)} {s : ObicoServer π μ}
    (h : Run (ofPartial step) {} ms s) :
    (Run (keeping Supervised (ofPartial step)) {} ms s ↔
      Run (restrict Supervises (ofPartial step)) {} ms s) ∧
    ∀ ms' t, s.failure s.attempts ≠ [] → Run (ofPartial step) s ms' t →
      4 ≤ ms'.countP ServerMove.ofRunThread → t.attempts = s.attempts → ¬ t.InPump := by
  constructor
  · exact run_keeping_iff supervised_initial consistent_initial (fun _ _ _ hs hm => hs.step hm)
      fun _ _ _ hc hs hm => supervised_step hc hs hm
  · intro ms' t hfailed hrun hms' ht
    have hc : s.Consistent := h.invariant consistent_initial fun _ _ _ hs hm => hs.step hm
    have hconnected : s.place ≠ .connecting := by
      intro hplace
      have hunstarted := hc.unstarted s.attempts (.inr ⟨rfl, hplace⟩)
      simp [hc.ends _ hfailed] at hunstarted
    exact Failed.ends ⟨hfailed, hconnected⟩ hrun hms' ht

end Steps

/-- The reader receives close code 4321 while a message is being sent. -/
def closing : List (ServerMove Unit ℕ) :=
  [.send () 2, .put (), .testRun, .connect, .readerTest 1, .testStop, .testFailure, .get,
    .receive 1 (.failed .sharedTokenClosed)]

/-- `ws.send` returns, and the pump sees the failure. -/
def noticed : List (ServerMove Unit ℕ) :=
  closing ++ [.sent, .testStop, .testFailure, .close, .pause, .testRun]

/-- `ws.send` raises on the closed socket, and the run thread connects again. -/
def missed : List (ServerMove Unit ℕ) := closing ++ [.sendFails, .close, .pause, .wake, .testRun]

theorem closed_session_is_supervised :
    ∃ s ∈ noticed.foldlM step ({} : ObicoServer Unit ℕ),
      s.sharedTokenDetected = true ∧ s.attempts = 1 ∧
        Run (keeping Supervised (ofPartial step)) {} noticed s := by
  have hrun : Run (ofPartial step) ({} : ObicoServer Unit ℕ) noticed _ := run_ofPartial.mpr rfl
  refine ⟨_, rfl, rfl, rfl, (session_is_supervised hrun).1.mpr ?_⟩
  iterate 5 refine .cons ⟨trivial, rfl⟩ ?_
  refine .cons ⟨fun hstop => absurd hstop (by decide), rfl⟩ ?_
  iterate 2 refine .cons ⟨trivial, rfl⟩ ?_
  refine .cons ⟨⟨rfl, by decide⟩, rfl⟩ ?_
  refine .cons ⟨trivial, rfl⟩ ?_
  refine .cons ⟨fun hstop => absurd hstop (by decide), rfl⟩ ?_
  iterate 4 refine .cons ⟨trivial, rfl⟩ ?_
  exact .nil

/-- The close code is lost with the session, and the agent connects again. -/
theorem close_code_is_missed :
    ∃ s ∈ missed.foldlM step ({} : ObicoServer Unit ℕ),
      s.TokenClosed 1 ∧ s.attempts = 2 ∧ s.sharedTokenDetected = false ∧ ¬ s.Supervised := by
  refine ⟨_, rfl, by decide, rfl, rfl, fun h => ?_⟩
  exact absurd (h.last 1 (by decide)) (by decide)

/-- A reader dies without a record, and the pump waits for messages in a session that nobody
reads. -/
example : ∃ s ∈ ([.testRun, .connect, .readerTest 1, .receive 1 .frame, .dispatch 1 true, .testStop,
    .testFailure,
    .timeout] : List (ServerMove Unit ℕ)).foldlM step ({} : ObicoServer Unit ℕ),
      s.stop = false ∧ s.readers 1 = .ended ∧ s.failure 1 = [] ∧ s.InPump := by
  exact ⟨_, rfl, rfl, rfl, rfl, by decide⟩

end ObicoServer

end FlashforgeObico
