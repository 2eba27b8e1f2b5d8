import FlashforgeObico.Agent.Threads

/-!
# The deferred pause and a later resume or cancel

A resume or a cancel drops the pending pause, but the poll thread takes the pause out of
`pending_command` before it waits for the lock to execute it. An execution of the command thread in
between finds nothing to drop. `deferred_pause_heeds_overrides` says that in the runs without such a
race a deferred pause is not sent after a resume or a cancel that has been executed since.
-/

namespace FlashforgeObico

open Py Trace

/-- Whether an effect ends an execution of a resume or a cancel. -/
def Effect.isOverride : Effect → Bool
  | .finished x => x.cmd = .resume ∨ x.cmd = .cancel
  | _ => false

/-- No resume and no cancel has been executed since the `k`-th deferral. -/
def NotOverridden (t : List Effect) (k : ℕ) : Prop :=
  NoneSince (Effect.isDeferredAs k) Effect.isOverride t

instance (t : List Effect) (k : ℕ) : Decidable (NotOverridden t k) :=
  inferInstanceAs (Decidable (NoneSince _ _ t))

/-- A call for a deferred pause is made before any resume or cancel is executed. -/
def HeedsOverrides (pre : List Effect) (e : Effect) : Prop := BeforeDeferredCall NotOverridden pre e

instance (pre : List Effect) (e : Effect) : Decidable (HeedsOverrides pre e) :=
  inferInstanceAs (Decidable (BeforeDeferredCall _ _ _))

theorem Effect.OfExecution.isOverride_eq {e : Effect} {x : Execution} (h : e.OfExecution x) :
    e.isOverride = false := by
  cases e <;> simp_all [Effect.OfExecution, Effect.isOverride]

/-! ## The agent -/

namespace Agent

/-- Only a pause is pending, none that was overridden, and no call was made for one that was. -/
structure Heeds (a : Agent) : Prop where
  pause : ∀ cmd ∈ a.pendingCommand, cmd = .pause
  pending : a.pendingCommand ≠ none → NotOverridden a.trace a.deferrals
  calls : Along HeedsOverrides a.trace

namespace Heeds

variable {a b : Agent} {es : List Effect}

/-- What neither executes nor defers keeps to the pending pause. -/
theorem append (h : Heeds a) (hpending : b.pendingCommand = a.pendingCommand)
    (htrace : b.trace = a.trace ++ es)
    (hes : ∀ e ∈ es, e.isDeferred = false ∧ e.isOverride = false ∧ e.isCall = false) : Heeds b := by
  have hdeferrals : b.deferrals = a.deferrals := by
    rw [deferrals, htrace, List.countP_append, countP_isDeferred_of_none fun e he => (hes e he).1,
      Nat.add_zero, deferrals]
  refine ⟨hpending ▸ h.pause, fun hp => ?_, ?_⟩
  · rw [htrace, hdeferrals]
    exact (h.pending (hpending ▸ hp)).append fun e he => (hes e he).2.1
  · rw [htrace, along_append]
    exact ⟨h.calls, along_of_forall fun _ _ e he => beforeDeferredCall_of_not_isCall (hes e he).2.2⟩

theorem quiet (h : Heeds a) (hq : Quiet a b es) : Heeds b := by
  refine h.append hq.pending hq.trace fun e he => ?_
  have := hq.quiet e he
  cases e <;> simp_all [Effect.IsQuiet, Effect.isDeferred, Effect.isOverride, Effect.isCall]

/-- The pending pause is taken away. -/
theorem taken (h : Heeds a) : Heeds { a with pendingCommand := none } :=
  ⟨by simp, fun hp => absurd rfl hp, h.calls⟩

/-- An execution keeps to the pending pause; if it is one of a deferred pause that it sends, that
must not have been overridden. -/
theorem execute {x : Execution} {now : Time} {r : Except Error Unit} (h : Heeds a)
    (hexec : Executed x now a r b)
    (hx : ∀ k, x.origin = .deferred k → a.Forwards x.cmd → NotOverridden a.trace k) : Heeds b := by
  obtain ⟨es, hblock⟩ := hexec.block
  refine ⟨?_, ?_, ?_⟩
  · rcases hblock.pending with ⟨hp | hp, -⟩ | ⟨hp, -⟩ <;> rw [hp]
    · exact h.pause
    · simp
    · simp
  · intro hp
    have hcmd : x.cmd = .pause := by_contra fun hc => hp (hblock.overrides hc)
    have hover : ∀ e ∈ .began x :: (es ++ [.finished x]), e.isOverride = false := by
      simp only [List.forall_mem_cons, List.forall_mem_append]
      exact ⟨rfl, fun e he => (hblock.ofExecution e he).isOverride_eq,
        by simp [Effect.isOverride, hcmd],
        by simp⟩
    rw [hblock.trace]
    rcases hblock.pending with ⟨hpending, hnone⟩ | ⟨-, hmem⟩
    · have hsame : b.pendingCommand = a.pendingCommand := hpending.resolve_right hp
      have hdeferrals : b.deferrals = a.deferrals := by
        simp [deferrals, hblock.trace, Effect.isDeferred, countP_isDeferred_of_none hnone]
      rw [hdeferrals]
      exact (h.pending (hsame ▸ hp)).append hover
    · exact noneSince_append_of_mem (e := .deferred x b.deferrals) (by simp [hmem])
        (by simp [Effect.isDeferredAs]) hover
  · have hsplit : b.trace = a.trace ++ (.began x :: es) ++ [.finished x] := by simp [hblock.trace]
    rw [hsplit, along_append, along_append]
    refine ⟨⟨h.calls, along_of_forall fun pre hpre e he => ?_⟩, along_of_forall ?_⟩
    · unfold HeedsOverrides BeforeDeferredCall
      split
      · rename_i number k cmd acknowledged
        have hmem : Effect.call ⟨number, .deferred k, cmd⟩ acknowledged ∈ es := by simpa using he
        obtain rfl : ⟨number, .deferred k, cmd⟩ = x := hblock.ofExecution _ hmem
        refine (hx k rfl (hblock.forwards _ hmem rfl)).append fun e he => ?_
        rcases List.mem_cons.mp (hpre e he) with rfl | he
        · rfl
        · exact (hblock.ofExecution e he).isOverride_eq
      · trivial
    · simp [HeedsOverrides, BeforeDeferredCall]

/-- What the poll thread has taken is executed; it must not have been overridden if it is sent. -/
theorem executeTaken (h : Heeds a) {t : Taken} (answers : Answers) (now : Time)
    (ht : ∀ cmd ∈ t.cmd, a.Forwards cmd → NotOverridden a.trace t.deferral) :
    Heeds (executeTaken t answers now a).2 := by
  rw [Agent.executeTaken]
  rcases hc : t.cmd with _ | cmd
  · dsimp only
    rw [Procedure.gets_bind]
    split_ifs <;> exact h
  · refine h.execute (executed (.deferred t.deferral) cmd answers now a) fun k hk hf => ?_
    obtain rfl : t.deferral = k := Origin.deferred.inj hk
    exact ht cmd hc hf

end Heeds

end Agent

/-! ## The system -/

namespace System

open Agent

/-- The poll thread executes a pause that it has taken only if no resume and no cancel was executed
since it did, unless the execution ignores the pause. -/
def InTime (s : System) (m : Move) : Prop :=
  match m, s.poll with
  | .pollRun _ _, .running t => ∀ cmd ∈ t.cmd, s.agent.Forwards cmd →
      ∀ e ∈ s.agent.trace.drop t.mark, e.isOverride = false
  | _, _ => True

instance (s : System) (m : Move) : Decidable (s.InTime m) := by
  unfold InTime
  split <;> infer_instance

/-- What the poll thread has taken was not overridden when it did. -/
structure TakenFrom (t : Taken) (a : Agent) : Prop where
  pause : ∀ cmd ∈ t.cmd, cmd = .pause
  mark : t.mark ≤ a.trace.length
  pending : t.cmd ≠ none → NotOverridden (a.trace.take t.mark) t.deferral

theorem TakenFrom.append {t : Taken} {a b : Agent} {es : List Effect} (h : TakenFrom t a)
    (htrace : b.trace = a.trace ++ es) : TakenFrom t b := by
  refine ⟨h.pause, ?_, fun ht => ?_⟩
  · rw [htrace, List.length_append]
    exact h.mark.trans (Nat.le_add_right _ _)
  · rw [htrace, List.take_append_of_le_length h.mark]
    exact h.pending ht

/-- The invariant of the runs without a race. -/
structure Heeded (s : System) : Prop where
  agent : Heeds s.agent
  taken : ∀ t, s.poll = .holding t ∨ s.poll = .running t → TakenFrom t s.agent

namespace Heeded

variable {s t : System} {m : Move}

/-- A step after which the poll thread holds what it held before. -/
theorem of_append {es : List Effect} (h : Heeded s) (hagent : Heeds t.agent)
    (htrace : t.agent.trace = s.agent.trace ++ es) (hpoll : t.poll = s.poll) : Heeded t :=
  ⟨hagent, fun taken ht => (h.taken taken (hpoll ▸ ht)).append htrace⟩

theorem of_trace_eq (h : Heeded s) (hagent : Heeds t.agent) (htrace : t.agent.trace = s.agent.trace)
    (hpoll : t.poll = s.poll) : Heeded t :=
  h.of_append hagent (htrace.trans (List.append_nil _).symm) hpoll

/-- A step after which the poll thread holds nothing. -/
theorem of_empty (hagent : Heeds t.agent)
    (hpoll : ∀ taken, t.poll ≠ .holding taken ∧ t.poll ≠ .running taken) : Heeded t :=
  ⟨hagent, fun taken ht => (ht.elim (hpoll taken).1 (hpoll taken).2).elim⟩

theorem pollStep (h : Heeded s) {p : PollThread} (hp : s.poll = p) (hstep : PollStepped s m p t)
    (hok : InTime s m) : Heeded t := by
  cases hstep with
  | @refresh reply now accepts r a exited p' hr hp' =>
    obtain ⟨es, hq⟩ := refresh_quiet reply now accepts s.agent
    rw [hr] at hq
    obtain ⟨hpause, hpending, hcalls⟩ := h.agent.quiet hq
    refine of_empty ⟨hpause, hpending, hcalls⟩ fun taken => ?_
    rcases hp' with rfl | rfl <;> simp
  | test =>
    refine of_empty h.agent fun taken => ?_
    dsimp only
    rcases testPending_cases s.agent with ht | ⟨reason, ht⟩ | ht <;> rw [ht] <;> simp
  | @drop reason =>
    have hes : ∀ e ∈ [Effect.dropped reason],
        e.isDeferred = false ∧ e.isOverride = false ∧ e.isCall = false := by
      simp [Effect.isDeferred, Effect.isOverride, Effect.isCall]
    exact of_empty (h.agent.taken.append rfl rfl hes) (by simp)
  | take =>
    refine ⟨h.agent.taken, ?_⟩
    rintro taken (ht | ht)
    · obtain rfl := PollThread.holding.inj ht
      refine ⟨h.agent.pause, le_rfl, fun hp => ?_⟩
      simpa [takePending] using h.agent.pending hp
    · cases ht
  | @acquire taken hl =>
    refine ⟨h.agent, ?_⟩
    rintro taken' (ht | ht)
    · cases ht
    · obtain rfl := PollThread.running.inj ht
      exact h.taken taken (.inl hp)
  | @run answers now taken r a exited lock p' hr hp' =>
    have hheld := h.taken taken (.inr hp)
    have hagent : Heeds a := by
      have hexec := h.agent.executeTaken (t := taken) answers now fun cmd hc hf => ?_
      · rwa [hr] at hexec
      · simp only [InTime, hp] at hok
        rw [← List.take_append_drop taken.mark s.agent.trace]
        exact (hheld.pending (by simp [Option.mem_def.mp hc])).append (hok cmd hc hf)
    obtain ⟨hpause, hpending, hcalls⟩ := hagent
    refine of_empty ⟨hpause, hpending, hcalls⟩ fun taken' => ?_
    rcases hp' with rfl | rfl <;> simp
  | release => exact of_empty h.agent (by simp)

theorem commandStep (h : Heeded s) {c : CommandThread} (hstep : CommandStepped s m c t) :
    Heeded t := by
  cases hstep with
  | get _ => exact h.of_trace_eq ⟨h.agent.pause, h.agent.pending, h.agent.calls⟩ rfl rfl
  | acquire _ => exact h.of_trace_eq h.agent rfl rfl
  | @run answers now cmd =>
    have hexec := executed .queued cmd answers now s.agent
    obtain ⟨es, hblock⟩ := hexec.block
    exact h.of_append (h.agent.execute hexec fun k hk => by cases hk) hblock.trace rfl
  | release => exact h.of_trace_eq h.agent rfl rfl

theorem enqueue (h : Heeds s.agent) (source : Source) (cmds : List Command) (viewing : Bool) :
    Heeds ({ s.agent with viewing }.enqueueAll source cmds) := by
  refine h.append rfl rfl fun e he => ?_
  obtain ⟨cmd, -, rfl⟩ := List.mem_map.mp he
  exact ⟨rfl, rfl, rfl⟩

theorem step (h : Heeded s) (hs : s.step m = some t) (hok : InTime s m) : Heeded t := by
  cases stepped hs with
  | poll hp => exact h.pollStep rfl hp hok
  | command hc => exact h.commandStep hc
  | @message message =>
    rw [handleServerMessage_eq]
    exact h.of_append (enqueue h.agent _ _ _) rfl rfl
  | @request cmd =>
    rw [requestCommand_eq]
    exact h.of_append (enqueue h.agent _ _ s.agent.viewing) rfl rfl

end Heeded

/-- **A deferred pause heeds a later resume or cancel** in every run of the two threads in which the
poll thread executes no pause that it took before a resume or a cancel was executed. -/
theorem deferred_pause_heeds_overrides (config : Config) (cameras : List Camera)
    (reserver : Option (List Camera)) (ms : List Move) (s : System)
    (h : Transition.Run (Transition.restrict InTime (Transition.ofPartial step))
      (atRest (initial config cameras reserver)) ms s) : Along HeedsOverrides s.agent.trace := by
  have hheeded : Heeded s := by
    refine h.invariant ?_ fun s m t hs hstep => hs.step hstep.2 hstep.1
    exact ⟨⟨by simp [atRest, initial], by simp [atRest, initial], along_nil⟩, by simp [atRest]⟩
  exact hheeded.agent.calls

/-- A pause is deferred while the printer warms up, and the poll thread takes it when it prints. -/
def takingMoves : List Move :=
  let warm : DetailReply := .ok (detailOf "printing" "a.gcode")
  [.refresh warm 2000 fun _ => true, .test, .request "pause", .get, .acquire,
    .run (.constant warm) 2001,
    .release, .refresh (.ok (detailAt "a.gcode" 1)) 2003 fun _ => true, .test, .take]

/-- The poll thread executes what it has taken. -/
def sendingMoves : List Move :=
  [.pollAcquire, .pollRun (.constant (.ok (detailOf "paused" "a.gcode"))) 2005, .pollRelease]

/-- The command thread executes a resume. -/
def resumingMoves : List Move :=
  [.request "resume", .get, .acquire, .run (.constant (.ok (detailAt "a.gcode" 1))) 2004, .release]

/-- Without a resume in between, the deferred pause is sent. -/
theorem deferred_pause_is_taken_and_sent :
    ∃ s : System, s.agent.trace.countP Effect.isCall = 4 ∧ Along HeedsOverrides s.agent.trace := by
  have hrun : ∃ s ∈ (takingMoves ++ sendingMoves).foldlM (Transition.guarded InTime step)
    (atRest bare),
      s.agent.trace.countP Effect.isCall = 4 := by decide +kernel
  obtain ⟨s, hs, hcalls⟩ := hrun
  refine ⟨s, hcalls, deferred_pause_heeds_overrides
    { publicHost := "10.0.0.2", reservePort := 8081 } []
    none (takingMoves ++ sendingMoves) s ?_⟩
  rw [Transition.restrict_ofPartial]
  exact Transition.run_ofPartial.mpr hs

/-- A resume between the taking and the sending comes too late. -/
theorem race_sends_an_overridden_pause :
    ∃ s ∈ (atRest bare).run (takingMoves ++ resumingMoves ++ sendingMoves),
      ¬ Along HeedsOverrides s.agent.trace := by
  decide +kernel

end System

end FlashforgeObico
