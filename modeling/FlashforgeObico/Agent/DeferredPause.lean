import FlashforgeObico.Agent.Telling

/-!
# The deferred pause and the session it was asked in

The pending pause has no job attached. A poll drops it when the snapshot has no job or is paused,
and otherwise keeps it or sends it; so it outlives its session when a publish observes the end of
the session without such a poll: when another job that is not paused has taken its place, or when
the publish is that of an execution. `SparesPause` excludes such publishes, and
`deferred_pause_stays_in_session` says that in the runs without them a deferred pause is sent in the
session it was deferred in or not at all.
-/

namespace FlashforgeObico

open Py Trace

namespace Effect

/-- Whether the tracker reported the end of a session. -/
def endsSession : Effect → Bool
  | observed _ _ events => events.any fun e => e.IsEnding
  | _ => false

/-- Whether an effect leaves a pause pending or takes the pending pause away. -/
def movesPending : Effect → Bool
  | deferred _ _ => true
  | dropped _ => true
  | began x => x.origin ≠ .queued
  | _ => false

/-- Whether an effect ends an execution. -/
def isFinished : Effect → Bool
  | finished _ => true
  | _ => false

/-- An effect that has nothing to do with the pending pause or the session. -/
def IsMoot (e : Effect) : Prop := e.movesPending = false ∧ e.observation? = none

variable {e : Effect}

theorem isDeferred_of_not_movesPending (h : e.movesPending = false) : e.isDeferred = false := by
  cases e <;> simp_all [movesPending, isDeferred]

theorem IsMoot.endsSession_eq (h : e.IsMoot) : e.endsSession = false := by
  cases e <;> simp_all [IsMoot, observation?, endsSession]

theorem OfAttempt.isMoot {x : Execution} (h : e.OfAttempt x) : e.IsMoot := by
  cases e <;> simp_all [OfAttempt, IsMoot, movesPending, observation?]

end Effect

/-! ## What a trace says about the pending pause -/

/-- A pause is pending: the last effect that moved it left it pending. -/
def PausePending (t : List Effect) : Prop :=
  ∃ e ∈ (t.filter Effect.movesPending).getLast?, e.isDeferred = true

instance (t : List Effect) : Decidable (PausePending t) := by
  unfold PausePending
  infer_instance

/-- An execution has begun and not ended. -/
def Executing (t : List Effect) : Prop := ∃ e ∈ since Effect.isFinished t, e.isBegan = true

instance (t : List Effect) : Decidable (Executing t) := by
  unfold Executing
  infer_instance

/-- No session has ended since the `k`-th deferral. -/
def SessionKept (t : List Effect) (k : ℕ) : Prop :=
  NoneSince (Effect.isDeferredAs k) Effect.endsSession t

instance (t : List Effect) (k : ℕ) : Decidable (SessionKept t k) :=
  inferInstanceAs (Decidable (NoneSince _ _ t))

/-- While a pause is pending, only a poll observes the end of the active session, and only on a
snapshot without a job or one that is paused. -/
def SparesPause (pre : List Effect) : Effect → Prop
  | .observed (some s) _ _ => PausePending pre → s.state ≠ .unknown → (trackerAfter pre).Leaves s →
      ¬ Executing pre ∧ (¬ s.HasJob ∨ s.state = .paused)
  | _ => True

instance (pre : List Effect) (e : Effect) : Decidable (SparesPause pre e) := by
  unfold SparesPause
  split <;> infer_instance

/-- A call for a deferred pause is made in the session that the pause was deferred in. -/
def SentInSession (pre : List Effect) (e : Effect) : Prop := BeforeDeferredCall SessionKept pre e

instance (pre : List Effect) (e : Effect) : Decidable (SentInSession pre e) :=
  inferInstanceAs (Decidable (BeforeDeferredCall _ _ _))

variable {t es : List Effect} {e : Effect} {k : ℕ}

theorem pausePending_append (h : ∀ e ∈ es, e.movesPending = false) :
    PausePending (t ++ es) ↔ PausePending t := by
  have hes : es.filter Effect.movesPending = [] :=
    List.filter_eq_nil_iff.mpr fun e he => by simp [h e he]
  rw [PausePending, List.filter_append, hes, List.append_nil, PausePending]

theorem pausePending_concat (h : e.movesPending = true) :
    PausePending (t ++ [e]) ↔ e.isDeferred = true := by
  simp [PausePending, List.filter_append, h]

theorem Executing.append (h : Executing t) (hes : ∀ e ∈ es, e.isFinished = false) :
    Executing (t ++ es) := by
  obtain ⟨e, he, hb⟩ := h
  exact ⟨e, by rw [since_append_of_none hes]; exact List.mem_append_left _ he, hb⟩

theorem SessionKept.append_moot (h : SessionKept t k) (hes : ∀ e ∈ es, e.IsMoot) :
    SessionKept (t ++ es) k :=
  h.append fun e he => (hes e he).endsSession_eq

/-- The end of a session is reported on a snapshot that leaves the job. -/
theorem JobTracker.leaves_of_ending {t : JobTracker} {snapshot : Option PrinterSnapshot}
    {now : Time}
    {e : Event} (he : e ∈ (t.observe snapshot now).2) (hending : e.IsEnding) :
    ∃ s, snapshot = some s ∧ s.state ≠ .unknown ∧ t.Leaves s := by
  obtain ⟨t', es, hobserve, hobs⟩ := JobTracker.exists_observed t snapshot now
  rw [hobserve] at he
  cases hobs with
  | ends hu ha hj => exact ⟨_, rfl, hu, ha, .inl hj⟩
  | swaps ha hj hf => exact ⟨_, rfl, hj.state_ne, by simp [ha], .inr (by simpa [ha] using hf)⟩
  | _ => simp_all [Event.IsEnding]

/-! ## The agent and its trace -/

namespace Agent

/-- The trace tells what the tracker is, whether a pause is pending and that the calls so far were
made in session. -/
structure Kept (a : Agent) : Prop where
  tracker : a.tracker = trackerAfter a.trace
  pending : a.pendingCommand ≠ none ↔ PausePending a.trace
  calls : Along SentInSession a.trace

/-- The pending pause was deferred in the session that is open. -/
def InSession (a : Agent) : Prop := a.pendingCommand ≠ none → SessionKept a.trace a.deferrals

theorem deferrals_append {a b : Agent} (htrace : b.trace = a.trace ++ es)
    (hes : ∀ e ∈ es, e.movesPending = false) : b.deferrals = a.deferrals := by
  have hzero : es.countP Effect.isDeferred = 0 := List.countP_eq_zero.mpr fun e he => by
    simp [e.isDeferred_of_not_movesPending (hes e he)]
  rw [deferrals, htrace, List.countP_append, hzero, Nat.add_zero, deferrals]

namespace Kept

variable {a b : Agent}

theorem initial (config : Config) (cameras : List Camera) (reserver : Option (List Camera)) :
    Kept (Agent.initial config cameras reserver) :=
  ⟨rfl, by simp [Agent.initial, PausePending], along_nil⟩

/-- Moot effects keep the account. -/
theorem append (h : Kept a) (htracker : b.tracker = a.tracker)
    (hpending : b.pendingCommand = a.pendingCommand) (htrace : b.trace = a.trace ++ es)
    (hes : ∀ e ∈ es, e.IsMoot) (hcalls : ∀ pre e, e ∈ es → (∀ e ∈ pre, e ∈ es) →
      SentInSession (a.trace ++ pre) e) : Kept b := by
  refine ⟨?_, ?_, ?_⟩
  · rw [htracker, htrace, trackerAfter_append fun e he => (hes e he).2, h.tracker]
  · rw [hpending, htrace, pausePending_append fun e he => (hes e he).1, h.pending]
  · rw [htrace, along_append]
    exact ⟨h.calls, along_of_forall fun pre hpre e he => hcalls pre e he hpre⟩

theorem publish {now : Time} {r : Except Error Unit} {ms : List Message} (h : Kept a)
    (hp : Published now a r b ms) : Kept b := by
  obtain ⟨es, htrace, hes⟩ := hp.trace
  have hmoves : ∀ e ∈ es, e.movesPending = false := fun e he => by
    have := hes e he
    cases e <;> simp_all [Effect.IsQuiet, Effect.movesPending]
  refine ⟨hp.tracker_eq h.tracker, ?_, ?_⟩
  · rw [htrace, pausePending_append hmoves, ← h.pending, hp.eq]
  · rw [htrace, along_append]
    refine ⟨h.calls, along_of_forall fun pre _ e he => ?_⟩
    have := hes e he
    cases e <;> simp_all [Effect.IsQuiet, SentInSession, BeforeDeferredCall]

/-- What a publish that spares the pending pause observes: no end of a session; or the end of one,
in a poll, on a snapshot that gets the pending pause dropped. -/
theorem spared {now : Time} (h : Kept a) (hp : a.pendingCommand ≠ none)
    (hs : SparesPause a.trace (.observed a.snapshot now (a.observed now).2)) :
    (Effect.observed a.snapshot now (a.observed now).2).endsSession = false ∨
      ¬ Executing a.trace ∧ ∃ s, a.snapshot = some s ∧ (¬ s.HasJob ∨ s.state = .paused) := by
  by_cases hends : (Effect.observed a.snapshot now (a.observed now).2).endsSession = false
  · exact .inl hends
  obtain ⟨e, he, hending⟩ : ∃ e ∈ (a.observed now).2, e.IsEnding := by
    simpa [Effect.endsSession] using hends
  obtain ⟨s, hsnap, hu, hleaves⟩ := JobTracker.leaves_of_ending he hending
  rw [hsnap] at hs
  obtain ⟨hx, hj⟩ := hs (h.pending.mp hp) hu (h.tracker ▸ hleaves)
  exact .inr ⟨hx, s, hsnap, hj⟩

end Kept

theorem InSession.append {a b : Agent} (h : InSession a)
    (hpending : b.pendingCommand = a.pendingCommand)
    (htrace : b.trace = a.trace ++ es) (hes : ∀ e ∈ es, e.IsMoot) : InSession b := by
  intro hp
  rw [htrace, deferrals_append htrace fun e he => (hes e he).1]
  exact (h (hpending ▸ hp)).append_moot hes

theorem InSession.publish {a b : Agent} {now : Time} {r : Except Error Unit} {ms : List Message}
    (h : InSession a) (hp : Published now a r b ms) (hends : a.pendingCommand ≠ none →
      (Effect.observed a.snapshot now (a.observed now).2).endsSession = false) : InSession b := by
  intro hb
  have hpending : a.pendingCommand ≠ none := by rwa [hp.eq] at hb
  set es : List Effect := .observed a.snapshot now (a.observed now).2 ::
    ms.map fun m => .sent m (a.observed now).1 with hes
  have htrace : b.trace = a.trace ++ es := by rw [hp.eq]
  have hmoves : ∀ e ∈ es, e.movesPending = false := by simp [hes, Effect.movesPending]
  rw [htrace, deferrals_append htrace hmoves]
  apply (h hpending).append
  rw [hes]
  exact List.forall_mem_cons.mpr ⟨hends hpending, by simp [Effect.endsSession]⟩

/-! ## Executions -/

/-- The account is kept between the beginning and the end of an execution. -/
structure Underway (a : Agent) : Prop where
  kept : Kept a
  inSession : InSession a
  executing : Executing a.trace

/-- If the execution is one of a deferred pause, that was deferred in the session that is open. -/
def Aimed (x : Execution) (t : List Effect) : Prop := ∀ k, x.origin = .deferred k → SessionKept t k

theorem executing_begun (x : Execution) (a : Agent) : Executing (begun x a).trace := by
  obtain ⟨ds, hb, hds⟩ := begun_spec x a
  have hbegan : Executing (a.trace ++ [.began x]) :=
    ⟨.began x, by rw [since_concat_of_neg rfl]; simp, rfl⟩
  have htrace : (begun x a).trace = (a.trace ++ [.began x]) ++ ds := by
    rw [hb]
    simp
  rw [htrace]
  refine hbegan.append fun e he => ?_
  obtain ⟨reason, rfl⟩ := hds e he
  rfl

/-- An execution begins that comes from the queue. -/
theorem underway_queued {x : Execution} {a : Agent} (h : Kept a) (hs : InSession a)
    (hx : x.origin = .queued) : Underway (begun x a) ∧ Aimed x (begun x a).trace := by
  refine ⟨?_, fun k hk => absurd (hx ▸ hk) (by simp)⟩
  have hexecuting := executing_begun x a
  have hmoot : ∀ e ∈ [Effect.began x], e.IsMoot := by simp [Effect.IsMoot, Effect.movesPending,
    Effect.observation?, hx]
  unfold begun at hexecuting ⊢
  split_ifs at hexecuting ⊢ with hdrop
  · refine ⟨⟨?_, ?_, ?_⟩, fun hp => absurd rfl hp, hexecuting⟩
    · rw [log_trace, trackerAfter_append (by simp [Effect.observation?])]
      exact h.tracker
    · rw [log_trace, List.append_cons, pausePending_concat rfl]
      simp [log, Effect.isDeferred]
    · rw [log_trace, along_append]
      exact ⟨h.calls, along_of_forall (by simp [SentInSession, BeforeDeferredCall])⟩
  · exact ⟨h.append rfl rfl rfl hmoot (by simp [SentInSession, BeforeDeferredCall]),
      hs.append rfl rfl hmoot, hexecuting⟩

/-- An execution begins of the pause that was pending. -/
theorem underway_deferred {a : Agent} (cmd : Command) (h : Kept a) (hs : InSession a)
    (hp : a.pendingCommand ≠ none) :
    let x := a.nextExecution (.deferred a.deferrals) cmd
    Underway (begun x { a with pendingCommand := none }) ∧
      Aimed x (begun x { a with pendingCommand := none }).trace := by
  intro x
  have hexecuting := executing_begun x { a with pendingCommand := none }
  have hb : begun x { a with pendingCommand := none } =
      { a with pendingCommand := none }.log [.began x] := if_neg fun hc => hc.2 rfl
  rw [hb] at hexecuting ⊢
  refine ⟨⟨⟨?_, ?_, ?_⟩, fun hp => absurd rfl hp, hexecuting⟩, fun k hk => ?_⟩
  · rw [log_trace, trackerAfter_append (by simp [Effect.observation?])]
    exact h.tracker
  · rw [log_trace, pausePending_concat rfl]
    simp [log, Effect.isDeferred]
  · rw [log_trace, along_append]
    exact ⟨h.calls, along_of_forall (by simp [SentInSession, BeforeDeferredCall])⟩
  · obtain rfl : a.deferrals = k := Origin.deferred.inj hk
    exact (hs hp).append (by simp [Effect.endsSession])

namespace Underway

variable {x : Execution} {a b : Agent}

theorem attempt {n : ℕ} (h : Underway a) (hx : Aimed x a.trace) (ha : Attempted x n a b es) :
    Underway b := by
  have hes : ∀ e ∈ es, e.IsMoot := fun e he => (ha.ofAttempt e he).isMoot
  have htrace : b.trace = a.trace ++ es := by rw [ha.eq]
  have hpending : b.pendingCommand = a.pendingCommand := by rw [ha.eq]
  refine ⟨h.kept.append (by rw [ha.eq]) hpending htrace hes ?_,
    h.inSession.append hpending htrace hes,
    ?_⟩
  · intro pre e he hpre
    have hof := ha.ofAttempt e he
    unfold SentInSession BeforeDeferredCall
    split
    · obtain rfl : _ = x := hof
      exact (hx _ rfl).append_moot fun e he => hes e (hpre e he)
    · trivial
  · rw [htrace]
    refine h.executing.append fun e he => ?_
    have := ha.ofAttempt e he
    cases e <;> simp_all [Effect.OfAttempt, Effect.isFinished]

theorem settle (h : Underway a) (hs : Settled x a b) : Underway b := by
  cases hs with
  | @told es hes =>
    have hevents : ∀ e ∈ es, e.IsMoot ∧ e.isFinished = false ∧ e.isCall = false := by
      intro e he
      obtain ⟨event, accepted, rfl⟩ := hes e he
      exact ⟨⟨rfl, rfl⟩, rfl, rfl⟩
    have hmoot : ∀ e ∈ es, e.IsMoot := fun e he => (hevents e he).1
    exact ⟨h.kept.append rfl rfl rfl hmoot fun pre e he _ =>
        beforeDeferredCall_of_not_isCall (hevents e he).2.2,
      h.inSession.append rfl rfl hmoot, h.executing.append fun e he => (hevents e he).2.1⟩
  | @deferred event accepted _ =>
    set es : List Effect := [.deferred x (a.deferrals + 1), .printerEvent event accepted]
    have hends : ∀ e ∈ es, e.endsSession = false := by simp [es, Effect.endsSession]
    refine ⟨⟨?_, ?_, ?_⟩, fun _ => ?_, h.executing.append (by simp [es, Effect.isFinished])⟩
    · rw [log_trace, trackerAfter_append (by simp [es, Effect.observation?])]
      exact h.kept.tracker
    · simp [log, es, PausePending, List.filter_append, Effect.movesPending, Effect.isDeferred]
    · rw [log_trace, along_append]
      exact ⟨h.kept.calls, along_of_forall (by simp [es, SentInSession, BeforeDeferredCall])⟩
    · have hk : ({ a with pendingCommand := some .pause }.log es).deferrals = a.deferrals + 1 := by
        simp [deferrals, es, Effect.isDeferred, List.countP_cons]
      rw [hk]
      exact noneSince_append_of_mem (e := .deferred x (a.deferrals + 1)) (by simp [es])
        (by simp [Effect.isDeferredAs]) hends

theorem publish {now : Time} {r : Except Error Unit} {ms : List Message} (h : Underway a)
    (hp : Published now a r b ms)
    (hs : SparesPause a.trace (.observed a.snapshot now (a.observed now).2)) :
      Kept b ∧ InSession b :=
  ⟨h.kept.publish hp, h.inSession.publish hp fun hpending =>
    (h.kept.spared hpending hs).resolve_right fun hx => hx.1 h.executing⟩

theorem finish (h : Kept a ∧ InSession a) (x : Execution) :
    Kept (a.log [.finished x]) ∧ InSession (a.log [.finished x]) := by
  have hmoot : ∀ e ∈ [Effect.finished x], e.IsMoot := by
    simp [Effect.IsMoot, Effect.movesPending, Effect.observation?]
  exact ⟨h.1.append rfl rfl rfl hmoot (by simp [SentInSession, BeforeDeferredCall]),
    h.2.append rfl rfl hmoot⟩

end Underway

/-- A publish observes the snapshot of the state before it. -/
theorem Published.along {P : List Effect → Effect → Prop} {now : Time} {a b : Agent}
    {r : Except Error Unit} {ms : List Message} (hp : Published now a r b ms)
    (h : Along P b.trace) :
    P a.trace (.observed a.snapshot now (a.observed now).2) := by
  refine h _ _ (ms.map fun m => .sent m (a.observed now).1) ?_
  rw [hp.eq]

/-- An execution whose publish spares the pending pause keeps the account. -/
theorem Executed.kept {x : Execution} {now : Time} {a b : Agent} {r : Except Error Unit}
    (h : Executed x now a r b) (hu : Underway (begun x a)) (hx : Aimed x (begun x a).trace)
    (hs : Along SparesPause b.trace) : Kept b ∧ InSession b := by
  cases h with
  | @ignored reason _ =>
    have hmoot : ∀ e ∈ [Effect.ignored x reason, .finished x], e.IsMoot := by
      simp [Effect.IsMoot, Effect.movesPending, Effect.observation?]
    exact ⟨hu.kept.append rfl rfl rfl hmoot (by simp [SentInSession, BeforeDeferredCall]),
      hu.inSession.append rfl rfl hmoot⟩
  | raised _ hes =>
    have hb := hu.attempt hx hes
    exact Underway.finish ⟨hb.kept, hb.inSession⟩ x
  | @attempted b es c r d ms _ hes hsettled hp =>
    have hc := (hu.attempt hx hes).settle hsettled
    exact Underway.finish (hc.publish hp (hp.along (along_append.mp hs).1)) x

/-! ## Polls -/

theorem Serviced.kept {now : Time} {a b : Agent} {r : Except Error Unit} (h : Serviced now a r b)
    (hk : Kept a) (hs : Along SparesPause b.trace)
    (hin : InSession a ∨ ∃ s, a.snapshot = some s ∧ (¬ s.HasJob ∨ s.state = .paused)) :
    Kept b ∧ InSession b := by
  cases h with
  | waits hw =>
    refine ⟨hk, fun hp => ?_⟩
    rcases hin with hin | ⟨s, hsnap, hj⟩
    · exact hin hp
    · obtain ⟨cmd, hcmd⟩ := Option.ne_none_iff_exists'.mp hp
      have hwarm := hw cmd s hcmd hsnap
      exact (hj.elim (absurd hwarm.hasJob) (fun hpaused => absurd hpaused hwarm.2.1))
  | @drops s reason _ _ _ =>
    refine ⟨⟨?_, ?_, ?_⟩, fun hp => absurd rfl hp⟩
    · rw [log_trace, trackerAfter_append (by simp [Effect.observation?])]
      exact hk.tracker
    · rw [log_trace, pausePending_concat rfl]
      simp [log, Effect.isDeferred]
    · rw [log_trace, along_append]
      exact ⟨hk.calls, along_of_forall (by simp [SentInSession, BeforeDeferredCall])⟩
  | @issues cmd s _ _ hp hsnap hj hpaused _ hexec =>
    have hin' : InSession a := by
      apply hin.resolve_right
      rintro ⟨s', hs', hj'⟩
      rw [hsnap] at hs'
      cases hs'
      exact hj'.elim (fun h => h hj) hpaused
    obtain ⟨hu, hx⟩ := underway_deferred cmd hk hin' (by simp [hp])
    exact hexec.kept hu hx hs

/-- What a poll does before and after its publish keeps the account. -/
theorem Quiet.kept {a b : Agent} (h : Quiet a b es) (hs : Silent a b) (hk : Kept a) :
    Kept b ∧ (InSession a → InSession b) := by
  obtain ⟨es', htrace, hes⟩ := hs.trace
  obtain rfl : es = es' := List.append_cancel_left (h.trace.symm.trans htrace)
  have hmoot : ∀ e ∈ es, e.IsMoot ∧ e.isCall = false := by
    intro e he
    have := h.quiet e he
    have := hes e he
    cases e <;> simp_all [Effect.IsQuiet, Effect.Tells, Effect.IsMoot, Effect.movesPending,
      Effect.observation?, Effect.isCall]
  refine ⟨hk.append hs.tracker h.pending h.trace (fun e he => (hmoot e he).1) ?_,
    fun hin => hin.append h.pending h.trace fun e he => (hmoot e he).1⟩
  exact fun pre e he _ => beforeDeferredCall_of_not_isCall (hmoot e he).2

/-- A poll that spares the pending pause keeps the account, and leaves no pause pending that was
deferred in another session, unless it ends the process. -/
theorem Polled.kept {reply : DetailReply} {now later : Time} {a b : Agent} {r : Except Error Unit}
    (h : Polled reply now later a r b) (hk : Kept a) (hin : InSession a)
    (hs : Along SparesPause b.trace) : Kept b ∧ (r.toBool = true → InSession b) := by
  cases h with
  | unread hread =>
    obtain ⟨es, hq⟩ := hread.quiet
    obtain ⟨hk', hin'⟩ := hq.kept hread.silent hk
    exact ⟨hk', fun _ => hin' hin⟩
  | unparsed hread =>
    obtain ⟨es, hq⟩ := hread.quiet
    obtain ⟨hk', hin'⟩ := hq.kept hread.silent hk
    exact ⟨hk', fun _ => hin' hin⟩
  | unpublished hread hp =>
    obtain ⟨es, hq⟩ := hread.quiet
    obtain ⟨hk', -⟩ := (hq.trans (discovered_quiet _)).kept
      (hread.silent.trans (discovered_silent _)) hk
    exact ⟨hk'.publish hp, by simp [Except.toBool]⟩
  | @published b' c ms codes fs r d hread hp hfs hserviced =>
    obtain ⟨es, hq⟩ := hread.quiet
    obtain ⟨hk', hin'⟩ := (hq.trans (discovered_quiet _)).kept
      (hread.silent.trans (discovered_silent _)) hk
    have hf : Silent c ({ c with faultsReported := codes }.log fs) :=
      silent_log_events ⟨rfl, rfl, rfl, rfl, [], by simp, by simp⟩ hfs
    obtain ⟨hkf, hinf⟩ := (reports_quiet c codes hfs).kept hf (hk'.publish hp)
    obtain ⟨es', htrace⟩ := trace_prefix hserviced.told
    have hspares : SparesPause b'.discovered.trace
        (.observed b'.discovered.snapshot now (b'.discovered.observed now).2) := by
      rw [← htrace, log_trace, List.append_assoc] at hs
      exact hp.along (along_append.mp hs).1
    have hspared : InSession ({ c with faultsReported := codes }.log fs) ∨
        ∃ s, c.snapshot = some s ∧ (¬ s.HasJob ∨ s.state = .paused) := by
      by_cases hpending : b'.discovered.pendingCommand = none
      · exact .inl (hinf fun hc => absurd hpending (by rwa [hp.eq] at hc))
      · rcases hk'.spared hpending hspares with hends | ⟨-, s, hsnap, hj⟩
        · exact .inl (hinf ((hin' hin).publish hp fun _ => hends))
        · exact .inr ⟨s, by rw [hp.eq]; exact hsnap, hj⟩
    obtain ⟨hkb, hinb⟩ := hserviced.kept hkf hs hspared
    exact ⟨hkb, fun _ => hinb⟩

/-! ## Runs -/

/-- One step whose publishes spare the pending pause keeps the account. -/
theorem kept_step {a : Agent} {l : Label} (hk : Kept a) (hin : a.exited = false → InSession a)
    (hs : Along SparesPause (a.step l).trace) :
    Kept (a.step l) ∧ ((a.step l).exited = false → InSession (a.step l)) := by
  by_cases hx : a.exited = true
  · have hsame : a.step l = a := if_pos hx
    rw [hsame]
    exact ⟨hk, hin⟩
  have hin := hin (Bool.not_eq_true _ ▸ hx)
  have hstep := stepped a l
  generalize a.step l = b at hstep hs ⊢
  cases hstep with
  | exited h => exact absurd h hx
  | poll hp =>
    obtain ⟨hkb, hinb⟩ := hp.kept hk hin hs
    exact ⟨⟨hkb.tracker, hkb.pending, hkb.calls⟩, fun h => hinb (by simpa using h)⟩
  | @queues _ source cmds viewing _ =>
    have hmoot : ∀ e ∈ cmds.map (Effect.queued source), e.IsMoot := by
      simp [Effect.IsMoot, Effect.movesPending, Effect.observation?]
    exact ⟨hk.append rfl rfl rfl hmoot (by simp [SentInSession, BeforeDeferredCall]),
      fun _ => hin.append rfl rfl hmoot⟩
  | @executes _ _ cmd rest r _ _ hexec =>
    obtain ⟨hu, haimed⟩ := underway_queued (x := a.nextExecution .queued cmd)
      (a := { a with commands := rest }) ⟨hk.tracker, hk.pending, hk.calls⟩ hin rfl
    obtain ⟨hkb, hinb⟩ := hexec.kept hu haimed hs
    exact ⟨hkb, fun _ => hinb⟩
  | idle _ => exact ⟨hk, fun _ => hin⟩

/-- **A deferred pause stays in its session.** In every run in which, while a pause is pending, the
end of the active session is observed by polls only, and on snapshots without a job or that are
paused: every call for a deferred pause is made before the session it was deferred in has ended, and
while a pause is pending in a state that is reached, the session it was deferred in has not
ended. -/
theorem deferred_pause_stays_in_session (config : Config) (cameras : List Camera)
    (reserver : Option (List Camera)) (ls : List Label) :
    let a := (initial config cameras reserver).run ls
    Along SparesPause a.trace → Along SentInSession a.trace ∧
      (a.exited = false → a.pendingCommand ≠ none → SessionKept a.trace a.deferrals) := by
  intro a hs
  have h : Kept a ∧ (a.exited = false → InSession a) := by
    refine run_invariant (I := fun a => Along SparesPause a.trace →
      Kept a ∧ (a.exited = false → InSession a)) ?_ ?_ ls hs
    · exact fun _ => ⟨.initial config cameras reserver, fun _ hp => absurd rfl hp⟩
    · intro a l ih hs
      obtain ⟨es, htrace⟩ := trace_prefix (told_step a l)
      have hpre : Along SparesPause a.trace := (along_append.mp (htrace ▸ hs)).1
      obtain ⟨hk, hin⟩ := ih hpre
      exact kept_step hk hin hs
  exact ⟨h.1.calls, h.2⟩

/-- A pause is asked for while the printer warms up, and deferred; a poll shows it printing
later. -/
def deferringRun (later : Dict) : List Label :=
  [.quietPoll (.ok (detailOf "printing" "a.gcode")) 1000, .request "pause",
    .execute (.constant (.ok (detailOf "printing" "a.gcode"))) 1001,
    .poll (.ok later) 1003 (.constant (.ok later)) 1004]

/-- The deferred pause is sent when the job that it was asked for starts printing. -/
theorem deferred_pause_is_sent :
    let a := bare.run (deferringRun (detailAt "a.gcode" 1))
    a.trace.countP Effect.isCall = 6 ∧ Along SentInSession a.trace ∧
      (a.exited = false → a.pendingCommand ≠ none → SessionKept a.trace a.deferrals) :=
  ⟨by decide +kernel,
    deferred_pause_stays_in_session { publicHost := "10.0.0.2", reservePort := 8081 } [] none
      (deferringRun (detailAt "a.gcode" 1)) (by decide +kernel)⟩

/-- The deferred pause is sent to the job that has replaced the one that it was asked for. -/
theorem deferred_pause_outlives_its_session :
    ¬ Along SentInSession (bare.run (deferringRun (detailAt "b.gcode" 1))).trace := by
  decide +kernel

end Agent

end FlashforgeObico
