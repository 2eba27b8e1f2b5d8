import FlashforgeObico.Agent.Run

/-!
# Starting prints from the console

`start_print` guards its request by the snapshot that was read last. Any number of clients of the
phone console call it, each in a thread of its own, while the agent polls and executes commands. The
guard does not know of a start that was accepted after that snapshot was read. `SeesNewest` excludes
the requests that depend on it, and `starts_follow_a_ready_read` says that in the runs without them
no start replaces a job that was started from the console.
-/

namespace FlashforgeObico

open Py Trace

namespace Effect

/-- The file that the printer is asked to start. -/
def start? : Effect → Option String
  | printGcode fileName _ _ => some fileName
  | _ => none

/-- Whether the printer accepted a start. -/
def isAccepted : Effect → Bool
  | printGcode _ _ accepted => accepted
  | _ => false

/-- Whether a snapshot was read. -/
def isRead (e : Effect) : Bool := e.read?.isSome

/-- Whether a snapshot was read in a state that is ready to start. -/
def readsReady (e : Effect) : Bool := e.read?.any fun s => s.state ∈ Agent.readyToStart

theorem not_isAccepted_of_start? {e : Effect} (h : e.start? = none) : e.isAccepted = false := by
  cases e with
  | printGcode => cases h
  | _ => rfl

end Effect

/-- A start is accepted only after a snapshot that is ready was read since the last one. -/
def FollowsReadyRead (pre : List Effect) (e : Effect) : Prop :=
  e.isAccepted = true → (∃ e ∈ pre, e.isAccepted = true) →
    ∃ e ∈ since Effect.isAccepted pre, e.readsReady = true

instance (pre : List Effect) (e : Effect) : Decidable (FollowsReadyRead pre e) := by
  unfold FollowsReadyRead
  infer_instance

theorem followsReadyRead_of_not_isAccepted {pre : List Effect} {e : Effect}
    (h : e.isAccepted = false) :
    FollowsReadyRead pre e := fun hc => absurd hc (by simp [h])

variable {t u : List Effect} {s : PrinterSnapshot}

/-- Nothing was read after the last snapshot that was read. -/
theorem eq_append_of_lastRead (h : lastRead t = some s) :
    ∃ u, t = u ++ .detail (some s) :: since Effect.isRead t := by
  induction t using List.reverseRecOn with
  | nil => cases h
  | append_singleton t e ih =>
    rw [lastRead, lastOf_concat] at h
    rcases he : e.read? with _ | s' <;> rw [he] at h
    · have hlast : lastRead t = some s := h
      obtain ⟨u, ht⟩ := ih hlast
      refine ⟨u, ?_⟩
      rw [since_concat_of_neg (by simp [Effect.isRead, he]), ← List.cons_append,
        ← List.append_assoc, ← ht]
    · obtain rfl : s' = s := Option.some.inj h
      have hdetail : e = .detail (some s') := by cases e <;> simp_all [Effect.read?]
      refine ⟨t, ?_⟩
      rw [since_concat_of_pos (by simp [Effect.isRead, he]), hdetail]

/-- A ready snapshot was read since the last start that was accepted, if none was since it was
read. -/
theorem ready_of_lastRead (h : lastRead t = some s) (hs : s.state ∈ Agent.readyToStart)
    (hnone : ∀ e ∈ since Effect.isRead t ++ u, e.isAccepted = false) :
    ∃ e ∈ since Effect.isAccepted (t ++ u), e.readsReady = true := by
  obtain ⟨v, ht⟩ := eq_append_of_lastRead h
  have hsplit : t ++ u = v ++ (.detail (some s) :: (since Effect.isRead t ++ u)) := by
    rw [← List.cons_append, ← List.append_assoc, ← ht]
  refine ⟨.detail (some s), ?_, by simpa [Effect.readsReady, Effect.read?] using hs⟩
  rw [hsplit, since_append_of_none (List.forall_mem_cons.mpr ⟨rfl, hnone⟩)]
  simp

/-! ## The agent remembers the last snapshot -/

namespace Agent

/-- The snapshot is the last one read, unless the printer is offline. -/
def Remembers (a : Agent) : Prop := ∀ s, a.snapshot = some s → lastRead a.trace = some s

namespace Remembers

variable {a b : Agent} {es : List Effect}

theorem append (h : Remembers a) (htrace : b.trace = a.trace ++ es)
    (hsnap : b.snapshot = (lastRead es).or a.snapshot) : Remembers b := by
  intro s hs
  rw [htrace, lastRead, lastOf_append]
  rw [hsnap] at hs
  rw [lastRead] at hs
  rcases hread : lastOf Effect.read? es with _ | s' <;> rw [hread] at hs
  · exact h s hs
  · exact hs

theorem append_of_none (h : Remembers a) (htrace : b.trace = a.trace ++ es)
    (hsnap : b.snapshot = a.snapshot) (hes : ∀ e ∈ es, e.read? = none) : Remembers b := by
  apply h.append htrace
  rw [hsnap, lastRead, lastOf, List.filterMap_eq_nil_iff.mpr hes]
  rfl

theorem events (h : Remembers a) (codes : List String) (hes : ∀ e ∈ es, ∃ event accepted,
    e = .printerEvent event accepted) : Remembers ({ a with faultsReported := codes }.log es) := by
  refine h.append_of_none rfl rfl fun e he => ?_
  obtain ⟨event, accepted, rfl⟩ := hes e he
  rfl

theorem publish {now : Time} {r : Except Error Unit} {ms : List Message} (h : Remembers a)
    (hp : Published now a r b ms) : Remembers b := by
  have htrace : b.trace = a.trace ++ .observed a.snapshot now (a.observed now).2 ::
      ms.map fun m => .sent m (a.observed now).1 := by rw [hp.eq]
  apply h.append_of_none htrace (by rw [hp.eq])
  simp [Effect.read?]

theorem execute {x : Execution} {now : Time} {r : Except Error Unit} (h : Remembers a)
    (hexec : Executed x now a r b) : Remembers b := by
  have hbegun : Remembers (begun x a) := by
    obtain ⟨ds, hb, hds⟩ := begun_spec x a
    have htrace : (begun x a).trace = a.trace ++ .began x :: ds := by rw [hb]
    apply h.append_of_none htrace (by rw [hb])
    refine List.forall_mem_cons.mpr ⟨rfl, fun e he => ?_⟩
    obtain ⟨reason, rfl⟩ := hds e he
    rfl
  have hfinish : ∀ {c : Agent}, Remembers c → Remembers (c.log [.finished x]) := fun hc =>
    hc.append_of_none rfl rfl (by simp [Effect.read?])
  cases hexec with
  | ignored _ => exact hbegun.append_of_none rfl rfl (by simp [Effect.read?])
  | raised _ hes => exact hfinish (hbegun.append (by rw [hes.eq]) (by rw [hes.eq]))
  | @attempted b es c r d ms _ hes hsettled hp =>
    have htrace : b.trace = (begun x a).trace ++ es := by rw [hes.eq]
    have hb : Remembers b := hbegun.append htrace (by rw [hes.eq])
    have hc : Remembers c := by
      cases hsettled with
      | told hfs => exact hb.events b.faultsReported hfs
      | deferred _ => exact hb.append_of_none rfl rfl (by simp [Effect.read?])
    exact hfinish (hc.publish hp)

theorem read {reply : DetailReply} {r : Except Error Bool} (h : Remembers a)
    (hread : Read reply a r b) : Remembers b := by
  cases hread with
  | parsed _ _ => exact h.append rfl (by simp [lastRead, lastOf, Effect.read?, log])
  | unparsed _ _ => exact h
  | waits _ _ => exact h.append_of_none rfl rfl (by simp [Effect.read?])
  | offline _ _ => exact fun s hs => by cases hs

theorem discover (h : Remembers a) : Remembers a.discovered := by
  unfold discovered
  split
  · exact h
  · split_ifs <;> exact h

theorem service {now : Time} {r : Except Error Unit} (h : Remembers a) (hs : Serviced now a r b) :
    Remembers b := by
  cases hs with
  | waits _ => exact h
  | drops _ _ _ => exact h.append_of_none rfl rfl (by simp [Effect.read?])
  | issues _ _ _ _ _ hexec => exact execute (a := { a with pendingCommand := none }) h hexec

theorem poll {reply : DetailReply} {now later : Time} {r : Except Error Unit} (h : Remembers a)
    (hpolled : Polled reply now later a r b) : Remembers b := by
  cases hpolled with
  | unread hread => exact h.read hread
  | unparsed hread => exact h.read hread
  | unpublished hread hp => exact (h.read hread).discover.publish hp
  | @published _ _ _ codes _ _ _ hread hp hfs hserviced =>
    exact (((h.read hread).discover.publish hp).events codes hfs).service hserviced

theorem step (h : Remembers a) (l : Label) : Remembers (a.step l) := by
  have hstep := stepped a l
  generalize a.step l = b at hstep ⊢
  cases hstep with
  | exited _ => exact h
  | poll hp => exact fun s hs => h.poll hp s hs
  | queues _ => exact h.append_of_none rfl rfl (by simp [Effect.read?])
  | @executes _ _ _ rest _ _ _ hexec => exact execute (a := { a with commands := rest }) h hexec
  | idle _ => exact h

end Remembers

/-- No step of the agent starts a print. -/
theorem step_starts_nothing (a : Agent) (l : Label) :
    ∃ es, (a.step l).trace = a.trace ++ es ∧ ∀ e ∈ es, e.start? = none := by
  have hquiet : ∀ {es : List Effect}, (∀ e ∈ es, e.IsQuiet) → ∀ e ∈ es, e.start? = none :=
    fun hes e he => by
      have := hes e he
      cases e <;> simp_all [Effect.IsQuiet, Effect.start?]
  have hblock : ∀ {x : Execution} {b c : Agent} {es : List Effect}, Block x b c es →
      ∀ e ∈ .began x :: (es ++ [.finished x]), e.start? = none := by
    intro x b c es hb
    simp only [List.forall_mem_cons, List.forall_mem_append]
    refine ⟨rfl, fun e he => ?_, rfl, by simp⟩
    have := hb.ofExecution e he
    cases e <;> simp_all [Effect.OfExecution, Effect.start?]
  have hstep := stepped a l
  generalize a.step l = b at hstep ⊢
  cases hstep with
  | exited _ => exact ⟨[], by simp, by simp⟩
  | @poll _ _ _ _ _ b hp =>
    cases hp.view with
    | quiet hq => exact ⟨_, hq.trace, hquiet hq.quiet⟩
    | @drops c es reason hq =>
      exact ⟨es ++ [.dropped reason], by simp [hq.trace],
        List.forall_mem_append.mpr ⟨hquiet hq.quiet, by simp [Effect.start?]⟩⟩
    | issues hq _ hexec =>
      obtain ⟨es', hb⟩ := hexec.block
      refine ⟨_, ?_, List.forall_mem_append.mpr ⟨hquiet hq.quiet, hblock hb⟩⟩
      dsimp only
      rw [hb.trace, hq.trace, List.append_assoc]
  | queues _ => exact ⟨_, rfl, by simp [Effect.start?]⟩
  | executes _ hexec =>
    obtain ⟨es, hb⟩ := hexec.block
    exact ⟨_, hb.trace, hblock hb⟩
  | idle _ => exact ⟨[], by simp, by simp⟩

theorem step_not_isAccepted (a : Agent) (l : Label) :
    ∃ es, (a.step l).trace = a.trace ++ es ∧ ∀ e ∈ es, e.isAccepted = false := by
  obtain ⟨es, htrace, hes⟩ := step_starts_nothing a l
  exact ⟨es, htrace, fun e he => Effect.not_isAccepted_of_start? (hes e he)⟩

end Agent

/-! ## The clients of the console -/

/-- The place of a client. -/
inductive Client
  | idle
  /-- The guard has let a start pass, when the trace had this length. -/
  | cleared (fileName : String) (mappings : List MaterialMapping) (mark : ℕ)
  deriving DecidableEq

/-- The agent with the clients of its console. -/
structure Console (γ : Type) where
  agent : Agent
  clients : γ → Client

/-- A step of the agent or of a client. -/
inductive ConsoleMove (γ : Type)
  /-- A poll, the execution of a command, a message or a request. -/
  | agent (l : Label)
  /-- A client calls `start_print`, and its guard runs. -/
  | guard (c : γ) (fileName : String) (reply : Except FlashforgeError Dict)
  /-- A client that was let pass sends its request. -/
  | request (c : γ) (answer : Except FlashforgeError Unit)

namespace Console

open Agent

variable {γ : Type}

/-- Before any start. -/
def atRest (a : Agent) : Console γ := { agent := a, clients := fun _ => .idle }

/-- One step; `none` when the client is elsewhere or the process has ended. -/
def step [DecidableEq γ] (s : Console γ) (m : ConsoleMove γ) : Option (Console γ) :=
  if s.agent.exited then none
  else match m with
  | .agent l => some { s with agent := s.agent.step l }
  | .guard c fileName reply =>
    match s.clients c, guardStart fileName reply s.agent with
    | .idle, (.ok (.ok mappings), a) => some
      { agent := a
        clients := Function.update s.clients c (.cleared fileName mappings a.trace.length) }
    | .idle, (_, a) => some { s with agent := a }
    | _, _ => none
  | .request c answer =>
    match s.clients c with
    | .cleared fileName mappings _ => some
      { agent := (requestStart fileName mappings answer s.agent).2
        clients := Function.update s.clients c .idle }
    | .idle => none

/-- A start that the printer accepts was guarded by a snapshot that was read after the last start
that the printer accepted. -/
def SeesNewest (s : Console γ) (m : ConsoleMove γ) : Prop :=
  match m with
  | .request c (.ok _) =>
    match s.clients c with
    | .cleared _ _ mark =>
      ∀ e ∈ since Effect.isRead (s.agent.trace.take mark) ++ s.agent.trace.drop mark,
        e.isAccepted = false
    | .idle => True
  | _ => True

instance (s : Console γ) (m : ConsoleMove γ) : Decidable (s.SeesNewest m) := by
  unfold SeesNewest
  split
  · split <;> infer_instance
  · infer_instance

/-- A call of `start_print` is a guard and, if that lets the start pass, a request. -/
theorem startPrint_run [DecidableEq γ] {s : Console γ} {c : γ} (hx : s.agent.exited = false)
    (hc : s.clients c = .idle) (fileName : String) (reply : Except FlashforgeError Dict)
    (answer : Except FlashforgeError Unit) : ∃ ms : List (ConsoleMove γ), ms.foldlM step s =
      some { s with agent := (startPrint fileName reply answer s.agent).2 } := by
  obtain ⟨hsame, -⟩ := guardStart_spec fileName reply s.agent
  rw [startPrint]
  rcases hg : guardStart fileName reply s.agent with ⟨e | refusal | mappings, a⟩ <;>
    rw [hg] at hsame <;>
    obtain rfl : a = s.agent := hsame
  · rw [Procedure.bind_of_error hg]
    exact ⟨[.guard c fileName reply], by simp [step, hx, hc, hg]⟩
  · rw [Procedure.bind_of_ok hg]
    exact ⟨[.guard c fileName reply], by simp [step, hx, hc, hg, Procedure.pure_apply]⟩
  · rw [Procedure.bind_of_ok hg]
    exact ⟨[.guard c fileName reply, .request c answer], by simp [step, hx, hc, hg]⟩

/-- What the guard let pass, it let pass on a snapshot that was ready and the last one read. -/
def ClearedFrom (mark : ℕ) (a : Agent) : Prop :=
  mark ≤ a.trace.length ∧ ∃ s, lastRead (a.trace.take mark) = some s ∧ s.state ∈ readyToStart

theorem ClearedFrom.append {mark : ℕ} {a b : Agent} {es : List Effect} (h : ClearedFrom mark a)
    (htrace : b.trace = a.trace ++ es) : ClearedFrom mark b := by
  obtain ⟨hmark, hread⟩ := h
  rw [ClearedFrom, htrace, List.take_append_of_le_length hmark, List.length_append]
  exact ⟨hmark.trans (Nat.le_add_right _ _), hread⟩

/-- The invariant of the runs in which no request depends on an older snapshot. -/
structure Guarded (s : Console γ) : Prop where
  remembers : Remembers s.agent
  cleared : ∀ c fileName mappings mark, s.clients c = .cleared fileName mappings mark →
    ClearedFrom mark s.agent
  starts : Along FollowsReadyRead s.agent.trace

namespace Guarded

variable {s t : Console γ} {m : ConsoleMove γ}

theorem agent (h : Guarded s) (l : Label) : Guarded { s with agent := s.agent.step l } := by
  obtain ⟨es, htrace, hes⟩ := step_not_isAccepted s.agent l
  refine ⟨h.remembers.step l, fun c _ _ mark hc => (h.cleared c _ _ mark hc).append htrace, ?_⟩
  rw [htrace, along_append]
  exact ⟨h.starts, along_of_forall fun _ _ e he => followsReadyRead_of_not_isAccepted (hes e he)⟩

variable [DecidableEq γ]

/-- A client that was let pass on a ready snapshot. -/
theorem guard (h : Guarded s) {c : γ} {fileName : String} {mappings : List MaterialMapping}
    (hready : ∃ p, s.agent.snapshot = some p ∧ p.state ∈ readyToStart) :
    Guarded { s with
      clients :=
        Function.update s.clients c (.cleared fileName mappings s.agent.trace.length) } := by
  refine ⟨h.remembers, fun c' f ms mark hc => ?_, h.starts⟩
  by_cases hsame : c' = c
  · subst hsame
    obtain ⟨p, hp, hstate⟩ := hready
    obtain ⟨-, -, rfl⟩ : fileName = f ∧ mappings = ms ∧ s.agent.trace.length = mark := by
      simpa using hc
    exact ⟨le_rfl, p, by simpa using h.remembers p hp, hstate⟩
  · exact h.cleared c' f ms mark (by simpa [Function.update_of_ne hsame] using hc)

theorem request (h : Guarded s) {c : γ} {fileName : String}
    {mappings : List MaterialMapping} {mark : ℕ}
    {answer : Except FlashforgeError Unit} (hc : s.clients c = .cleared fileName mappings mark)
    (hok : SeesNewest s (.request c answer)) : Guarded
      { agent := (requestStart fileName mappings answer s.agent).2
        clients := Function.update s.clients c .idle } := by
  have hreq : (requestStart fileName mappings answer s.agent).2 =
      s.agent.log [.printGcode fileName mappings answer.toBool] := by
    unfold requestStart
    rw [emit_bind]
    cases answer <;> rfl
  rw [hreq]
  refine ⟨h.remembers.append_of_none rfl rfl (by simp [Effect.read?]),
    fun c' f ms mark' hc' => ?_, ?_⟩
  · by_cases hsame : c' = c
    · subst hsame
      simp at hc'
    · refine (h.cleared c' f ms mark' ?_).append rfl
      simpa [Function.update_of_ne hsame] using hc'
  · rw [log_trace, along_snoc]
    refine ⟨h.starts, fun haccepted _ => ?_⟩
    rcases answer with e | ⟨⟩
    · simp [Effect.isAccepted, Except.toBool] at haccepted
    · simp only [SeesNewest, hc] at hok
      obtain ⟨-, p, hread, hstate⟩ := h.cleared c _ _ mark hc
      rw [← List.take_append_drop mark s.agent.trace]
      exact ready_of_lastRead hread hstate hok

theorem step (h : Guarded s) (hs : s.step m = some t) (hok : s.SeesNewest m) : Guarded t := by
  unfold Console.step at hs
  split_ifs at hs
  cases m with
  | agent l =>
    cases hs
    exact h.agent l
  | guard c fileName reply =>
    obtain ⟨hsame, hready⟩ := guardStart_spec fileName reply s.agent
    dsimp only at hs
    rcases hc : s.clients c with _ | ⟨f, ms, mark⟩ <;> rw [hc] at hs
    swap
    · cases hs
    rcases hg : guardStart fileName reply s.agent with ⟨e | refusal | mappings, a⟩ <;>
      rw [hg] at hs hsame hready <;> obtain rfl : a = s.agent := hsame <;> cases hs
    · exact h
    · exact h
    · exact h.guard (hready mappings rfl)
  | request c answer =>
    dsimp only at hs
    rcases hc : s.clients c with _ | ⟨fileName, mappings, mark⟩ <;> rw [hc] at hs <;> cases hs
    exact h.request hc hok

end Guarded

/-- **No start replaces a job that was started from the console**, in every run of the agent and of
any number of clients in which every accepted start was guarded by a snapshot that was read after
the last accepted start: between any two of them a snapshot is read that is ready, completed or
cancelled. -/
theorem starts_follow_a_ready_read (config : Config) (cameras : List Camera)
    (reserver : Option (List Camera)) [DecidableEq γ] (ms : List (ConsoleMove γ)) (s : Console γ)
    (h : Transition.Run (Transition.restrict SeesNewest (Transition.ofPartial step))
      (atRest (initial config cameras reserver)) ms s) : Along FollowsReadyRead s.agent.trace := by
  have hguarded : Guarded s := by
    refine h.invariant ?_ fun s m t hs hstep => hs.step hstep.2 hstep.1
    exact ⟨fun p hp => (by cases hp), fun c f ms mark hc => (by cases hc), along_nil⟩
  exact hguarded.starts

/-- A client's call of `start_print` that the printer accepts. -/
def starting (c : ℕ) (fileName : String) : List (ConsoleMove ℕ) :=
  [.guard c fileName (.ok [("gcodeList", .arr [.str "a.gcode", .str "b.gcode"])]),
    .request c (.ok ())]

/-- A poll of a printer without a job. -/
def polling (status : String) (now : Time) : ConsoleMove ℕ :=
  .agent (.quietPoll (.ok (detailOf status "")) now)

/-- Two starts are accepted, with a poll between them that finds the first job completed. -/
theorem second_start_follows_a_ready_read :
    ∃ s : Console ℕ, s.agent.trace.countP Effect.isAccepted = 2 ∧
      Along FollowsReadyRead s.agent.trace := by
  set ms := polling "ready" 1000 :: starting 0 "a.gcode" ++
    polling "completed" 5000 :: starting 1 "b.gcode"
  have hrun : ∃ s ∈ ms.foldlM (Transition.guarded SeesNewest step) (atRest bare),
      s.agent.trace.countP Effect.isAccepted = 2 := by decide +kernel
  obtain ⟨s, hs, hcount⟩ := hrun
  refine ⟨s, hcount, starts_follow_a_ready_read
    { publicHost := "10.0.0.2", reservePort := 8081 } [] none
    ms s ?_⟩
  rw [Transition.restrict_ofPartial]
  exact Transition.run_ofPartial.mpr hs

/-- Before the next poll, a second start passes the guard too. -/
theorem second_start_replaces_the_first :
    ∃ s ∈ (polling "ready" 1000 :: starting 0 "a.gcode" ++ starting 1 "b.gcode").foldlM step
      (atRest bare),
      ¬ Along FollowsReadyRead s.agent.trace := by
  decide +kernel

end Console

end FlashforgeObico
