import FlashforgeObico.Agent.Run

/-!
# The poll thread and the command thread

The poll loop and the drain of the command queue run in threads of their own. `execute_command`
holds `_command_lock`, the rest of a poll does not: between the poll thread's test of the pending
pause, its taking of it and the execution of what it took, the command thread can execute a command.

A `System` is the agent with the lock and the places of the two threads; `System.step` moves one
thread, or lets a message or a request arrive. `sequential_run` says that the runs in which the
steps are not interleaved are among those of the system.
-/

namespace FlashforgeObico

open Py

/-! ## Threads -/

/-- What the poll thread has taken from `pending_command`, which is nothing when the command thread
emptied it after the test, and when: the number of deferrals and the length of the trace. -/
structure Taken where
  cmd : Option Command
  deferral : ℕ
  mark : ℕ
  deriving DecidableEq

/-- The place of the poll thread. -/
inductive PollThread
  /-- Between two polls. -/
  | idle
  /-- At the beginning of `_service_pending_command`. -/
  | servicing
  /-- About to drop the pending pause. -/
  | dropping (reason : Dropped)
  /-- About to take the pending pause. -/
  | taking
  /-- Waiting for the lock. -/
  | holding (t : Taken)
  /-- With the lock, about to execute. -/
  | running (t : Taken)
  /-- About to release the lock. -/
  | releasing
  deriving DecidableEq

/-- The place of the command thread. -/
inductive CommandThread
  /-- Waiting for a command. -/
  | idle
  /-- Waiting for the lock. -/
  | holding (cmd : Command)
  /-- With the lock, about to execute. -/
  | running (cmd : Command)
  /-- About to release the lock. -/
  | releasing
  deriving DecidableEq

/-- Who has `_command_lock`. -/
inductive Holder
  | poll
  | command
  deriving DecidableEq

/-- The agent with its lock and its two threads. -/
structure System where
  agent : Agent
  lock : Option Holder := none
  poll : PollThread := .idle
  command : CommandThread := .idle

/-- A step of a system. -/
inductive Move
  /-- The poll thread reads the printer, publishes and reports a fault. -/
  | refresh (reply : DetailReply) (now : Time) (accepts : PrinterEvent → Bool)
  /-- The poll thread tests the pending pause and the snapshot. -/
  | test
  /-- The poll thread drops the pending pause. -/
  | drop
  /-- The poll thread takes the pending pause. -/
  | take
  | pollAcquire
  /-- The poll thread executes what it took. -/
  | pollRun (answers : Answers) (now : Time)
  | pollRelease
  /-- A message of Obico. -/
  | message (message : Dict)
  /-- A request of the phone console. -/
  | request (cmd : String)
  /-- The command thread gets a command from the queue. -/
  | get
  | acquire
  /-- The command thread executes the command. -/
  | run (answers : Answers) (now : Time)
  | release

namespace Agent

/-- `poll_once` up to `_service_pending_command`: whether that is called. -/
def refresh (reply : DetailReply) (now : Time) (accepts : PrinterEvent → Bool) : Method Bool := do
  if ← readPrinter reply then
    discoverCamera
    publish now
    reportFault accepts
    return true
  else return false

/-- The tests of `_service_pending_command`. -/
def testPending (a : Agent) : PollThread :=
  match a.pendingCommand, a.snapshot with
  | some _, some s =>
    if ¬ s.HasJob then .dropping .jobIsOver
    else if s.state = .paused then .dropping .alreadyPaused
    else if s.WarmingUp then .idle
    else .taking
  | _, _ => .idle

/-- `cmd, self.pending_command = self.pending_command, None`. -/
def takePending (a : Agent) : Agent × Taken :=
  ({ a with pendingCommand := none },
    { cmd := a.pendingCommand, deferral := a.deferrals, mark := a.trace.length })

/-- `execute_command` of what was taken. On a job, `execute_command(None)` raises when it asks the
printer for the method of that name. -/
def executeTaken (t : Taken) (answers : Answers) (now : Time) : Method Unit :=
  match t.cmd with
  | some cmd => executeCommand (.deferred t.deferral) cmd answers now
  | none => do
    let a ← .gets id
    if ∃ s ∈ a.snapshot, s.HasJob then .raise .typeError
    else return ()

end Agent

namespace System

open Agent

/-- No thread is at work. -/
def atRest (a : Agent) : System := { agent := a }

/-- A step of the poll thread from the place `p`. -/
def pollStep (s : System) (m : Move) (p : PollThread) : Option System :=
  match m, p with
  | .refresh reply now accepts, .idle =>
    match Agent.refresh reply now accepts s.agent with
    | (.ok true, a) => some { s with agent := a, poll := .servicing }
    | (.ok false, a) => some { s with agent := a, poll := .idle }
    | (.error _, a) => some { s with agent := { a with exited := true }, poll := .idle }
  | .test, .servicing => some { s with poll := testPending s.agent }
  | .drop, .dropping reason =>
    some { s with agent := (dropBecause reason s.agent).2, poll := .idle }
  | .take, .taking =>
    some { s with agent := (takePending s.agent).1, poll := .holding (takePending s.agent).2 }
  | .pollAcquire, .holding t =>
    if s.lock = none then some { s with lock := some .poll, poll := .running t } else none
  | .pollRun answers now, .running t =>
    match executeTaken t answers now s.agent with
    | (.ok _, a) => some { s with agent := a, poll := .releasing }
    | (.error _, a) => some { s with agent := { a with exited := true }, lock := none, poll := .idle }
  | .pollRelease, .releasing => some { s with lock := none, poll := .idle }
  | _, _ => none

/-- A step of the command thread from the place `c`. -/
def commandStep (s : System) (m : Move) (c : CommandThread) : Option System :=
  match m, c with
  | .get, .idle =>
    match s.agent.commands with
    | [] => none
    | cmd :: rest => some { s with agent := { s.agent with commands := rest }, command := .holding cmd }
  | .acquire, .holding cmd =>
    if s.lock = none then some { s with lock := some .command, command := .running cmd } else none
  | .run answers now, .running cmd =>
    some { s with agent := (executeCommand .queued cmd answers now s.agent).2, command := .releasing }
  | .release, .releasing => some { s with lock := none, command := .idle }
  | _, _ => none

/-- One step of a system; `none` when the thread is elsewhere or has to wait for the lock. An
exception that leaves the poll loop ends the process. -/
def step (s : System) (m : Move) : Option System :=
  if s.agent.exited then none
  else match m with
  | .message message => some { s with agent := (handleServerMessage message s.agent).2 }
  | .request cmd => some { s with agent := (requestCommand cmd s.agent).2 }
  | m => (s.pollStep m s.poll).or (s.commandStep m s.command)

/-- A run of a system. -/
def run (s : System) (ms : List Move) : Option System := ms.foldlM step s

/-! ## What one step does -/

/-- A step of the poll thread, from its place before to its place after. An exception may end the
process. -/
inductive PollStepped (s : System) : Move → PollThread → System → Prop
  | refresh {reply now accepts r a exited p} : Agent.refresh reply now accepts s.agent = (r, a) →
      (p = .idle ∨ p = .servicing) →
      PollStepped s (.refresh reply now accepts) .idle
        { s with agent := { a with exited }, poll := p }
  | test : PollStepped s .test .servicing { s with poll := testPending s.agent }
  | drop {reason} : PollStepped s .drop (.dropping reason)
      { s with agent := (dropBecause reason s.agent).2, poll := .idle }
  | take : PollStepped s .take .taking
      { s with agent := (takePending s.agent).1, poll := .holding (takePending s.agent).2 }
  | acquire {t} : s.lock = none →
      PollStepped s .pollAcquire (.holding t) { s with lock := some .poll, poll := .running t }
  | run {answers now t r a exited lock p} : executeTaken t answers now s.agent = (r, a) →
      (p = .idle ∨ p = .releasing) → PollStepped s (.pollRun answers now) (.running t)
        { s with agent := { a with exited }, lock := lock, poll := p }
  | release : PollStepped s .pollRelease .releasing { s with lock := none, poll := .idle }

/-- A step of the command thread. -/
inductive CommandStepped (s : System) : Move → CommandThread → System → Prop
  | get {cmd rest} : s.agent.commands = cmd :: rest → CommandStepped s .get .idle
      { s with agent := { s.agent with commands := rest }, command := .holding cmd }
  | acquire {cmd} : s.lock = none → CommandStepped s .acquire (.holding cmd)
      { s with lock := some .command, command := .running cmd }
  | run {answers now cmd} : CommandStepped s (.run answers now) (.running cmd)
      { s with agent := (executeCommand .queued cmd answers now s.agent).2, command := .releasing }
  | release : CommandStepped s .release .releasing { s with lock := none, command := .idle }

/-- One step. -/
inductive Stepped (s : System) : Move → System → Prop
  | poll {m t} : PollStepped s m s.poll t → Stepped s m t
  | command {m t} : CommandStepped s m s.command t → Stepped s m t
  | message {m} : Stepped s (.message m) { s with agent := (handleServerMessage m s.agent).2 }
  | request {cmd} : Stepped s (.request cmd) { s with agent := (requestCommand cmd s.agent).2 }

theorem pollStepped {s t : System} {m : Move} {p : PollThread} (h : s.pollStep m p = some t) :
    PollStepped s m p t := by
  cases m <;> cases p <;> simp only [pollStep, reduceCtorEq] at h
  case refresh.idle reply now accepts =>
    rcases hr : Agent.refresh reply now accepts s.agent with ⟨e | _ | _, a⟩ <;>
      rw [hr] at h <;> cases h
    · exact .refresh hr (.inl rfl)
    · exact .refresh hr (.inl rfl)
    · exact .refresh hr (.inr rfl)
  case pollRun.running answers now taken =>
    rcases hr : executeTaken taken answers now s.agent with ⟨e | ⟨⟩, a⟩ <;> rw [hr] at h <;> cases h
    · exact .run hr (.inl rfl)
    · exact .run hr (.inr rfl)
  case pollAcquire.holding taken =>
    split_ifs at h with hl
    cases h
    exact .acquire hl
  all_goals
    cases h
    constructor

theorem commandStepped {s t : System} {m : Move} {c : CommandThread}
    (h : s.commandStep m c = some t) :
    CommandStepped s m c t := by
  cases m <;> cases c <;> simp only [commandStep, reduceCtorEq] at h
  case get.idle =>
    rcases hc : s.agent.commands with _ | ⟨cmd, rest⟩ <;> rw [hc] at h <;> cases h
    exact .get hc
  case acquire.holding cmd =>
    split_ifs at h with hl
    cases h
    exact .acquire hl
  all_goals
    cases h
    constructor

/-- **What one step does.** -/
theorem stepped {s t : System} {m : Move} (h : s.step m = some t) : Stepped s m t := by
  unfold step at h
  split_ifs at h with hx
  split at h
  · cases h
    exact .message
  · cases h
    exact .request
  · rcases Option.or_eq_some_iff.mp h with hp | ⟨-, hc⟩
    · exact .poll (pollStepped hp)
    · exact .command (commandStepped hc)

/-! ## Runs that are not interleaved -/

end System

namespace Agent

/-- A poll is its steps one after another. -/
theorem pollOnce_eq (reply : DetailReply) (now : Time) (answers : Answers) (later : Time)
    (a : Agent) :
    pollOnce reply now answers later a = match refresh reply now answers.accepts a with
      | (.ok true, b) => servicePendingCommand answers later b
      | (.ok false, b) => (.ok (), b)
      | (.error e, b) => (.error e, b) := by
  rw [pollOnce, refresh]
  rcases hr : readPrinter reply a with ⟨e | _ | _, b⟩
  · rw [Procedure.bind_of_error hr, Procedure.bind_of_error hr]
  · rw [Procedure.bind_of_ok hr, Procedure.bind_of_ok hr]
    rfl
  · rw [Procedure.bind_of_ok hr, Procedure.bind_of_ok hr, if_pos rfl, if_pos rfl, discoverCamera,
      Procedure.modify_bind, Procedure.modify_bind]
    rcases hp : publish now b.discovered with ⟨e | ⟨⟩, c⟩
    · rw [Procedure.bind_of_error hp, Procedure.bind_of_error hp]
    · obtain ⟨codes, es, hf, -⟩ := reportFault_spec answers.accepts c
      rw [Procedure.bind_of_ok hp, Procedure.bind_of_ok hp, Procedure.bind_of_ok hf,
        Procedure.bind_of_ok hf]
      rfl

theorem servicePendingCommand_eq (answers : Answers) (now : Time) (a : Agent) :
    servicePendingCommand answers now a = match testPending a with
      | .dropping reason => dropBecause reason a
      | .taking => executeTaken (takePending a).2 answers now (takePending a).1
      | _ => (.ok (), a) := by
  rw [servicePendingCommand, Procedure.gets_bind, testPending]
  dsimp only [id]
  rcases hp : a.pendingCommand with _ | cmd
  · rfl
  rcases hs : a.snapshot with _ | s
  · rfl
  dsimp only
  split_ifs
  · rfl
  · rfl
  · rw [Procedure.modify_bind]
    simp [executeTaken, takePending, hp]
  · rfl

theorem testPending_cases (a : Agent) :
    testPending a = .idle ∨ (∃ reason, testPending a = .dropping reason) ∨
      testPending a = .taking := by
  unfold testPending
  split
  · split_ifs <;> simp
  · exact .inl rfl

/-- A poll does nothing to the queue and the pending pause before it services that. -/
theorem refresh_quiet (reply : DetailReply) (now : Time) (accepts : PrinterEvent → Bool)
    (a : Agent) :
    ∃ es, Quiet a (refresh reply now accepts a).2 es := by
  obtain ⟨es, hread⟩ := (read reply a).quiet
  rw [refresh]
  rcases hr : readPrinter reply a with ⟨e | _ | _, b⟩ <;> rw [hr] at hread
  · rw [Procedure.bind_of_error hr]
    exact ⟨es, hread⟩
  · rw [Procedure.bind_of_ok hr]
    exact ⟨es, hread⟩
  · rw [Procedure.bind_of_ok hr, if_pos rfl, discoverCamera, Procedure.modify_bind]
    obtain ⟨ms, hp⟩ := published b.discovered now
    obtain ⟨es', hpublish⟩ := hp.quiet
    have hb := (hread.trans (discovered_quiet b)).trans hpublish
    rcases hc : publish now b.discovered with ⟨e | ⟨⟩, c⟩ <;> rw [hc] at hb
    · rw [Procedure.bind_of_error hc]
      exact ⟨_, hb⟩
    · obtain ⟨codes, fs, hf, hfs⟩ := reportFault_spec accepts c
      rw [Procedure.bind_of_ok hc, Procedure.bind_of_ok hf]
      exact ⟨_, hb.trans (reports_quiet c codes hfs)⟩

/-- No method ends the process by itself. -/
theorem Executed.exited_eq {x : Execution} {now : Time} {a b : Agent} {r : Except Error Unit}
    (h : Executed x now a r b) : b.exited = a.exited := by
  have hbegun : (begun x a).exited = a.exited := by
    obtain ⟨ds, hb, -⟩ := begun_spec x a
    rw [hb]
  cases h with
  | ignored _ => exact hbegun
  | raised _ hes => rw [hes.eq]; exact hbegun
  | attempted _ hes hsettled hp =>
    rw [hp.eq]
    cases hsettled <;> rw [hes.eq] <;> exact hbegun

theorem executeTaken_exited (t : Taken) (answers : Answers) (now : Time) (a : Agent) :
    (executeTaken t answers now a).2.exited = a.exited := by
  unfold executeTaken
  rcases t.cmd with _ | cmd
  · dsimp only
    rw [Procedure.gets_bind]
    split_ifs <;> rfl
  · exact (executed _ cmd answers now a).exited_eq

end Agent

namespace System

open Agent

theorem step_of_pollStep {s t : System} {m : Move} (hx : s.agent.exited = false)
    (h : s.pollStep m s.poll = some t) : s.step m = some t := by
  cases m <;> simp_all [step, pollStep]

theorem step_of_commandStep {s t : System} {m : Move} (hx : s.agent.exited = false)
    (h : s.commandStep m s.command = some t) : s.step m = some t := by
  cases m <;> simp_all [step, pollStep, commandStep]

theorem run_cons {s t : System} {m : Move} (h : s.step m = some t) (ms : List Move) :
    s.run (m :: ms) = t.run ms := by
  rw [run, List.foldlM_cons, h]
  rfl

theorem run_append {s t : System} {ms : List Move} (h : s.run ms = some t) (ms' : List Move) :
    s.run (ms ++ ms') = t.run ms' := by
  rw [run, List.foldlM_append, show ms.foldlM step s = some t from h]
  rfl

/-- What a poll leaves. -/
def settled (r : Except Error Unit × Agent) : System := atRest { r.2 with exited := !r.1.toBool }

theorem settled_ok {a : Agent} (hx : a.exited = false) : settled (.ok (), a) = atRest a := by
  have hsame : a = { a with exited := false } := by rw [← hx]
  exact congrArg atRest hsame.symm

/-- The poll thread services the pending pause without interruption. -/
theorem service_run (answers : Answers) (now : Time) {a : Agent} (hx : a.exited = false) :
    ∃ ms, run { agent := a, poll := .servicing } ms =
      some (settled (servicePendingCommand answers now a)) := by
  rw [servicePendingCommand_eq]
  rcases testPending_cases a with ht | ⟨reason, ht⟩ | ht
  · rw [ht]
    dsimp only
    rw [settled_ok hx]
    refine ⟨[.test], ?_⟩
    rw [run_cons (step_of_pollStep hx rfl), ht]
    rfl
  · rw [ht]
    refine ⟨[.test, .drop], ?_⟩
    rw [run_cons (step_of_pollStep hx rfl), ht, run_cons (step_of_pollStep hx rfl)]
    exact congrArg some (settled_ok (a := (dropBecause reason a).2) hx).symm
  · rw [ht]
    dsimp only
    have hexited := executeTaken_exited (takePending a).2 answers now (takePending a).1
    rcases hr : executeTaken (takePending a).2 answers now (takePending a).1 with ⟨e | ⟨⟩, b⟩ <;>
      rw [hr] at hexited
    · refine ⟨[.test, .take, .pollAcquire, .pollRun answers now], ?_⟩
      rw [run_cons (step_of_pollStep hx rfl), ht, run_cons (step_of_pollStep hx rfl),
        run_cons (step_of_pollStep hx rfl), run_cons (t := atRest { b with exited := true })]
      · rfl
      · apply step_of_pollStep hx
        simp [pollStep, hr, atRest]
    · refine ⟨[.test, .take, .pollAcquire, .pollRun answers now, .pollRelease], ?_⟩
      have hb : b.exited = false := hexited.trans hx
      rw [settled_ok hb, run_cons (step_of_pollStep hx rfl), ht, run_cons (step_of_pollStep hx rfl),
        run_cons (step_of_pollStep hx rfl),
        run_cons (t := { agent := b, lock := some .poll, poll := .releasing })]
      · exact run_cons (step_of_pollStep hb rfl) []
      · apply step_of_pollStep hx
        simp [pollStep, hr]

/-- The poll thread polls without interruption. -/
theorem poll_run (reply : DetailReply) (now : Time) (answers : Answers) (later : Time) {a : Agent}
    (hx : a.exited = false) :
    ∃ ms, (atRest a).run ms = some (settled (pollOnce reply now answers later a)) := by
  obtain ⟨es, hquiet⟩ := refresh_quiet reply now answers.accepts a
  have hexited := hquiet.exited
  rw [pollOnce_eq]
  rcases hr : refresh reply now answers.accepts a with ⟨e | _ | _, b⟩ <;> rw [hr] at hexited
  · refine ⟨[.refresh reply now answers.accepts], ?_⟩
    refine (run_cons (step_of_pollStep hx ?_) []).trans rfl
    simp [pollStep, atRest, hr, settled, Except.toBool]
  · refine ⟨[.refresh reply now answers.accepts], ?_⟩
    dsimp only
    rw [settled_ok (hexited.trans hx)]
    refine (run_cons (step_of_pollStep hx ?_) []).trans rfl
    simp [pollStep, atRest, hr]
  · obtain ⟨ms, hms⟩ := service_run answers later (hexited.trans hx)
    refine ⟨.refresh reply now answers.accepts :: ms, ?_⟩
    refine (run_cons (step_of_pollStep hx ?_) ms).trans hms
    simp [pollStep, atRest, hr]

/-- The command thread executes a command without interruption. -/
theorem execute_run (answers : Answers) (now : Time) {a : Agent} {cmd : Command}
    {rest : List Command}
    (hx : a.exited = false) (hc : a.commands = cmd :: rest) : ∃ ms, (atRest a).run ms =
      some (atRest (executeCommand .queued cmd answers now { a with commands := rest }).2) := by
  set b : Agent := { a with commands := rest }
  have hb : (executeCommand .queued cmd answers now b).2.exited = false :=
    (executed .queued cmd answers now b).exited_eq.trans hx
  refine ⟨[.get, .acquire, .run answers now, .release], ?_⟩
  rw [run_cons (t := { agent := b, command := .holding cmd }),
    run_cons (step_of_commandStep hx rfl),
    run_cons (step_of_commandStep hx rfl), run_cons (step_of_commandStep hb rfl)]
  · rfl
  · apply step_of_commandStep hx
    simp [commandStep, atRest, hc, b]

/-- **A step of a sequential run is made by steps of the threads, one after another.** -/
theorem sequential_step (a : Agent) (l : Label) :
    ∃ ms, (atRest a).run ms = some (atRest (a.step l)) := by
  by_cases hx : a.exited = true
  · have hsame : a.step l = a := if_pos hx
    rw [hsame]
    exact ⟨[], rfl⟩
  have hx : a.exited = false := Bool.not_eq_true _ ▸ hx
  cases l with
  | poll reply now answers later =>
    have hsame : a.step (.poll reply now answers later) =
        { (pollOnce reply now answers later a).2 with
          exited := !(pollOnce reply now answers later a).1.toBool } := by simp [Agent.step, hx]
    rw [hsame]
    exact poll_run reply now answers later hx
  | message m =>
    exact ⟨[.message m], by simp [run, step, atRest, hx, Agent.step]⟩
  | request cmd =>
    exact ⟨[.request cmd], by simp [run, step, atRest, hx, Agent.step]⟩
  | execute answers now =>
    rcases hc : a.commands with _ | ⟨cmd, rest⟩
    · have hsame : a.step (.execute answers now) = a := by simp [Agent.step, hx, hc]
      rw [hsame]
      exact ⟨[], rfl⟩
    · have hsame : a.step (.execute answers now) =
          (executeCommand .queued cmd answers now { a with commands := rest }).2 := by
        simp [Agent.step, hx, hc]
      rw [hsame]
      exact execute_run answers now hx hc

/-- **A sequential run is an interleaving** of the steps of the threads. -/
theorem sequential_run (a : Agent) (ls : List Label) :
    ∃ ms, (atRest a).run ms = some (atRest (a.run ls)) := by
  induction ls generalizing a with
  | nil => exact ⟨[], rfl⟩
  | cons l ls ih =>
    obtain ⟨ms, hms⟩ := sequential_step a l
    obtain ⟨ms', hms'⟩ := ih (a.step l)
    exact ⟨ms ++ ms', (run_append hms ms').trans hms'⟩

end System

end FlashforgeObico
