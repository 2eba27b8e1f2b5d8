import FlashforgeObico.Agent.Commands

/-!
# The poll loop

`poll_once`: read the printer, publish, report a fault, and issue or drop the pending pause. `Read`,
`Serviced` and `Polled` say what the parts of a poll do, and `polled` that a poll does nothing else.
-/

namespace FlashforgeObico

open Py

/-- `OFFLINE_AFTER_FAILURES`. -/
def offlineAfterFailures : ℕ := 3

namespace Agent

/-- `_read_printer`: whether there is something to publish. -/
def readPrinter (reply : DetailReply) : Method Bool := do
  match ← requestDetail reply with
  | some _ =>
    .modify fun a => { a with failures := 0 }
    return true
  | none =>
    .modify fun a => { a with failures := a.failures + 1 }
    let failures ← .gets failures
    if failures < offlineAfterFailures then return false
    else do
      .modify fun a => { a with snapshot := none }
      return true

/-- The agent with the camera that the snapshot names, if it has no camera yet. -/
def discovered (a : Agent) : Agent :=
  match a.snapshot with
  | none => a
  | some s =>
    if a.cameras ≠ [] ∨ s.cameraStreamUrl = "" then a
    else
      let camera : Camera := { streamUrl := s.cameraStreamUrl, name := "Printer" }
      { a with cameras := [camera], reserver := a.reserver.map (· ++ [camera]) }

/-- `_discover_camera`. -/
def discoverCamera : Method Unit := .modify discovered

/-- The event of an error code. -/
def faultEvent (errorCode : String) : PrinterEvent where
  title := "Printer error " ++ errorCode
  text := "The printer reports error code " ++ errorCode ++ "."

/-- `self._faults_reported.add(error_code)`, of a code that is not in the set. -/
def recordFault (a : Agent) (errorCode : String) : Agent :=
  { a with faultsReported := a.faultsReported ++ [errorCode] }

/-- `_report_fault`. -/
def reportFault (accepts : PrinterEvent → Bool) : Method Unit := do
  let a ← .gets id
  match a.snapshot with
  | none => return ()
  | some s =>
    if s.errorCode = "" ∨ s.errorCode ∈ a.faultsReported then return ()
    else do
      .modify fun a => a.recordFault s.errorCode
      postPrinterEvent accepts (faultEvent s.errorCode)

/-- Drop the pending pause. -/
def dropBecause (reason : Dropped) : Method Unit := do
  .modify fun a => { a with pendingCommand := none }
  emit (.dropped reason)

/-- `_service_pending_command`. -/
def servicePendingCommand (answers : Answers) (now : Time) : Method Unit := do
  let a ← .gets id
  match a.pendingCommand, a.snapshot with
  | some cmd, some s =>
    if ¬ s.HasJob then dropBecause .jobIsOver
    else if s.state = .paused then dropBecause .alreadyPaused
    else if s.WarmingUp then return () -- the firmware still ignores job control; keep waiting
    else do
      .modify fun a => { a with pendingCommand := none }
      executeCommand (.deferred a.deferrals) cmd answers now
  | _, _ => return ()

/-- `poll_once`. The reply and the time are those of the poll; the answers and the later time are
those of the execution of a pending pause. -/
def pollOnce (reply : DetailReply) (now : Time) (answers : Answers) (later : Time) :
    Method Unit := do
  if ← readPrinter reply then
    discoverCamera
    publish now
    reportFault answers.accepts
    servicePendingCommand answers later

/-! ## What one poll does -/

/-- What reading the printer does. -/
inductive Read (reply : DetailReply) (a : Agent) : Except Error Bool → Agent → Prop
  /-- The reply was parsed. -/
  | parsed {d s} : reply = .ok d → parseSnapshot d = .ok s →
      Read reply a (.ok true) ({ a with snapshot := some s, failures := 0 }.log [.detail (some s)])
  /-- The reply could not be parsed. -/
  | unparsed {d e} : reply = .ok d → parseSnapshot d = .error e → Read reply a (.error e) a
  /-- The poll failed, and too few did so far to call the printer offline. -/
  | waits {e} : reply = .error e → a.failures + 1 < offlineAfterFailures →
      Read reply a (.ok false) ({ a with failures := a.failures + 1 }.log [.detail none])
  /-- The poll failed, and the printer is offline. -/
  | offline {e} : reply = .error e → offlineAfterFailures ≤ a.failures + 1 →
      Read reply a (.ok true)
        ({ a with failures := a.failures + 1, snapshot := none }.log [.detail none])

theorem read (reply : DetailReply) (a : Agent) :
    Read reply a (readPrinter reply a).1 (readPrinter reply a).2 := by
  rw [readPrinter]
  rcases requestDetail_cases a reply with ⟨e, hr, h⟩ | ⟨d, e, hr, hd, h⟩ | ⟨d, s, hr, hd, h⟩
  · rw [Procedure.bind_of_ok h]
    dsimp only
    rw [Procedure.modify_bind, Procedure.gets_bind]
    split_ifs with hf
    · exact .waits hr hf
    · exact .offline hr (not_lt.mp hf)
  · rw [Procedure.bind_of_error h]
    exact .unparsed hr hd
  · rw [Procedure.bind_of_ok h]
    exact .parsed hr hd

/-- A fault adds an error code and printer events. -/
theorem reportFault_spec (accepts : PrinterEvent → Bool) (a : Agent) :
    ∃ codes es, reportFault accepts a = (.ok (), { a with faultsReported := codes }.log es) ∧
      ∀ e ∈ es, ∃ event accepted, e = .printerEvent event accepted := by
  obtain ⟨snapshot, hs⟩ : ∃ snapshot, a.snapshot = snapshot := ⟨_, rfl⟩
  have hkept : a = { a with faultsReported := a.faultsReported }.log [] := (log_nil a).symm
  rcases snapshot with _ | s
  · have h : reportFault accepts a = (.ok (), a) := by
      simp [reportFault, Procedure.gets_bind, hs, Procedure.pure_apply]
    exact ⟨_, [], h.trans (congrArg _ hkept), by simp⟩
  by_cases hc : s.errorCode = "" ∨ s.errorCode ∈ a.faultsReported
  · have h : reportFault accepts a = (.ok (), a) := by
      simp [reportFault, Procedure.gets_bind, hs, hc, Procedure.pure_apply]
    exact ⟨_, [], h.trans (congrArg _ hkept), by simp⟩
  · have h : reportFault accepts a = (.ok (), (a.recordFault s.errorCode).log
        [.printerEvent (faultEvent s.errorCode) (accepts (faultEvent s.errorCode))]) := by
      simp only [reportFault, Procedure.gets_bind, id, hs, hc, if_false]
      rfl
    refine ⟨_, _, h, ?_⟩
    intro e he
    exact ⟨_, _, List.mem_singleton.mp he⟩

/-- What servicing the pending pause does. -/
inductive Serviced (now : Time) (a : Agent) : Except Error Unit → Agent → Prop
  /-- There is none, there is no snapshot, or the printer is still warming up. -/
  | waits : (∀ cmd s, a.pendingCommand = some cmd → a.snapshot = some s → s.WarmingUp) →
      Serviced now a (.ok ()) a
  /-- It is dropped. -/
  | drops {s reason} : a.pendingCommand ≠ none → a.snapshot = some s →
      (¬ s.HasJob ∧ reason = .jobIsOver ∨ s.HasJob ∧ s.state = .paused ∧ reason = .alreadyPaused) →
      Serviced now a (.ok ()) ({ a with pendingCommand := none }.log [.dropped reason])
  /-- It is issued. -/
  | issues {cmd s r b} : a.pendingCommand = some cmd → a.snapshot = some s → s.HasJob →
      s.state ≠ .paused → ¬ s.WarmingUp →
      Executed (a.nextExecution (.deferred a.deferrals) cmd) now
        { a with pendingCommand := none } r b →
      Serviced now a r b

theorem serviced (answers : Answers) (now : Time) (a : Agent) :
    Serviced now a (servicePendingCommand answers now a).1
      (servicePendingCommand answers now a).2 := by
  rw [servicePendingCommand, Procedure.gets_bind]
  dsimp only [id]
  rcases hp : a.pendingCommand with _ | cmd
  · exact .waits fun _ _ h => by rw [hp] at h; cases h
  rcases hs : a.snapshot with _ | s
  · exact .waits fun _ _ _ h => by rw [hs] at h; cases h
  have hp' : a.pendingCommand ≠ none := by simp [hp]
  dsimp only
  split_ifs with hj hpaused hw
  · exact .drops hp' hs (.inr ⟨hj, hpaused, rfl⟩)
  · refine .waits fun _ s' _ h => ?_
    rw [hs] at h
    cases h
    exact hw
  · rw [Procedure.modify_bind]
    exact .issues hp hs hj hpaused hw (executed _ cmd answers now { a with pendingCommand := none })
  · exact .drops hp' hs (.inl ⟨hj, rfl⟩)

/-- What one poll does. -/
inductive Polled (reply : DetailReply) (now later : Time) (a : Agent) :
    Except Error Unit → Agent → Prop
  /-- The poll failed, and nothing is published. -/
  | unread {b} : Read reply a (.ok false) b → Polled reply now later a (.ok ()) b
  /-- The reply could not be parsed. -/
  | unparsed {b e} : Read reply a (.error e) b → Polled reply now later a (.error e) b
  /-- The status could not be built. -/
  | unpublished {b c e ms} : Read reply a (.ok true) b →
      Published now b.discovered (.error e) c ms →
      Polled reply now later a (.error e) c
  /-- The poll went through; the pending pause was serviced last. -/
  | published {b c ms codes es r d} : Read reply a (.ok true) b →
      Published now b.discovered (.ok ()) c ms →
      (∀ e ∈ es, ∃ event accepted, e = .printerEvent event accepted) →
      Serviced later ({ c with faultsReported := codes }.log es) r d → Polled reply now later a r d

/-- **What one poll does.** -/
theorem polled (reply : DetailReply) (now : Time) (answers : Answers) (later : Time) (a : Agent) :
    Polled reply now later a (pollOnce reply now answers later a).1
      (pollOnce reply now answers later a).2 := by
  have hread := read reply a
  rw [pollOnce]
  rcases hr : readPrinter reply a with ⟨e | _ | _, b⟩ <;> rw [hr] at hread
  · rw [Procedure.bind_of_error hr]
    exact .unparsed hread
  · rw [Procedure.bind_of_ok hr]
    exact .unread hread
  · obtain ⟨ms, hp⟩ := published b.discovered now
    rw [Procedure.bind_of_ok hr, if_pos rfl, discoverCamera, Procedure.modify_bind]
    rcases hc : publish now b.discovered with ⟨e | ⟨⟩, c⟩ <;> rw [hc] at hp
    · rw [Procedure.bind_of_error hc]
      exact .unpublished hread hp
    · obtain ⟨codes, es, hf, hes⟩ := reportFault_spec answers.accepts c
      rw [Procedure.bind_of_ok hc, Procedure.bind_of_ok hf]
      exact .published hread hp hes (serviced _ _ _)

end Agent

end FlashforgeObico
