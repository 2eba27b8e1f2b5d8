import FlashforgeObico.Foundations.Trace
import FlashforgeObico.Agent.Publish

/-!
# Executing a command

`execute_command` forwards a command to the printer and confirms by reading the state back that it
took: up to `maxCommandAttempts` sends with `readbackAttempts` reads after each that was
acknowledged. What the printer and Obico answer is given by `Answers`.

`Attempted`, `Settled` and `Executed` say what the parts of an execution do to the agent, in the
order in which they do it, and `executed` that an execution does nothing else.
-/

namespace FlashforgeObico

open Py Trace

/-- `READBACK_ATTEMPTS`. -/
def readbackAttempts : ℕ := 5

/-- `MAX_COMMAND_ATTEMPTS`. -/
def maxCommandAttempts : ℕ := 3

/-- The answers to the requests of one execution. -/
structure Answers where
  /-- The printer's answer to a send, by the number of the attempt. -/
  send : ℕ → Except FlashforgeError Unit
  /-- The replies to the reads after the send of an attempt, by their number. -/
  detail : ℕ → ℕ → DetailReply
  /-- Whether Obico accepts a printer event. -/
  accepts : PrinterEvent → Bool

/-- The results of `_attempt_command` and `_read_back`. -/
inductive Outcome
  | taken
  | jobOver
  | notTaken
  deriving DecidableEq, Repr

/-- The snapshot that `_read_back` waits for. -/
def Expected (cmd : Command) (s : PrinterSnapshot) : Prop :=
  match cmd with
  | .pause => s.state = .paused
  | .resume => s.HasJob ∧ s.state ≠ .paused
  | .cancel => ¬ s.HasJob

instance (cmd : Command) (s : PrinterSnapshot) : Decidable (Expected cmd s) := by
  unfold Expected
  cases cmd <;> infer_instance

namespace Agent

/-- Request the printer's `detail` and store the snapshot of the reply; `none` on a
`FlashforgeError`. -/
def requestDetail : DetailReply → Method (Option PrinterSnapshot)
  | .error _ => do
    emit (.detail none)
    return none
  | .ok detail => do
    let s ← .ofExcept (parseSnapshot detail)
    .modify fun a => { a with snapshot := some s }
    emit (.detail (some s))
    return some s

/-- `_read_back`, over the replies to its reads. -/
def readBack (cmd : Command) : List DetailReply → Method Outcome
  | [] => return .notTaken
  | reply :: replies => do
    match ← requestDetail reply with
    | none => readBack cmd replies
    | some s =>
      if Expected cmd s then return .taken
      else if cmd ≠ .cancel ∧ ¬ s.HasJob then return .jobOver
      else readBack cmd replies

/-- The replies to the reads after an attempt. -/
def replies (answers : Answers) (attempt : ℕ) : List DetailReply :=
  (List.range readbackAttempts).map (answers.detail attempt)

/-- The event of a command that the printer refused to the last. -/
def failedEvent (cmd : Command) (e : FlashforgeError) : PrinterEvent where
  title := cmd.capitalized ++ " failed"
  text := e.message

/-- The loop of `_attempt_command`, over the numbers of the attempts. -/
def attempts (x : Execution) (answers : Answers) : List ℕ → Method Outcome
  | [] => return .notTaken
  | attempt :: rest => do
    match answers.send attempt with
    | .error e =>
      emit (.call x false)
      if attempt = maxCommandAttempts then do
        postPrinterEvent answers.accepts (failedEvent x.cmd e)
        return .notTaken
      else attempts x answers rest
    | .ok _ =>
      emit (.call x true)
      let result ← readBack x.cmd (replies answers attempt)
      if result ≠ .notTaken then return result
      else attempts x answers rest

/-- `_attempt_command`. -/
def attemptCommand (x : Execution) (answers : Answers) : Method Outcome :=
  attempts x answers (List.range' 1 maxCommandAttempts)

/-- The event of a deferred pause. -/
def deferredEvent : PrinterEvent where
  title := "Pause deferred until printing starts"
  text := "The printer accepted the pause but ignores job control while it is still heating. " ++
    "The pause will be sent again automatically as soon as the first layer starts."
  eventClass := "WARNING"

/-- The event of a command that did not take. -/
def didNotTakeEvent (cmd : Command) (snapshot : Option PrinterSnapshot) : PrinterEvent where
  title := cmd.capitalized ++ " did not take"
  text := "The printer was asked to " ++ cmd.name ++ " " ++ toString maxCommandAttempts ++
    " times but still reports '" ++
    ((snapshot.map fun s => s.state.value).getD "unreachable") ++ "'."

/-- The warm-up is why a pause did not take. -/
def DefersPause (a : Agent) (cmd : Command) : Prop := cmd = .pause ∧ ∃ s ∈ a.snapshot, s.WarmingUp

instance (a : Agent) (cmd : Command) : Decidable (a.DefersPause cmd) := by
  unfold DefersPause
  infer_instance

/-- What `execute_command` does with the outcome. -/
def settle (x : Execution) (accepts : PrinterEvent → Bool) (outcome : Outcome) : Method Unit := do
  let a ← .gets id
  if outcome = .taken ∨ outcome = .jobOver then
    return ()
  else if a.DefersPause x.cmd then
    .modify fun a => { a with pendingCommand := some .pause }
    emit (.deferred x (a.deferrals + 1))
    postPrinterEvent accepts deferredEvent
  else
    postPrinterEvent accepts (didNotTakeEvent x.cmd a.snapshot)

/-- The snapshot already shows the state that the command asks for. -/
def AlreadyThere (cmd : Command) (s : PrinterSnapshot) : Prop :=
  (cmd = .pause ∧ s.state = .paused) ∨ (cmd = .resume ∧ s.state ≠ .paused)

instance (cmd : Command) (s : PrinterSnapshot) : Decidable (AlreadyThere cmd s) := by
  unfold AlreadyThere
  infer_instance

/-- A resume or a cancel drops the pending pause. -/
def dropPending (x : Execution) : Method Unit := do
  let pending ← .gets pendingCommand
  if (x.cmd = .resume ∨ x.cmd = .cancel) ∧ pending ≠ none then
    .modify fun a => { a with pendingCommand := none }
    emit (.dropped (.overriddenBy x.cmd))

/-- `execute_command` with the lock held. -/
def executeLocked (x : Execution) (answers : Answers) (now : Time) : Method Unit := do
  dropPending x
  match ← .gets snapshot with
  | none => emit (.ignored x .noActiveJob)
  | some s =>
    if ¬ s.HasJob then emit (.ignored x .noActiveJob)
    else if AlreadyThere x.cmd s then emit (.ignored x .alreadyInThatState)
    else do
      let outcome ← attemptCommand x answers
      settle x answers.accepts outcome
      publish now

/-- `execute_command`. -/
def executeCommand (origin : Origin) (cmd : Command) (answers : Answers) (now : Time) :
    Method Unit := do
  let n ← .gets executions
  let x : Execution := { number := n + 1, origin, cmd }
  emit (.began x)
  .ensuring (fun a => a.log [.finished x]) (executeLocked x answers now)

/-! ## What the attempts do -/

end Agent

/-- The effects of the attempts of an execution. -/
def Effect.OfAttempt (x : Execution) : Effect → Prop
  | .call y _ => y = x
  | .detail _ => True
  | .printerEvent _ _ => True
  | _ => False

/-- The last snapshot read in a list of effects. -/
def lastRead (es : List Effect) : Option PrinterSnapshot := lastOf Effect.read? es

namespace Agent

/-- What the attempts do: they call the printer for `x` at most `n` times, read snapshots and report
to Obico, and the snapshot is the last one read. -/
structure Attempted (x : Execution) (n : ℕ) (a b : Agent) (es : List Effect) : Prop where
  eq : b = { a with snapshot := (lastRead es).or a.snapshot, trace := a.trace ++ es }
  ofAttempt : ∀ e ∈ es, e.OfAttempt x
  calls : es.countP Effect.isCall ≤ n

namespace Attempted

variable {x : Execution} {m n : ℕ} {a b c : Agent} {es es' : List Effect}

theorem refl (x : Execution) (a : Agent) : Attempted x 0 a a [] :=
  ⟨by simp [lastRead, lastOf], by simp, by simp⟩

theorem trans (h : Attempted x m a b es) (h' : Attempted x n b c es') :
    Attempted x (m + n) a c (es ++ es') := by
  refine ⟨?_, ?_, ?_⟩
  · have hlast : lastRead (es ++ es') = (lastRead es').or (lastRead es) := lastOf_append _ _ _
    rw [h'.eq, h.eq, hlast, Option.or_assoc, List.append_assoc]
  · intro e he
    exact (List.mem_append.mp he).elim (h.ofAttempt e) (h'.ofAttempt e)
  · rw [List.countP_append]
    exact Nat.add_le_add h.calls h'.calls

theorem mono (h : Attempted x m a b es) (hmn : m ≤ n) : Attempted x n a b es :=
  ⟨h.eq, h.ofAttempt, h.calls.trans hmn⟩

theorem call (x : Execution) (a : Agent) (acknowledged : Bool) :
    Attempted x 1 a (a.log [.call x acknowledged]) [.call x acknowledged] :=
  ⟨by simp [lastRead, lastOf, Effect.read?, log], by simp [Effect.OfAttempt],
    by simp [Effect.isCall]⟩

theorem event (x : Execution) (a : Agent) (event : PrinterEvent) (accepted : Bool) :
    Attempted x 0 a (a.log [.printerEvent event accepted]) [.printerEvent event accepted] :=
  ⟨by simp [lastRead, lastOf, Effect.read?, log], by simp [Effect.OfAttempt],
    by simp [Effect.isCall]⟩

theorem read (x : Execution) (a : Agent) (read : Option PrinterSnapshot) :
    Attempted x 0 a ({ a with snapshot := read.or a.snapshot }.log [.detail read])
      [.detail read] := by
  refine ⟨?_, by simp [Effect.OfAttempt], by simp [Effect.isCall]⟩
  cases read <;> simp [lastRead, lastOf, Effect.read?, log]

end Attempted

/-- A `detail` request fails, raises on what it cannot parse, or stores the snapshot it read. -/
theorem requestDetail_cases (a : Agent) (reply : DetailReply) :
    (∃ e, reply = .error e ∧ requestDetail reply a = (.ok none, a.log [.detail none])) ∨
    (∃ d e, reply = .ok d ∧ parseSnapshot d = .error e ∧ requestDetail reply a = (.error e, a)) ∨
    ∃ d s, reply = .ok d ∧ parseSnapshot d = .ok s ∧
      requestDetail reply a = (.ok (some s), { a with snapshot := some s }.log
        [.detail (some s)]) := by
  rcases reply with e | d
  · exact .inl ⟨e, rfl, rfl⟩
  rcases hd : parseSnapshot d with e | s
  · refine .inr (.inl ⟨d, e, rfl, hd, ?_⟩)
    simp [requestDetail, Procedure.bind_apply, Procedure.ofExcept, hd]
  · refine .inr (.inr ⟨d, s, rfl, hd, ?_⟩)
    simp [requestDetail, Procedure.bind_apply, Procedure.ofExcept, hd, Procedure.modify, emit,
      Procedure.pure_apply]

theorem attempted_readBack (x : Execution) (cmd : Command) (rs : List DetailReply) (a : Agent) :
    ∃ es, Attempted x 0 a (readBack cmd rs a).2 es := by
  induction rs generalizing a with
  | nil => exact ⟨_, .refl x a⟩
  | cons reply rs ih =>
    rcases requestDetail_cases a reply with ⟨e, -, h⟩ | ⟨d, e, -, -, h⟩ | ⟨d, s, -, -, h⟩
    · obtain ⟨es, hes⟩ := ih (a.log [.detail none])
      rw [readBack, Procedure.bind_of_ok h]
      exact ⟨_, (Attempted.read x a none).trans hes⟩
    · rw [readBack, Procedure.bind_of_error h]
      exact ⟨_, .refl x a⟩
    · have hread := Attempted.read x a (some s)
      rw [readBack, Procedure.bind_of_ok h]
      dsimp only
      split_ifs
      · exact ⟨_, hread⟩
      · exact ⟨_, hread⟩
      · obtain ⟨es, hes⟩ := ih ({ a with snapshot := some s }.log [.detail (some s)])
        exact ⟨_, hread.trans hes⟩

theorem attempted_attempts (x : Execution) (answers : Answers) (ns : List ℕ) (a : Agent) :
    ∃ es, Attempted x ns.length a (attempts x answers ns a).2 es := by
  induction ns generalizing a with
  | nil => exact ⟨_, .refl x a⟩
  | cons n ns ih =>
    rw [attempts]
    rcases answers.send n with e | -
    · have hcall := Attempted.call x a false
      dsimp only
      rw [emit_bind]
      split_ifs
      · exact ⟨_, (hcall.trans (.event x _ _ (answers.accepts _))).mono (by simp)⟩
      · obtain ⟨es, hes⟩ := ih (a.log [.call x false])
        exact ⟨_, (hcall.trans hes).mono (by rw [List.length_cons, Nat.add_comm])⟩
    · obtain ⟨es, hes⟩ := attempted_readBack x x.cmd (replies answers n) (a.log [.call x true])
      have hread := (Attempted.call x a true).trans hes
      dsimp only
      rw [emit_bind, Procedure.bind_apply]
      rcases hb : readBack x.cmd (replies answers n) (a.log [.call x true]) with ⟨e | result, b⟩ <;>
        rw [hb] at hread
      · exact ⟨_, hread.mono (by simp)⟩
      · dsimp only
        split_ifs
        · exact ⟨_, hread.mono (by simp)⟩
        · obtain ⟨es', hes'⟩ := ih b
          exact ⟨_, (hread.trans hes').mono (by simp [Nat.add_comm])⟩

theorem attempted (x : Execution) (answers : Answers) (a : Agent) :
    ∃ es, Attempted x maxCommandAttempts a (attemptCommand x answers a).2 es := by
  simpa [attemptCommand] using attempted_attempts x answers (List.range' 1 maxCommandAttempts) a

/-! ## What one execution does -/

/-- What is done with the outcome: the pause is left pending, or Obico is told something. -/
inductive Settled (x : Execution) (a : Agent) : Agent → Prop
  /-- Nothing, or one printer event. -/
  | told {es} : (∀ e ∈ es, ∃ event accepted, e = .printerEvent event accepted) →
      Settled x a (a.log es)
  /-- The pause is left pending. -/
  | deferred {event accepted} : a.DefersPause x.cmd → Settled x a
      ({ a with pendingCommand := some .pause }.log
        [.deferred x (a.deferrals + 1), .printerEvent event accepted])

theorem settled (x : Execution) (accepts : PrinterEvent → Bool) (outcome : Outcome) (a : Agent) :
    ∃ b, settle x accepts outcome a = (.ok (), b) ∧ Settled x a b := by
  rw [settle, Procedure.gets_bind]
  dsimp only [id]
  split_ifs with h h'
  · exact ⟨a, rfl, by simpa using (Settled.told (by simp) : Settled x a (a.log []))⟩
  · refine ⟨{ a with pendingCommand := some .pause }.log [.deferred x (a.deferrals + 1),
      .printerEvent deferredEvent (accepts deferredEvent)], ?_, .deferred h'⟩
    simp [Procedure.bind_apply, Procedure.modify, emit, postPrinterEvent]
  · refine ⟨_, rfl, .told ?_⟩
    intro e he
    exact ⟨_, _, List.mem_singleton.mp he⟩

/-- The agent when the execution looks at the snapshot: the pending pause is dropped by a resume or
a cancel. -/
def begun (x : Execution) (a : Agent) : Agent :=
  if (x.cmd = .resume ∨ x.cmd = .cancel) ∧ a.pendingCommand ≠ none then
    { a with pendingCommand := none }.log [.began x, .dropped (.overriddenBy x.cmd)]
  else a.log [.began x]

/-- The snapshot shows a job that the command would change. -/
def Forwards (a : Agent) (cmd : Command) : Prop :=
  ∃ s, a.snapshot = some s ∧ s.HasJob ∧ ¬ AlreadyThere cmd s

instance (a : Agent) (cmd : Command) : Decidable (a.Forwards cmd) :=
  inferInstanceAs (Decidable (∃ s ∈ a.snapshot, s.HasJob ∧ ¬ AlreadyThere cmd s))

/-- The snapshot is why a command is ignored. -/
def Ignores (a : Agent) (cmd : Command) : Ignored → Prop
  | .noActiveJob => ∀ s, a.snapshot = some s → ¬ s.HasJob
  | .alreadyInThatState => ∃ s, a.snapshot = some s ∧ s.HasJob ∧ AlreadyThere cmd s

/-- What one execution does: it ignores its command; or it attempts it, settles the outcome and
publishes, unless an exception ends it before. -/
inductive Executed (x : Execution) (now : Time) (a : Agent) : Except Error Unit → Agent → Prop
  /-- The command is ignored. -/
  | ignored {reason} : a.Ignores x.cmd reason →
      Executed x now a (.ok ()) ((begun x a).log [.ignored x reason, .finished x])
  /-- A reply cannot be parsed. -/
  | raised {b es e} : a.Forwards x.cmd → Attempted x maxCommandAttempts (begun x a) b es →
      Executed x now a (.error e) (b.log [.finished x])
  /-- The command was attempted. -/
  | attempted {b es c r d ms} : a.Forwards x.cmd → Attempted x maxCommandAttempts (begun x a) b es →
      Settled x b c → Published now c r d ms → Executed x now a r (d.log [.finished x])

theorem dropPending_apply (x : Execution) (a : Agent) :
    dropPending x (a.log [.began x]) = (.ok (), begun x a) := by
  simp only [dropPending, begun, Procedure.bind_apply, Procedure.gets, log]
  split_ifs
  · simp [Procedure.bind_apply, Procedure.modify, emit, log]
  · rfl

/-- The number, the origin and the command of the next execution. -/
def nextExecution (a : Agent) (origin : Origin) (cmd : Command) : Execution :=
  { number := a.executions + 1, origin, cmd }

theorem begun_snapshot (x : Execution) (a : Agent) : (begun x a).snapshot = a.snapshot := by
  unfold begun
  split_ifs <;> rfl

theorem executeCommand_eq (origin : Origin) (cmd : Command) (answers : Answers) (now : Time)
    (a : Agent) :
    executeCommand origin cmd answers now a =
      ((executeLocked (a.nextExecution origin cmd) answers now
        (a.log [.began (a.nextExecution origin cmd)])).1,
      (executeLocked (a.nextExecution origin cmd) answers now
        (a.log [.began (a.nextExecution origin cmd)])).2.log
          [.finished (a.nextExecution origin cmd)]) :=
  rfl

/-- **What one execution does.** -/
theorem executed (origin : Origin) (cmd : Command) (answers : Answers) (now : Time) (a : Agent) :
    Executed (a.nextExecution origin cmd) now a (executeCommand origin cmd answers now a).1
      (executeCommand origin cmd answers now a).2 := by
  rw [executeCommand_eq]
  set x := a.nextExecution origin cmd
  have hsnap : Procedure.gets snapshot (begun x a) =
      ((.ok a.snapshot, begun x a) : Except Error _ × Agent) := by
    rw [← begun_snapshot x a]
    rfl
  rw [executeLocked, Procedure.bind_of_ok (dropPending_apply x a), Procedure.bind_of_ok hsnap]
  rcases hs : a.snapshot with _ | s
  · have hi : a.Ignores x.cmd .noActiveJob := fun s h => by rw [hs] at h; cases h
    simpa [emit, Procedure.modify] using (Executed.ignored hi : Executed x now a _ _)
  by_cases hj : s.HasJob
  swap
  · have hi : a.Ignores x.cmd .noActiveJob := fun s' h => by rw [hs] at h; cases h; exact hj
    simpa [hj, emit, Procedure.modify] using (Executed.ignored hi : Executed x now a _ _)
  by_cases ht : AlreadyThere x.cmd s
  · have hi : a.Ignores x.cmd .alreadyInThatState := ⟨s, hs, hj, ht⟩
    simpa [hj, ht, emit, Procedure.modify] using (Executed.ignored hi : Executed x now a _ _)
  have hf : a.Forwards x.cmd := ⟨s, hs, hj, ht⟩
  obtain ⟨es, hes⟩ := attempted x answers (begun x a)
  simp only [hj, not_true_eq_false, if_false, ht]
  rcases hr : attemptCommand x answers (begun x a) with ⟨e | outcome, b⟩
  · rw [hr] at hes
    rw [Procedure.bind_of_error hr]
    exact .raised hf hes
  · rw [hr] at hes
    obtain ⟨c, hc, hsettled⟩ := settled x answers.accepts outcome b
    obtain ⟨ms, hp⟩ := published c now
    rw [Procedure.bind_of_ok hr, Procedure.bind_of_ok hc]
    exact .attempted hf hes hsettled hp

end Agent

end FlashforgeObico
