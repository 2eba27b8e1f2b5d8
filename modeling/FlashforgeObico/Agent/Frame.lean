import FlashforgeObico.Agent.Run

/-!
# What commands and reads leave alone

A function of the agent that does not read the snapshot, the count of failures or the pending pause,
and that no routine effect changes, is `Aloof`. Reading the printer, executing a command and
servicing the pending pause leave such a function as it is, if publishing does, and so does every
step that is not a poll.
-/

namespace FlashforgeObico

namespace Agent

/-! ## The event of a code -/

theorem faultEvent_injective {code code' : String} (h : faultEvent code = faultEvent code') :
    code = code' := by
  have htitle := congrArg (fun event => event.title.toList) h
  simp only [faultEvent, String.toList_append] at htitle
  exact String.toList_inj.mp (List.append_cancel_left htitle)

/-- An event whose title begins otherwise is not that of a code. -/
theorem ne_faultEvent {event : PrinterEvent} (h : event.title.toList.take 2 ≠ ['P', 'r'])
    (code : String) : event ≠ faultEvent code := by
  rintro rfl
  exact h (by simp [faultEvent])

theorem failedEvent_ne_faultEvent (cmd : Command) (e : FlashforgeError) (code : String) :
    failedEvent cmd e ≠ faultEvent code :=
  ne_faultEvent (by cases cmd <;> simp [failedEvent, Command.capitalized]) code

theorem deferredEvent_ne_faultEvent (code : String) : deferredEvent ≠ faultEvent code :=
  ne_faultEvent (by simp [deferredEvent]) code

theorem didNotTakeEvent_ne_faultEvent (cmd : Command) (snapshot : Option PrinterSnapshot)
    (code : String) : didNotTakeEvent cmd snapshot ≠ faultEvent code :=
  ne_faultEvent (by cases cmd <;> simp [didNotTakeEvent, Command.capitalized]) code

end Agent

/-- An effect of reading the printer or of a command: no message to Obico, and no fault. -/
def Effect.IsRoutine : Effect → Prop
  | .observed _ _ _ => False
  | .sent _ _ => False
  | .printerEvent event _ => ∀ code, event ≠ Agent.faultEvent code
  | _ => True

namespace Agent

variable {γ : Type*} {f : Agent → γ}

/-- The function reads nothing that reading the printer or executing a command changes. -/
structure Aloof (f : Agent → γ) : Prop where
  log : ∀ {e : Effect}, e.IsRoutine → ∀ a : Agent, f (a.log [e]) = f a
  snapshot : ∀ (a : Agent) snapshot, f { a with snapshot } = f a
  failures : ∀ (a : Agent) failures, f { a with failures } = f a
  pending : ∀ (a : Agent) pendingCommand, f { a with pendingCommand } = f a

namespace Aloof

theorem emit (h : Aloof f) {e : Effect} (he : e.IsRoutine) : (Agent.emit e).Keeps f :=
  .modify (h.log he)

theorem postPrinterEvent (h : Aloof f) {event : PrinterEvent}
    (hevent : ∀ code, event ≠ faultEvent code) (accepts : PrinterEvent → Bool) :
    (Agent.postPrinterEvent accepts event).Keeps f :=
  h.emit hevent

theorem requestDetail (h : Aloof f) (reply : DetailReply) :
    (Agent.requestDetail reply).Keeps f := by
  rcases reply with e | d
  · exact .bind (h.emit trivial) fun _ => .pure _
  · exact .bind (.ofExcept _) fun s => .bind (.modify fun a => h.snapshot a _) fun _ =>
      .bind (h.emit trivial) fun _ => .pure _

theorem readPrinter (h : Aloof f) (reply : DetailReply) : (Agent.readPrinter reply).Keeps f := by
  refine .bind (h.requestDetail reply) fun read => ?_
  rcases read with _ | s
  · refine .bind (.modify fun a => h.failures a _) fun _ => .bind (.gets _) fun failures => ?_
    split_ifs
    · exact .pure _
    · exact .bind (.modify fun a => h.snapshot a _) fun _ => .pure _
  · exact .bind (.modify fun a => h.failures a _) fun _ => .pure _

theorem readBack (h : Aloof f) (cmd : Command) (rs : List DetailReply) :
    (Agent.readBack cmd rs).Keeps f := by
  induction rs with
  | nil => exact .pure _
  | cons reply rs ih =>
    refine .bind (h.requestDetail reply) fun read => ?_
    rcases read with _ | s
    · exact ih
    · dsimp only
      split_ifs
      · exact .pure _
      · exact .pure _
      · exact ih

theorem attempts (h : Aloof f) (x : Execution) (answers : Answers) (ns : List ℕ) :
    (Agent.attempts x answers ns).Keeps f := by
  induction ns with
  | nil => exact .pure _
  | cons n ns ih =>
    rw [Agent.attempts]
    rcases answers.send n with e | -
    · refine .bind (h.emit trivial) fun _ => ?_
      split_ifs
      · exact .bind (h.postPrinterEvent (failedEvent_ne_faultEvent x.cmd e) _) fun _ => .pure _
      · exact ih
    · refine .bind (h.emit trivial) fun _ => .bind (h.readBack _ _) fun result => ?_
      split_ifs
      · exact .pure _
      · exact ih

theorem settle (h : Aloof f) (x : Execution) (accepts : PrinterEvent → Bool) (outcome : Outcome) :
    (Agent.settle x accepts outcome).Keeps f := by
  refine .bind (.gets id) fun a => ?_
  split_ifs
  · exact .pure _
  · exact .bind (.modify fun a => h.pending a _) fun _ => .bind (h.emit trivial) fun _ =>
      h.postPrinterEvent deferredEvent_ne_faultEvent accepts
  · exact h.postPrinterEvent (didNotTakeEvent_ne_faultEvent x.cmd a.snapshot) accepts

theorem dropPending (h : Aloof f) (x : Execution) : (Agent.dropPending x).Keeps f := by
  refine .bind (.gets _) fun pending => ?_
  split_ifs
  · exact .bind (.modify fun a => h.pending a _) fun _ => h.emit trivial
  · exact .pure _

theorem executeCommand (h : Aloof f) (hpublish : ∀ now, (Agent.publish now).Keeps f)
    (origin : Origin) (cmd : Command) (answers : Answers) (now : Time) :
    (Agent.executeCommand origin cmd answers now).Keeps f := by
  refine .bind (.gets _) fun n => .bind (h.emit trivial) fun _ =>
    .ensuring (.bind (h.dropPending _) fun _ => .bind (.gets _) fun snapshot => ?_)
      (h.log trivial)
  rcases snapshot with _ | s
  · exact h.emit trivial
  · dsimp only
    split_ifs
    · exact h.emit trivial
    · exact .bind (h.attempts _ answers _) fun outcome =>
        .bind (h.settle _ _ outcome) fun _ => hpublish now
    · exact h.emit trivial

theorem servicePendingCommand (h : Aloof f) (hpublish : ∀ now, (Agent.publish now).Keeps f)
    (answers : Answers) (now : Time) : (Agent.servicePendingCommand answers now).Keeps f := by
  have hdrop : ∀ reason, (dropBecause reason).Keeps f :=
    fun reason => .bind (.modify fun a => h.pending a _) fun _ => h.emit trivial
  refine .bind (.gets id) fun a => ?_
  split
  · split_ifs
    · exact hdrop _
    · exact .pure _
    · exact .bind (.modify fun a => h.pending a _) fun _ =>
        h.executeCommand hpublish _ _ answers now
    · exact hdrop _
  · exact .pure _

theorem log_all (h : Aloof f) {es : List Effect} (hes : ∀ e ∈ es, e.IsRoutine) (a : Agent) :
    f (a.log es) = f a := by
  induction es generalizing a with
  | nil => rw [log_nil]
  | cons e es ih =>
    have hsplit : a.log (e :: es) = (a.log [e]).log es := (log_log a [e] es).symm
    rw [hsplit, ih (fun e' he' => hes e' (List.mem_cons_of_mem e he')),
      h.log (hes e List.mem_cons_self)]

/-- A step other than a poll leaves the function as it is, if the function does not read the queue
or who is viewing either. -/
theorem step_of_not_poll (h : Aloof f) (hpublish : ∀ now, (Agent.publish now).Keeps f)
    (hviewing : ∀ (a : Agent) viewing, f { a with viewing } = f a)
    (hcommands : ∀ (a : Agent) commands, f { a with commands } = f a) {l : Label}
    (hl : ∀ reply now answers later, l ≠ .poll reply now answers later) (a : Agent) :
    f (a.step l) = f a := by
  have hqueue : ∀ (b : Agent) source cmds, f (b.enqueueAll source cmds) = f b := by
    intro b source cmds
    have hroutine : ∀ e ∈ cmds.map (Effect.queued source), e.IsRoutine := by
      intro e he
      obtain ⟨cmd, -, rfl⟩ := List.mem_map.mp he
      trivial
    exact (h.log_all hroutine _).trans (hcommands b _)
  unfold Agent.step
  split_ifs
  · rfl
  cases l with
  | poll reply now answers later => exact absurd rfl (hl reply now answers later)
  | message m =>
    dsimp only
    rw [handleServerMessage_eq, hqueue, hviewing]
  | request cmd =>
    dsimp only
    rw [requestCommand_eq, hqueue]
  | execute answers now =>
    dsimp only
    rcases a.commands with _ | ⟨cmd, rest⟩
    · rfl
    · dsimp only
      rw [h.executeCommand hpublish .queued cmd answers now, hcommands]

end Aloof

end Agent

end FlashforgeObico
