import FlashforgeObico.Foundations.Trace
import FlashforgeObico.Foundations.Transition
import FlashforgeObico.Agent.Console

/-!
# Runs of the agent

A run is a sequence of polls, messages of Obico, requests of the phone console and executions of
queued commands, one after another and in any order. An exception that leaves a poll ends the
process, after which nothing happens any more; one that leaves an execution or the handling of a
message is caught by its thread.

`Stepped` lists what one step can do. `Block` and `PollView` are what an execution and a poll do as
far as the queue, the pending pause and the calls on the printer are concerned.
-/

namespace FlashforgeObico

open Py

/-! ## Steps -/

/-- A step of a run. -/
inductive Label
  /-- A poll; the last two are for the execution of a pending pause. -/
  | poll (reply : DetailReply) (now : Time) (answers : Answers) (later : Time)
  /-- A message of Obico. -/
  | message (message : Dict)
  /-- A request of the phone console. -/
  | request (cmd : String)
  /-- The execution of the first command of the queue. -/
  | execute (answers : Answers) (now : Time)

namespace Agent

/-- One step of a run. -/
def step (a : Agent) (l : Label) : Agent :=
  if a.exited then a
  else match l with
    | .poll reply now answers later =>
      let r := pollOnce reply now answers later a
      { r.2 with exited := !r.1.toBool }
    | .message message => (handleServerMessage message a).2
    | .request cmd => (requestCommand cmd a).2
    | .execute answers now =>
      match a.commands with
      | [] => a
      | cmd :: rest => (executeCommand .queued cmd answers now { a with commands := rest }).2

/-- A run from an agent. -/
def run (a : Agent) (ls : List Label) : Agent := ls.foldl step a

/-- What every step preserves holds after every run. -/
theorem run_invariant {I : Agent → Prop} {a : Agent} (h0 : I a) (h : ∀ a l, I a → I (a.step l))
    (ls : List Label) : I (a.run ls) :=
  (Transition.run_ofTotal.mpr rfl).invariant h0 fun _ l _ hI ht => ht ▸ h _ l hI

/-- An invariant that also speaks of the steps so far. -/
theorem run_history {I : List Label → Agent → Prop} {a : Agent} (h0 : I [] a)
    (h : ∀ ls a l, I ls a → I (ls ++ [l]) (a.step l)) (ls : List Label) : I ls (a.run ls) :=
  (Transition.run_ofTotal.mpr rfl).history h0 fun _ _ l _ hI ht => ht ▸ h _ _ l hI

end Agent

/-! ## Concrete steps -/

/-- Every send is acknowledged, every reply after it is `reply`, and Obico accepts every event. -/
def Answers.constant (reply : DetailReply) : Answers where
  send _ := .ok ()
  detail _ _ := reply
  accepts _ := true

/-- A poll on which no pending pause is due. -/
def Label.quietPoll (reply : DetailReply) (now : Time) : Label :=
  .poll reply now (.constant reply) now

/-! ## What a step does -/

/-- The entries of the list `commands` of a message. -/
def entriesOf (message : Dict) : List Json := (message.get "commands").items

/-- The commands that a step is asked to queue, with the one who asks. -/
def Label.asks : Label → List (Source × Command)
  | .message m => ((entriesOf m).filterMap Agent.commandOf).map (Source.obico, ·)
  | .request cmd =>
    if cmd = "pause" then [(.console, .pause)]
    else if cmd = "resume" then [(.console, .resume)]
    else []
  | _ => []

namespace Agent

theorem filterMap_commandOf_str {α : Type} (f : α → String) (l : List α) :
    (l.map fun i => Json.str (f i)).filterMap commandOf = [] := by
  induction l with
  | nil => rfl
  | cons i l ih => exact ih

/-- Only a list has entries that are objects: the items of the other sequences are strings. -/
theorem filterMap_iterate (v : Json) :
    (((v.orElse (.arr [])).iterate.toOption.getD []).filterMap commandOf) =
      v.items.filterMap commandOf := by
  cases v with
  | null => rfl
  | bool b => cases b <;> rfl
  | int n =>
    by_cases h : n = 0 <;>
      simp [Json.orElse, Json.truthy, h, Json.iterate, Except.toOption, Json.items]
  | float x =>
    by_cases h : x = 0 <;>
      simp [Json.orElse, Json.truthy, h, Json.iterate, Except.toOption, Json.items]
  | str s =>
    by_cases h : s = ""
    · simp [Json.orElse, Json.truthy, h, Json.iterate, Except.toOption, Json.items]
    · simpa [Json.orElse, Json.truthy, h, Json.iterate, Except.toOption, Json.items] using
        filterMap_commandOf_str (fun c => String.ofList [c]) s.toList
  | arr items => cases items <;> rfl
  | obj fields =>
    rcases fields with _ | ⟨f, fields⟩
    · rfl
    · exact filterMap_commandOf_str Prod.fst (f :: fields)

/-- A message changes `viewing` and queues the commands of its entries, also when it raises on a
value of `commands` that is no sequence. -/
theorem handleServerMessage_eq (message : Dict) (a : Agent) :
    (handleServerMessage message a).2 =
      { a with viewing := viewingOf message a.viewing }.enqueueAll .obico
        ((entriesOf message).filterMap commandOf) := by
  have hitems := filterMap_iterate (message.get "commands")
  rw [handleServerMessage, Procedure.modify_bind, entriesOf, ← hitems]
  rcases hi : ((message.get "commands").orElse (.arr [])).iterate with e | items
  · rw [Procedure.ofExcept_error_bind]
    simp [enqueueAll, Except.toOption]
  · rw [Procedure.ofExcept_ok_bind, enqueueEntries_eq]
    rfl

/-- A request of the console queues the command it is asked for. -/
theorem requestCommand_eq (cmd : String) (a : Agent) :
    (requestCommand cmd a).2 =
      a.enqueueAll .console ((Label.request cmd).asks.map Prod.snd) := by
  simp only [requestCommand, Label.asks]
  split_ifs
  · rfl
  · rfl
  · simp [enqueueAll, Procedure.pure_apply]

/-- What one step does. -/
inductive Stepped (a : Agent) : Label → Agent → Prop
  /-- The process has ended. -/
  | exited {l} : a.exited = true → Stepped a l a
  /-- A poll; an exception that leaves it ends the process. -/
  | poll {reply now answers later r b} : Polled reply now later a r b →
      Stepped a (.poll reply now answers later) { b with exited := !r.toBool }
  /-- Commands are queued. -/
  | queues {l source cmds viewing} : l.asks = cmds.map (source, ·) →
      Stepped a l ({ a with viewing }.enqueueAll source cmds)
  /-- The first command of the queue is executed. -/
  | executes {answers now cmd rest r b} : a.commands = cmd :: rest →
      Executed (a.nextExecution .queued cmd) now { a with commands := rest } r b →
      Stepped a (.execute answers now) b
  /-- The queue is empty. -/
  | idle {answers now} : a.commands = [] → Stepped a (.execute answers now) a

/-- **What one step does.** -/
theorem stepped (a : Agent) (l : Label) : Stepped a l (a.step l) := by
  unfold step
  split_ifs with hx
  · exact .exited hx
  cases l with
  | poll reply now answers later => exact .poll (polled reply now answers later a)
  | message m =>
    dsimp only
    rw [handleServerMessage_eq]
    exact .queues rfl
  | request cmd =>
    dsimp only
    rw [requestCommand_eq]
    refine .queues ?_
    simp only [Label.asks]
    split_ifs <;> rfl
  | execute answers now =>
    rcases hc : a.commands with _ | ⟨cmd, rest⟩
    · simpa [hc] using Stepped.idle hc
    · have hexec := executed .queued cmd answers now { a with commands := rest }
      simpa [hc] using (Stepped.executes hc hexec : Stepped a (.execute answers now) _)

/-! ## Executions and polls, from the side of the queue -/

end Agent

/-- The effects between the beginning and the end of an execution. -/
def Effect.OfExecution (x : Execution) : Effect → Prop
  | .call y _ => y = x
  | .ignored y _ => y = x
  | .deferred y _ => y = x ∧ x.cmd = .pause
  | .detail _ => True
  | .dropped _ => True
  | .observed _ _ _ => True
  | .sent _ _ => True
  | .printerEvent _ _ => True
  | _ => False

/-- The effects of a poll before it services the pending pause. -/
def Effect.IsQuiet : Effect → Prop
  | .detail _ => True
  | .observed _ _ _ => True
  | .sent _ _ => True
  | .printerEvent _ _ => True
  | _ => False

/-- An effect of an execution that is neither a call nor a deferral. -/
def Effect.IsPlain (x : Execution) (e : Effect) : Prop :=
  e.OfExecution x ∧ e.isCall = false ∧ e.isDeferred = false

theorem Effect.IsQuiet.isPlain {e : Effect} (h : e.IsQuiet) (x : Execution) : e.IsPlain x := by
  cases e <;> simp_all [IsQuiet, IsPlain, OfExecution, Effect.isCall, Effect.isDeferred]

theorem Effect.OfAttempt.ofExecution {e : Effect} {x : Execution} (h : e.OfAttempt x) :
    e.OfExecution x ∧ e.isDeferred = false := by
  cases e <;> simp_all [OfAttempt, OfExecution, Effect.isDeferred]

namespace Agent

/-- An execution between its first and its last effect: it calls the printer a few times, if the
snapshot shows something to do, and it drops the pending pause, leaves it alone, or leaves its own
pause pending. -/
structure Block (x : Execution) (a b : Agent) (es : List Effect) : Prop where
  trace : b.trace = a.trace ++ .began x :: (es ++ [.finished x])
  ofExecution : ∀ e ∈ es, e.OfExecution x
  calls : es.countP Effect.isCall ≤ maxCommandAttempts
  commands : b.commands = a.commands
  pending : (b.pendingCommand = a.pendingCommand ∨ b.pendingCommand = none) ∧
      (∀ e ∈ es, e.isDeferred = false) ∨
    b.pendingCommand = some .pause ∧ .deferred x b.deferrals ∈ es
  forwards : ∀ e ∈ es, e.isCall = true → a.Forwards x.cmd
  overrides : x.cmd ≠ .pause → b.pendingCommand = none

/-- The beginning of an execution. -/
theorem begun_spec (x : Execution) (a : Agent) :
    ∃ ds, begun x a = { a with
        pendingCommand := if x.cmd = .pause then a.pendingCommand else none
        trace := a.trace ++ .began x :: ds } ∧
      ∀ e ∈ ds, ∃ reason, e = .dropped reason := by
  unfold begun
  split_ifs with h hx hx
  · rw [hx] at h
    simp at h
  · exact ⟨[.dropped (.overriddenBy x.cmd)], rfl, by simp⟩
  · exact ⟨[], rfl, by simp⟩
  · have hp : a.pendingCommand = none := by
      by_contra hp
      cases hc : x.cmd <;> simp_all
    exact ⟨[], by rw [← hp]; rfl, by simp⟩

/-- Publishing appends what was observed and the messages. -/
theorem Published.trace {now : Time} {a b : Agent} {r : Except Error Unit} {ms : List Message}
    (h : Published now a r b ms) : ∃ es, b.trace = a.trace ++ es ∧ ∀ e ∈ es, e.IsQuiet := by
  refine ⟨.observed a.snapshot now (a.observed now).2 ::
    ms.map fun m => .sent m (a.observed now).1, by rw [h.eq], ?_⟩
  intro e he
  rcases List.mem_cons.mp he with rfl | he
  · trivial
  · obtain ⟨m, -, rfl⟩ := List.mem_map.mp he
    trivial

theorem countP_isDeferred_of_none {es : List Effect} (h : ∀ e ∈ es, e.isDeferred = false) :
    es.countP Effect.isDeferred = 0 :=
  List.countP_eq_zero.mpr fun e he => by simp [h e he]

theorem countP_isCall_of_plain {x : Execution} {es : List Effect} (h : ∀ e ∈ es, e.IsPlain x) :
    es.countP Effect.isCall = 0 :=
  List.countP_eq_zero.mpr fun e he => by simp [(h e he).2.1]

/-- An execution that has begun and not ended yet. -/
structure Ongoing (x : Execution) (a b : Agent) (es : List Effect) : Prop where
  trace : b.trace = a.trace ++ .began x :: es
  ofExecution : ∀ e ∈ es, e.OfExecution x
  calls : es.countP Effect.isCall ≤ maxCommandAttempts
  commands : b.commands = a.commands
  pending : (b.pendingCommand = a.pendingCommand ∨ b.pendingCommand = none) ∧
      (∀ e ∈ es, e.isDeferred = false) ∨
    b.pendingCommand = some .pause ∧ .deferred x b.deferrals ∈ es
  forwards : ∀ e ∈ es, e.isCall = true → a.Forwards x.cmd
  overrides : x.cmd ≠ .pause → b.pendingCommand = none

theorem begun_ongoing (x : Execution) (a : Agent) :
    ∃ ds, Ongoing x a (begun x a) ds ∧ ∀ e ∈ ds, e.IsPlain x := by
  obtain ⟨ds, hb, hds⟩ := begun_spec x a
  have hdx : ∀ e ∈ ds, e.IsPlain x := by
    intro e he
    obtain ⟨reason, rfl⟩ := hds e he
    exact ⟨trivial, rfl, rfl⟩
  refine ⟨ds, ⟨by rw [hb], fun e he => (hdx e he).1, ?_, by rw [hb],
    .inl ⟨?_, fun e he => (hdx e he).2.2⟩, fun e he hc => absurd hc (by simp [(hdx e he).2.1]),
    fun hx => ?_⟩, hdx⟩
  · rw [countP_isCall_of_plain hdx]
    exact Nat.zero_le _
  · rw [hb]
    dsimp only
    split_ifs <;> simp
  · rw [hb]
    exact if_neg hx

namespace Ongoing

variable {x : Execution} {a b c : Agent} {es ss : List Effect}

/-- Effects that are neither calls nor deferrals. -/
theorem append_plain (h : Ongoing x a b es) (htrace : c.trace = b.trace ++ ss)
    (hss : ∀ e ∈ ss, e.IsPlain x) (hcommands : c.commands = b.commands)
    (hpending : c.pendingCommand = b.pendingCommand) : Ongoing x a c (es ++ ss) := by
  have hdeferrals : c.deferrals = b.deferrals := by
    rw [deferrals, htrace, List.countP_append, countP_isDeferred_of_none fun e he => (hss e he).2.2,
      Nat.add_zero, deferrals]
  refine ⟨by simp [htrace, h.trace],
    List.forall_mem_append.mpr ⟨h.ofExecution, fun e he => (hss e he).1⟩, ?_,
    hcommands.trans h.commands, ?_, ?_, fun hx => hpending.trans (h.overrides hx)⟩
  · rw [List.countP_append, countP_isCall_of_plain hss]
    exact h.calls
  · rw [hpending, hdeferrals]
    refine h.pending.imp (fun hp => ⟨hp.1, ?_⟩) fun hp => ⟨hp.1, List.mem_append_left _ hp.2⟩
    exact List.forall_mem_append.mpr ⟨hp.2, fun e he => (hss e he).2.2⟩
  · intro e he hc
    rcases List.mem_append.mp he with he | he
    · exact h.forwards e he hc
    · exact absurd hc (by simp [(hss e he).2.1])

/-- The attempts make the calls. -/
theorem attempt (h : Ongoing x a b es) (hes : ∀ e ∈ es, e.IsPlain x) (hf : a.Forwards x.cmd)
    (hss : Attempted x maxCommandAttempts b c ss) : Ongoing x a c (es ++ ss) := by
  have hsx : ∀ e ∈ ss, e.OfExecution x ∧ e.isDeferred = false :=
    fun e he => (hss.ofAttempt e he).ofExecution
  have hdeferred : ∀ e ∈ es ++ ss, e.isDeferred = false :=
    List.forall_mem_append.mpr ⟨fun e he => (hes e he).2.2, fun e he => (hsx e he).2⟩
  have hpending : c.pendingCommand = b.pendingCommand := by rw [hss.eq]
  refine ⟨by simp [hss.eq, h.trace],
    List.forall_mem_append.mpr ⟨h.ofExecution, fun e he => (hsx e he).1⟩, ?_, ?_,
      .inl ⟨?_, hdeferred⟩,
    fun _ _ _ => hf, fun hx => hpending.trans (h.overrides hx)⟩
  · rw [List.countP_append, countP_isCall_of_plain hes, Nat.zero_add]
    exact hss.calls
  · rw [hss.eq]
    exact h.commands
  · rw [hpending]
    rcases h.pending with hp | ⟨-, hmem⟩
    · exact hp.1
    · exact absurd (hes _ hmem).2.2 (by simp [Effect.isDeferred])

/-- The outcome is told, or the pause is left pending. -/
theorem settle (h : Ongoing x a b es) (hs : Settled x b c) : ∃ ss, Ongoing x a c (es ++ ss) := by
  cases hs with
  | told hss =>
    refine ⟨_, h.append_plain rfl (fun e he => ?_) rfl rfl⟩
    obtain ⟨event, accepted, rfl⟩ := hss e he
    exact ⟨trivial, rfl, rfl⟩
  | @deferred event accepted hdefers =>
    have hn : ({ b with pendingCommand := some .pause }.log [.deferred x (b.deferrals + 1),
        .printerEvent event accepted]).deferrals = b.deferrals + 1 := by
      simp [deferrals, Effect.isDeferred, List.countP_cons]
    refine ⟨[.deferred x (b.deferrals + 1), .printerEvent event accepted],
      by simp [h.trace], ?_, ?_,
      h.commands, .inr ⟨rfl, by simp [hn]⟩, ?_, fun hx => absurd hdefers.1 hx⟩
    · exact List.forall_mem_append.mpr ⟨h.ofExecution, by simp [Effect.OfExecution, hdefers.1]⟩
    · simpa [Effect.isCall] using h.calls
    · exact List.forall_mem_append.mpr ⟨h.forwards, by simp [Effect.isCall]⟩

theorem publish {now : Time} {r : Except Error Unit} {ms : List Message} (h : Ongoing x a b es)
    (hp : Published now b r c ms) : ∃ qs, Ongoing x a c (es ++ qs) := by
  obtain ⟨qs, htrace, hqs⟩ := hp.trace
  exact ⟨qs, h.append_plain htrace (fun e he => (hqs e he).isPlain x)
    (by rw [hp.eq]) (by rw [hp.eq])⟩

theorem finish (h : Ongoing x a b es) : Block x a (b.log [.finished x]) es := by
  refine ⟨by simp [h.trace], h.ofExecution, h.calls, h.commands, ?_, h.forwards, h.overrides⟩
  have hdeferrals : (b.log [.finished x]).deferrals = b.deferrals := by
    simp [deferrals, Effect.isDeferred]
  rw [hdeferrals]
  exact h.pending

end Ongoing

theorem Executed.block {x : Execution} {now : Time} {a b : Agent} {r : Except Error Unit}
    (h : Executed x now a r b) : ∃ es, Block x a b es := by
  obtain ⟨ds, hbegun, hds⟩ := begun_ongoing x a
  cases h with
  | @ignored reason _ =>
    have hplain : ∀ e ∈ [Effect.ignored x reason], e.IsPlain x := by
      simp [Effect.IsPlain, Effect.OfExecution, Effect.isCall, Effect.isDeferred]
    have hignored : Ongoing x a ((begun x a).log [.ignored x reason]) (ds ++ [.ignored x reason]) :=
      hbegun.append_plain rfl hplain rfl rfl
    exact ⟨_, log_log (begun x a) _ _ ▸ hignored.finish⟩
  | raised hf hes => exact ⟨_, (hbegun.attempt hds hf hes).finish⟩
  | attempted hf hes hsettled hpub =>
    obtain ⟨ss, hss⟩ := (hbegun.attempt hds hf hes).settle hsettled
    obtain ⟨qs, hqs⟩ := hss.publish hpub
    exact ⟨_, hqs.finish⟩

/-- Two agents between which a poll did nothing to the queue, the pending pause and the printer's
job. -/
structure Quiet (a b : Agent) (es : List Effect) : Prop where
  trace : b.trace = a.trace ++ es
  quiet : ∀ e ∈ es, e.IsQuiet
  commands : b.commands = a.commands
  pending : b.pendingCommand = a.pendingCommand
  exited : b.exited = a.exited

/-- A poll: nothing is done to the pending pause, or it is dropped, or it is executed. -/
inductive PollView (later : Time) (a : Agent) : Except Error Unit → Agent → Prop
  | quiet {r b es} : Quiet a b es → PollView later a r b
  | drops {c es reason} : Quiet a c es →
      PollView later a (.ok ()) ({ c with pendingCommand := none }.log [.dropped reason])
  | issues {c es cmd r b} : Quiet a c es → c.pendingCommand = some cmd →
      Executed (c.nextExecution (.deferred c.deferrals) cmd) later { c with pendingCommand := none }
        r b →
      PollView later a r b

theorem Quiet.trans {a b c : Agent} {es es' : List Effect} (h : Quiet a b es) (h' : Quiet b c es') :
    Quiet a c (es ++ es') :=
  ⟨by rw [h'.trace, h.trace, List.append_assoc],
    List.forall_mem_append.mpr ⟨h.quiet, h'.quiet⟩,
    h'.commands.trans h.commands, h'.pending.trans h.pending, h'.exited.trans h.exited⟩

theorem Read.quiet {reply : DetailReply} {a b : Agent} {r : Except Error Bool}
    (h : Read reply a r b) :
    ∃ es, Quiet a b es := by
  cases h with
  | parsed _ _ => exact ⟨_, rfl, by simp [Effect.IsQuiet], rfl, rfl, rfl⟩
  | unparsed _ _ => exact ⟨[], by simp, by simp, rfl, rfl, rfl⟩
  | waits _ _ => exact ⟨_, rfl, by simp [Effect.IsQuiet], rfl, rfl, rfl⟩
  | offline _ _ => exact ⟨_, rfl, by simp [Effect.IsQuiet], rfl, rfl, rfl⟩

theorem discovered_quiet (a : Agent) : Quiet a a.discovered [] := by
  unfold discovered
  rcases a.snapshot with _ | s
  · exact ⟨by simp, by simp, rfl, rfl, rfl⟩
  · dsimp only
    split_ifs <;> exact ⟨by simp, by simp, rfl, rfl, rfl⟩

theorem reports_quiet (a : Agent) (codes : List String) {es : List Effect}
    (hes : ∀ e ∈ es, ∃ event accepted, e = .printerEvent event accepted) :
    Quiet a ({ a with faultsReported := codes }.log es) es := by
  refine ⟨rfl, fun e he => ?_, rfl, rfl, rfl⟩
  obtain ⟨event, accepted, rfl⟩ := hes e he
  trivial

theorem Published.quiet {now : Time} {a b : Agent} {r : Except Error Unit} {ms : List Message}
    (h : Published now a r b ms) : ∃ es, Quiet a b es := by
  obtain ⟨es, htrace, hes⟩ := h.trace
  exact ⟨es, htrace, hes, by rw [h.eq], by rw [h.eq], by rw [h.eq]⟩

theorem Polled.view {reply : DetailReply} {now later : Time} {a b : Agent} {r : Except Error Unit}
    (h : Polled reply now later a r b) : PollView later a r b := by
  cases h with
  | unread hread =>
    obtain ⟨es, h⟩ := hread.quiet
    exact .quiet h
  | unparsed hread =>
    obtain ⟨es, h⟩ := hread.quiet
    exact .quiet h
  | unpublished hread hpub =>
    obtain ⟨es, h⟩ := hread.quiet
    obtain ⟨es', h'⟩ := hpub.quiet
    exact .quiet ((h.trans (discovered_quiet _)).trans h')
  | @published c d ms codes fs e _ hread hpub hfs hserviced =>
    obtain ⟨es, h⟩ := hread.quiet
    obtain ⟨es', h'⟩ := hpub.quiet
    have hq := ((h.trans (discovered_quiet _)).trans h').trans (reports_quiet d codes hfs)
    cases hserviced with
    | waits _ => exact .quiet hq
    | drops _ _ _ => exact .drops hq
    | issues hpending _ _ _ _ hexec => exact .issues hq hpending hexec

end Agent

end FlashforgeObico
