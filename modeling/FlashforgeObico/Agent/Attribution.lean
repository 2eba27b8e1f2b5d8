import FlashforgeObico.Agent.Run

/-!
# Every call on the printer answers a request

Commands enter from Obico and from the phone console, wait on the queue, are retried, deferred and
issued again. Two invariants keep account of them. `Accounted`, of the trace alone: every execution
calls the printer at most `maxCommandAttempts` times, between its beginning and its end.
`Attributed`, of the agent: what was queued is what was executed from the queue followed by what
still waits there, and an execution that does not come from the queue is one of a pause that an
earlier execution of a pause deferred.
-/

namespace FlashforgeObico

open Py Trace

/-! ## What the trace says about executions -/

namespace Effect

/-- The execution that an effect is marked with. -/
def execution? : Effect → Option Execution
  | began x => some x
  | call x _ => some x
  | ignored x _ => some x
  | deferred x _ => some x
  | finished x => some x
  | _ => none

/-- The command that was queued, with the one who asked. -/
def queued? : Effect → Option (Source × Command)
  | queued source cmd => some (source, cmd)
  | _ => none

/-- The command of an execution that begins from the queue. -/
def taken? : Effect → Option Command
  | began x => if x.origin = .queued then some x.cmd else none
  | _ => none

/-- Whether an effect is a call for `x`. -/
def isCallOf (x : Execution) : Effect → Bool
  | call y _ => y = x
  | _ => false

/-- Whether an effect is a call with the command `cmd`. -/
def isCallWith (cmd : Command) : Effect → Bool
  | call x _ => x.cmd = cmd
  | _ => false

/-- Whether an effect begins an execution of `cmd`. -/
def isBeganWith (cmd : Command) : Effect → Bool
  | began x => x.cmd = cmd
  | _ => false

variable {e : Effect} {x y : Execution} {cmd : Command}

theorem call_of_isCallOf (h : e.isCallOf x = true) : ∃ acknowledged, e = .call x acknowledged := by
  cases e <;> simp_all [isCallOf]

theorem call_of_isCallWith (h : e.isCallWith cmd = true) :
    ∃ x acknowledged, e = .call x acknowledged ∧ x.cmd = cmd := by
  cases e <;> simp_all [isCallWith]

theorem began_of_isBeganWith (h : e.isBeganWith cmd = true) : ∃ x, e = .began x ∧ x.cmd = cmd := by
  cases e <;> simp_all [isBeganWith]

theorem began_of_isBegan (h : e.isBegan = true) : ∃ x, e = .began x := by
  cases e <;> simp_all [isBegan]

theorem began_of_taken? {c : Command} (h : e.taken? = some c) : ∃ x, e = .began x := by
  cases e <;> simp_all [taken?]

theorem OfExecution.mark (h : e.OfExecution x) (hy : e.execution? = some y) : y = x := by
  cases e <;> simp_all [OfExecution, execution?]

theorem OfExecution.queued?_eq (h : e.OfExecution x) : e.queued? = none := by
  cases e <;> simp_all [OfExecution, queued?]

end Effect

/-- The first and the last effect of an execution around the others. -/
def blockOf (x : Execution) (es : List Effect) : List Effect := .began x :: (es ++ [.finished x])

theorem countP_blockOf (p : Effect → Bool) (x : Execution) (es : List Effect) :
    (blockOf x es).countP p =
      (if p (.began x) then 1 else 0) + es.countP p + (if p (.finished x) then 1 else 0) := by
  rw [blockOf, List.countP_cons, List.countP_append, List.countP_singleton]
  omega

theorem mem_blockOf {x : Execution} {es : List Effect} {e : Effect} :
    e ∈ blockOf x es ↔ e = .began x ∨ e ∈ es ∨ e = .finished x := by
  simp [blockOf]

/-- A call lies between the beginning and the end of its execution. -/
def CallInside (pre : List Effect) (e : Effect) : Prop :=
  ∀ x acknowledged, e = .call x acknowledged → .began x ∈ pre ∧ .finished x ∉ pre

/-- The account of the executions and their calls. -/
structure Accounted (t : List Effect) : Prop where
  numbered : ∀ e ∈ t, ∀ x, e.execution? = some x → x.number ≤ t.countP Effect.isBegan
  inside : Along CallInside t
  calls : ∀ x, t.countP (Effect.isCallOf x) ≤ maxCommandAttempts
  total : ∀ cmd, t.countP (Effect.isCallWith cmd) ≤
    maxCommandAttempts * t.countP (Effect.isBeganWith cmd)

namespace Accounted

variable {t es : List Effect} {x : Execution}

theorem nil : Accounted [] := ⟨by simp, along_nil, by simp, by simp⟩

theorem countP_eq_zero {p : Effect → Bool} (h : ∀ e ∈ es, p e ≠ true) : es.countP p = 0 :=
  List.countP_eq_zero.mpr h

/-- Effects that belong to no execution leave the account alone. -/
theorem append (h : Accounted t) (hes : ∀ e ∈ es, e.execution? = none) : Accounted (t ++ es) := by
  have hbegan : es.countP Effect.isBegan = 0 := countP_eq_zero fun e he hb => by
    obtain ⟨x, rfl⟩ := Effect.began_of_isBegan hb
    cases hes _ he
  have hwith : ∀ cmd, es.countP (Effect.isBeganWith cmd) = 0 := fun cmd =>
    countP_eq_zero fun e he hb => by
    obtain ⟨x, rfl, -⟩ := Effect.began_of_isBeganWith hb
    cases hes _ he
  have hof : ∀ x, es.countP (Effect.isCallOf x) = 0 := fun x => countP_eq_zero fun e he hc => by
    obtain ⟨_, rfl⟩ := Effect.call_of_isCallOf hc
    cases hes _ he
  have hcalls : ∀ cmd, es.countP (Effect.isCallWith cmd) = 0 := fun cmd =>
    countP_eq_zero fun e he hc => by
    obtain ⟨_, _, rfl, -⟩ := Effect.call_of_isCallWith hc
    cases hes _ he
  refine ⟨?_, along_append.mpr ⟨h.inside, along_of_forall ?_⟩, ?_, ?_⟩
  · intro e he x hx
    rw [List.countP_append, hbegan]
    rcases List.mem_append.mp he with he | he
    · exact h.numbered e he x hx
    · rw [hes e he] at hx
      cases hx
  · rintro pre - e he x acknowledged rfl
    cases hes _ he
  · intro x
    rw [List.countP_append, hof]
    exact h.calls x
  · intro cmd
    rw [List.countP_append, List.countP_append, hcalls, hwith]
    exact h.total cmd

/-- The effects of a new execution are marked with it, and no earlier one is. -/
theorem fresh (h : Accounted t) (hx : x.number = t.countP Effect.isBegan + 1) {e : Effect}
    (he : e ∈ t) : e.execution? ≠ some x := by
  intro hex
  have := h.numbered e he x hex
  omega

variable (hes : ∀ e ∈ es, e.OfExecution x)
include hes

theorem countP_isBegan_block : (blockOf x es).countP Effect.isBegan = 1 := by
  have h0 : es.countP Effect.isBegan = 0 := countP_eq_zero fun e he hb => by
    obtain ⟨y, rfl⟩ := Effect.began_of_isBegan hb
    exact hes _ he
  rw [countP_blockOf, h0]
  rfl

theorem countP_isCallOf_block (hcalls : es.countP Effect.isCall ≤ maxCommandAttempts)
    (h : Accounted t)
    (hx : x.number = t.countP Effect.isBegan + 1) (y : Execution) :
    (t ++ blockOf x es).countP (Effect.isCallOf y) ≤ maxCommandAttempts := by
  rw [List.countP_append, countP_blockOf]
  by_cases hy : y = x
  · have h0 : t.countP (Effect.isCallOf y) = 0 := countP_eq_zero fun e he hc => by
      obtain ⟨_, rfl⟩ := Effect.call_of_isCallOf hc
      exact h.fresh hx he (by rw [hy]; rfl)
    have hle : es.countP (Effect.isCallOf y) ≤ es.countP Effect.isCall :=
      List.countP_mono_left fun e _ hc => by
        obtain ⟨_, rfl⟩ := Effect.call_of_isCallOf hc
        rfl
    simp only [h0, Effect.isCallOf, Bool.false_eq_true, if_false]
    omega
  · have h0 : es.countP (Effect.isCallOf y) = 0 := countP_eq_zero fun e he hc => by
      obtain ⟨_, rfl⟩ := Effect.call_of_isCallOf hc
      exact hy ((hes _ he).mark rfl)
    have := h.calls y
    simp only [h0, Effect.isCallOf, Bool.false_eq_true, if_false]
    omega

theorem countP_isCallWith_block (hcalls : es.countP Effect.isCall ≤ maxCommandAttempts)
    (h : Accounted t)
    (cmd : Command) : (t ++ blockOf x es).countP (Effect.isCallWith cmd) ≤
      maxCommandAttempts * (t ++ blockOf x es).countP (Effect.isBeganWith cmd) := by
  have htotal := h.total cmd
  have hbegan : (blockOf x es).countP (Effect.isBeganWith cmd) = if x.cmd = cmd then 1 else 0 := by
    have h0 : es.countP (Effect.isBeganWith cmd) = 0 := countP_eq_zero fun e he hb => by
      obtain ⟨y, rfl, -⟩ := Effect.began_of_isBeganWith hb
      exact hes _ he
    rw [countP_blockOf, h0]
    simp [Effect.isBeganWith]
  rw [List.countP_append, List.countP_append, hbegan, countP_blockOf, Nat.mul_add]
  simp only [Effect.isCallWith, Bool.false_eq_true, if_false]
  by_cases hc : x.cmd = cmd
  · have hle : es.countP (Effect.isCallWith cmd) ≤ es.countP Effect.isCall :=
      List.countP_mono_left fun e _ hcall => by
        obtain ⟨_, _, rfl, -⟩ := Effect.call_of_isCallWith hcall
        rfl
    rw [if_pos hc]
    omega
  · have h0 : es.countP (Effect.isCallWith cmd) = 0 := countP_eq_zero fun e he hcall => by
      obtain ⟨y, _, rfl, hy⟩ := Effect.call_of_isCallWith hcall
      exact hc ((hes _ he).mark rfl ▸ hy)
    rw [if_neg hc, h0]
    omega

/-- An execution goes on the account. -/
theorem block (h : Accounted t) (hx : x.number = t.countP Effect.isBegan + 1)
    (hcalls : es.countP Effect.isCall ≤ maxCommandAttempts) : Accounted (t ++ blockOf x es) := by
  refine ⟨?_, ?_, countP_isCallOf_block hes hcalls h hx, countP_isCallWith_block hes hcalls h⟩
  · intro e he y hy
    rw [List.countP_append, countP_isBegan_block hes]
    rcases List.mem_append.mp he with he | he
    · exact (h.numbered e he y hy).trans (Nat.le_succ _)
    · have hyx : y = x := by
        rcases mem_blockOf.mp he with rfl | he | rfl
        · exact (Option.some.inj hy).symm
        · exact (hes e he).mark hy
        · exact (Option.some.inj hy).symm
      rw [hyx, hx]
  · rw [blockOf, along_append, along_cons, along_snoc]
    refine ⟨h.inside, by simp [CallInside], along_of_forall ?_, by simp [CallInside]⟩
    rintro pre hpre e he y acknowledged rfl
    obtain rfl : y = x := (hes _ he).mark rfl
    refine ⟨by simp, ?_⟩
    simp only [List.mem_append, List.mem_cons, reduceCtorEq, false_or, not_or]
    exact ⟨fun hf => h.fresh hx hf rfl, fun hf => hes _ (hpre _ hf)⟩

end Accounted

/-! ## The invariant -/

/-- An execution of a pause that was queued, or that goes back to one over deferrals. -/
inductive PauseFrom (t : List Effect) : Execution → Prop
  /-- The pause was queued. -/
  | accepted {x} : .began x ∈ t → x.origin = .queued → x.cmd = .pause → PauseFrom t x
  /-- The pause was deferred by an execution of such a pause. -/
  | deferred {x y k} : .began x ∈ t → x.origin = .deferred k → x.cmd = .pause → .deferred y k ∈ t →
      PauseFrom t y → PauseFrom t x

theorem PauseFrom.mono {t u : List Effect} {x : Execution} (h : PauseFrom t x)
    (htu : ∀ e ∈ t, e ∈ u) : PauseFrom u x := by
  induction h with
  | accepted hb ho hc => exact .accepted (htu _ hb) ho hc
  | deferred hb ho hc hd _ ih => exact .deferred (htu _ hb) ho hc (htu _ hd) ih

namespace Agent

theorem Block.queued?_eq {x : Execution} {a b : Agent} {es : List Effect} (h : Block x a b es) :
    (blockOf x es).filterMap Effect.queued? = [] := by
  refine List.filterMap_eq_nil_iff.mpr fun e he => ?_
  rcases mem_blockOf.mp he with rfl | he | rfl
  · rfl
  · exact (h.ofExecution e he).queued?_eq
  · rfl

/-- An execution takes its own command only. -/
theorem Block.taken?_eq {x : Execution} {a b : Agent} {es : List Effect} (h : Block x a b es) :
    (blockOf x es).filterMap Effect.taken? = [Effect.began x].filterMap Effect.taken? := by
  have htaken : es.filterMap Effect.taken? = [] := List.filterMap_eq_nil_iff.mpr fun e he => by
    by_contra hne
    obtain ⟨c, hc⟩ := Option.ne_none_iff_exists'.mp hne
    obtain ⟨y, rfl⟩ := Effect.began_of_taken? hc
    exact h.ofExecution _ he
  rw [blockOf, ← List.singleton_append, List.filterMap_append, List.filterMap_append, htaken]
  simp [Effect.taken?]

theorem Quiet.queued?_eq {a b : Agent} {es : List Effect} (h : Quiet a b es) :
    es.filterMap Effect.queued? = [] := by
  refine List.filterMap_eq_nil_iff.mpr fun e he => ?_
  have := h.quiet e he
  cases e <;> simp_all [Effect.IsQuiet, Effect.queued?]

/-- The account of the queue, the pending pause and the executions. -/
structure Attributed (a : Agent) : Prop where
  accounted : Accounted a.trace
  pending : ∀ cmd, a.pendingCommand = some cmd →
    cmd = .pause ∧ ∃ y, .deferred y a.deferrals ∈ a.trace ∧ PauseFrom a.trace y
  queue : a.trace.filterMap Effect.taken? ++ a.commands =
    (a.trace.filterMap Effect.queued?).map Prod.snd
  origin : ∀ x, .began x ∈ a.trace → x.origin ≠ .queued → x.cmd = .pause
  pauses : ∀ x, .began x ∈ a.trace → x.cmd = .pause → PauseFrom a.trace x

namespace Attributed

variable {a b : Agent} {es : List Effect}

theorem initial (config : Config) (cameras : List Camera) (reserver : Option (List Camera)) :
    Attributed (Agent.initial config cameras reserver) := by
  refine ⟨.nil, ?_, rfl, ?_, ?_⟩ <;> simp [Agent.initial]

/-- The pending pause stays the one that was deferred last. -/
theorem pending_of_none (h : Attributed a) (htrace : b.trace = a.trace ++ es)
    (hes : ∀ e ∈ es, e.isDeferred = false)
    (hpending : b.pendingCommand = a.pendingCommand ∨ b.pendingCommand = none) (cmd : Command)
    (hcmd : b.pendingCommand = some cmd) :
    cmd = .pause ∧ ∃ y, .deferred y b.deferrals ∈ b.trace ∧ PauseFrom b.trace y := by
  have ha : a.pendingCommand = some cmd := by
    rcases hpending with hp | hp
    · exact hp.symm.trans hcmd
    · rw [hp] at hcmd
      cases hcmd
  have hdeferrals : b.deferrals = a.deferrals := by
    rw [deferrals, htrace, List.countP_append, countP_isDeferred_of_none hes,
      Nat.add_zero, deferrals]
  have hmono : ∀ e ∈ a.trace, e ∈ b.trace := fun e he => htrace ▸ List.mem_append_left _ he
  obtain ⟨rfl, y, hy, hfrom⟩ := h.pending cmd ha
  exact ⟨rfl, y, hmono _ (hdeferrals ▸ hy), hfrom.mono hmono⟩

/-- Effects that belong to no execution leave the account of the executions alone. -/
theorem append (h : Attributed a) (htrace : b.trace = a.trace ++ es)
    (hes : ∀ e ∈ es, e.execution? = none)
    (hpending : b.pendingCommand = a.pendingCommand ∨ b.pendingCommand = none)
    (hqueue : b.commands = a.commands ++ (es.filterMap Effect.queued?).map Prod.snd) :
    Attributed b := by
  have hdeferred : ∀ e ∈ es, e.isDeferred = false := by
    intro e he
    have := hes e he
    cases e <;> simp_all [Effect.execution?, Effect.isDeferred]
  have hbegan : ∀ x, .began x ∈ b.trace → .began x ∈ a.trace := by
    intro x hx
    rw [htrace] at hx
    refine (List.mem_append.mp hx).resolve_right fun he => ?_
    cases hes _ he
  refine ⟨htrace ▸ h.accounted.append hes, h.pending_of_none htrace hdeferred hpending, ?_, ?_, ?_⟩
  · have htaken : es.filterMap Effect.taken? = [] := List.filterMap_eq_nil_iff.mpr fun e he => by
      by_contra hne
      obtain ⟨c, hc⟩ := Option.ne_none_iff_exists'.mp hne
      obtain ⟨x, rfl⟩ := Effect.began_of_taken? hc
      cases hes _ he
    rw [htrace, List.filterMap_append, List.filterMap_append, htaken, List.append_nil, hqueue,
      List.map_append, ← h.queue, List.append_assoc]
  · exact fun x hx => h.origin x (hbegan x hx)
  · exact fun x hx hc =>
      (h.pauses x (hbegan x hx) hc).mono fun e he => htrace ▸ List.mem_append_left _ he

/-- An execution: one from the queue takes its command off it, and one of a pending pause goes back
to the execution that deferred it. -/
theorem block {c : Agent} {x : Execution} (h : Attributed a) (hb : Block x c b es)
    (htrace : c.trace = a.trace) (hnumber : x.number = a.executions + 1)
    (hpending : c.pendingCommand = a.pendingCommand ∨ c.pendingCommand = none)
    (hqueue : [Effect.began x].filterMap Effect.taken? ++ c.commands = a.commands)
    (horigin : x.origin ≠ .queued → x.cmd = .pause ∧
      ∃ k y, x.origin = .deferred k ∧ .deferred y k ∈ a.trace ∧ PauseFrom a.trace y) :
    Attributed b := by
  have hbt : b.trace = a.trace ++ blockOf x es := htrace ▸ hb.trace
  have hmono : ∀ e ∈ a.trace, e ∈ b.trace := fun e he => hbt ▸ List.mem_append_left _ he
  have hx : .began x ∈ b.trace := by simp [hbt, blockOf]
  have hbegan : ∀ y, .began y ∈ b.trace → .began y ∈ a.trace ∨ y = x := by
    intro y hy
    rw [hbt, List.mem_append, mem_blockOf] at hy
    rcases hy with hy | hy | hy | hy
    · exact .inl hy
    · exact .inr (Effect.began.inj hy)
    · exact absurd (hb.ofExecution _ hy) id
    · cases hy
  have hfrom : x.cmd = .pause → PauseFrom b.trace x := by
    intro hc
    by_cases ho : x.origin = .queued
    · exact .accepted hx ho hc
    · obtain ⟨-, k, y, hk, hy, hfrom⟩ := horigin ho
      exact .deferred hx hk hc (hmono _ hy) (hfrom.mono hmono)
  refine ⟨hbt ▸ h.accounted.block hb.ofExecution hnumber hb.calls, ?_, ?_, ?_, ?_⟩
  · rcases hb.pending with ⟨hp, hnone⟩ | ⟨hp, hdef⟩
    · refine h.pending_of_none hbt ?_ ?_
      · intro e he
        rcases mem_blockOf.mp he with rfl | he | rfl
        · rfl
        · exact hnone e he
        · rfl
      · rcases hp with hp | hp
        · exact hpending.imp hp.trans hp.trans
        · exact .inr hp
    · intro cmd hcmd
      obtain rfl : Command.pause = cmd := Option.some.inj (hp.symm.trans hcmd)
      refine ⟨rfl, x, ?_, hfrom (hb.ofExecution _ hdef).2⟩
      rw [hbt, List.mem_append, mem_blockOf]
      exact .inr (.inr (.inl hdef))
  · rw [hbt, List.filterMap_append, List.filterMap_append, hb.taken?_eq, hb.queued?_eq, hb.commands,
      List.append_assoc, hqueue, List.append_nil, h.queue]
  · intro y hy hne
    rcases hbegan y hy with hy | rfl
    · exact h.origin y hy hne
    · exact (horigin hne).1
  · intro y hy hc
    rcases hbegan y hy with hy | rfl
    · exact (h.pauses y hy hc).mono hmono
    · exact hfrom hc

theorem executes {x : Execution} {cmd : Command} {rest : List Command} {now : Time}
    {r : Except Error Unit} (h : Attributed a) (hc : a.commands = cmd :: rest)
    (hx : x = a.nextExecution .queued cmd) (he : Executed x now { a with commands := rest } r b) :
    Attributed b := by
  obtain ⟨es, hb⟩ := he.block
  subst hx
  refine h.block hb rfl rfl (.inl rfl) ?_ fun ho => absurd rfl ho
  rw [hc]
  rfl

theorem issues {x : Execution} {cmd : Command} {now : Time} {r : Except Error Unit}
    (h : Attributed a) (hp : a.pendingCommand = some cmd)
    (hx : x = a.nextExecution (.deferred a.deferrals) cmd)
    (he : Executed x now { a with pendingCommand := none } r b) : Attributed b := by
  obtain ⟨es, hb⟩ := he.block
  obtain ⟨rfl, y, hy, hfrom⟩ := h.pending cmd hp
  subst hx
  exact h.block hb rfl rfl (.inr rfl) rfl fun _ => ⟨rfl, _, y, rfl, hy, hfrom⟩

theorem quiet (h : Attributed a) (hq : Quiet a b es) : Attributed b := by
  have hnone : ∀ e ∈ es, e.execution? = none := by
    intro e he
    have := hq.quiet e he
    cases e <;> simp_all [Effect.IsQuiet, Effect.execution?]
  apply h.append hq.trace hnone (.inl hq.pending)
  rw [hq.queued?_eq, hq.commands]
  simp

theorem poll {now : Time} {r : Except Error Unit} (h : Attributed a) (hv : PollView now a r b) :
    Attributed b := by
  cases hv with
  | quiet hq => exact h.quiet hq
  | drops hq =>
    exact (h.quiet hq).append rfl (by simp [Effect.execution?]) (.inr rfl)
      (by simp [Effect.queued?, log])
  | issues hq hp he => exact (h.quiet hq).issues hp rfl he

theorem queues (h : Attributed a) (source : Source) (cmds : List Command) (viewing : Bool) :
    Attributed ({ a with viewing }.enqueueAll source cmds) := by
  refine h.append rfl ?_ (.inl rfl) ?_
  · intro e he
    obtain ⟨cmd, -, rfl⟩ := List.mem_map.mp he
    rfl
  · have hq : (cmds.map (Effect.queued source)).filterMap Effect.queued? =
      cmds.map (source, ·) := by
      rw [List.filterMap_map]
      exact congrFun (List.filterMap_eq_map (f := fun cmd => (source, cmd))) cmds
    simp [hq, enqueueAll, log, Function.comp_def]

/-- Every step keeps the account. -/
theorem step (h : Attributed a) (l : Label) : Attributed (a.step l) := by
  have hs := stepped a l
  generalize a.step l = b at hs ⊢
  cases hs with
  | exited _ => exact h
  | poll hp =>
    obtain ⟨haccounted, hpending, hqueue, horigin, hpauses⟩ := h.poll hp.view
    exact ⟨haccounted, hpending, hqueue, horigin, hpauses⟩
  | queues _ => exact h.queues _ _ _
  | executes hc he => exact h.executes hc rfl he
  | idle _ => exact h

theorem run (h : Attributed a) (ls : List Label) : Attributed (a.run ls) :=
  run_invariant h (fun _ l ha => ha.step l) ls

/-- Only a pause is executed without having been queued. -/
theorem countP_isBeganWith (h : Attributed a) {cmd : Command} (hcmd : cmd ≠ .pause) :
    a.trace.countP (Effect.isBeganWith cmd) ≤
      ((a.trace.filterMap Effect.queued?).map Prod.snd).count cmd := by
  have htaken : a.trace.countP (Effect.isBeganWith cmd) ≤
      (a.trace.filterMap Effect.taken?).count cmd := by
    rw [List.count, List.countP_filterMap]
    refine List.countP_mono_left fun e he hb => ?_
    obtain ⟨x, rfl, rfl⟩ := Effect.began_of_isBeganWith hb
    have ho : x.origin = .queued := by
      by_contra ho
      exact hcmd (h.origin x he ho)
    simp [Effect.taken?, ho]
  apply htaken.trans
  rw [← h.queue, List.count_append]
  exact Nat.le_add_right _ _

end Attributed

/-! ## What was asked for -/

end Agent

namespace Label

/-- The entries of Obico's `commands` with the command `cmd`. -/
def obicoEntries (cmd : Command) : Label → ℕ
  | .message m => (entriesOf m).countP fun entry => Agent.commandOf entry = some cmd
  | _ => 0

/-- The requests of the console for the command `cmd`. -/
def consoleRequests (cmd : Command) : Label → ℕ
  | .request text => if text = cmd.name then 1 else 0
  | _ => 0

theorem count_asks (cmd : Command) (l : Label) :
    (l.asks.map Prod.snd).count cmd =
      l.obicoEntries cmd + if cmd = .cancel then 0 else l.consoleRequests cmd := by
  cases l with
  | poll _ _ _ _ => simp [asks, obicoEntries, consoleRequests]
  | execute _ _ => simp [asks, obicoEntries, consoleRequests]
  | message m =>
    simp only [asks, obicoEntries, consoleRequests, ite_self, Nat.add_zero, List.map_map]
    rw [show Prod.snd ∘ (Source.obico, ·) = (id : Command → Command) from rfl,
      List.map_id, List.count, List.countP_filterMap]
    refine List.countP_congr fun entry _ => ?_
    cases Agent.commandOf entry <;> simp
  | request text =>
    simp only [asks, obicoEntries, consoleRequests, Nat.zero_add]
    split_ifs <;> cases cmd <;> simp_all [Command.name]

end Label

namespace Agent

/-- A step queues at most what it is asked to. -/
theorem queued_step (a : Agent) (l : Label) :
    ∃ es, (a.step l).trace = a.trace ++ es ∧ (es.filterMap Effect.queued?).Sublist l.asks := by
  have hs := stepped a l
  generalize a.step l = b at hs ⊢
  cases hs with
  | exited _ => exact ⟨[], by simp, by simp⟩
  | poll hp =>
    cases hp.view with
    | quiet hq => exact ⟨_, hq.trace, by simp [hq.queued?_eq]⟩
    | @drops c es reason hq =>
      refine ⟨es ++ [.dropped reason], by simp [hq.trace], ?_⟩
      rw [List.filterMap_append, hq.queued?_eq]
      exact List.nil_sublist _
    | issues hq _ he =>
      obtain ⟨es, hb⟩ := he.block
      refine ⟨_, by rw [hb.trace, hq.trace, List.append_assoc], ?_⟩
      rw [List.filterMap_append, hq.queued?_eq, List.nil_append]
      exact hb.queued?_eq ▸ List.nil_sublist _
  | @queues _ source cmds _ hasks =>
    refine ⟨_, rfl, ?_⟩
    rw [List.filterMap_map, hasks]
    have hmap := congrFun (List.filterMap_eq_map (f := fun cmd => (source, cmd))) cmds
    exact hmap.symm ▸ List.Sublist.refl _
  | executes _ he =>
    obtain ⟨es, hb⟩ := he.block
    exact ⟨_, hb.trace, hb.queued?_eq ▸ List.nil_sublist _⟩
  | idle _ => exact ⟨[], by simp, by simp⟩

/-- What was queued in a run is, in order, part of what its steps asked to queue. -/
theorem queued_run {a : Agent} (h : a.trace = []) (ls : List Label) :
    ((a.run ls).trace.filterMap Effect.queued?).Sublist (ls.flatMap Label.asks) := by
  refine run_history
    (I := fun ls a => (a.trace.filterMap Effect.queued?).Sublist (ls.flatMap Label.asks))
    (by simp [h]) ?_ ls
  intro ls a l ha
  obtain ⟨es, htrace, hes⟩ := queued_step a l
  rw [htrace, List.filterMap_append, List.flatMap_append]
  exact ha.append (by simpa using hes)

theorem count_queued_le {a : Agent} (h : a.trace = []) (ls : List Label) (cmd : Command) :
    (((a.run ls).trace.filterMap Effect.queued?).map Prod.snd).count cmd ≤
      (ls.map fun l => (l.asks.map Prod.snd).count cmd).sum := by
  apply (((queued_run h ls).map Prod.snd).count_le cmd).trans
  rw [List.map_flatMap, List.count_flatMap]
  rfl

/-- **Every call on the printer answers a request.** In every run, the pending command is a pause or
none; the printer is called to cancel at most three times for each `cancel` entry of Obico, and to
resume at most three times for each `resume` of Obico or of the console; every call lies inside an
execution, three for each at most; the commands executed from the queue, followed by those that
wait there, are the ones that were queued, which were asked for; and an execution that did not come
from the queue is one of a pause, which goes back to a queued pause over deferrals. -/
theorem calls_answer_requests (config : Config) (cameras : List Camera)
    (reserver : Option (List Camera)) (ls : List Label) :
    let a := (initial config cameras reserver).run ls
    (a.pendingCommand = none ∨ a.pendingCommand = some .pause) ∧
    a.trace.countP (Effect.isCallWith .cancel) ≤ 3 * (ls.map (Label.obicoEntries .cancel)).sum ∧
    a.trace.countP (Effect.isCallWith .resume) ≤
      3 * (ls.map fun l => l.obicoEntries .resume + l.consoleRequests .resume).sum ∧
    Along CallInside a.trace ∧
    (∀ x, a.trace.countP (Effect.isCallOf x) ≤ 3) ∧
    a.trace.filterMap Effect.taken? ++ a.commands =
      (a.trace.filterMap Effect.queued?).map Prod.snd ∧
    (a.trace.filterMap Effect.queued?).Sublist (ls.flatMap Label.asks) ∧
    (∀ x, .began x ∈ a.trace → x.origin = .queued ∨ x.cmd = .pause) ∧
    ∀ x, .began x ∈ a.trace → x.cmd = .pause → PauseFrom a.trace x := by
  intro a
  have h : Attributed a := (Attributed.initial config cameras reserver).run ls
  have hcount : ∀ cmd : Command, cmd ≠ .pause → a.trace.countP (Effect.isCallWith cmd) ≤
      3 * (ls.map fun l => (l.asks.map Prod.snd).count cmd).sum := fun cmd hcmd =>
    (h.accounted.total cmd).trans (Nat.mul_le_mul_left 3
      ((h.countP_isBeganWith hcmd).trans (count_queued_le rfl ls cmd)))
  refine ⟨?_, ?_, ?_, h.accounted.inside, h.accounted.calls, h.queue, queued_run rfl ls,
    ?_, h.pauses⟩
  · rcases hp : a.pendingCommand with _ | cmd
    · exact .inl rfl
    · exact .inr (congrArg some (h.pending cmd hp).1)
  · simpa [Label.count_asks] using hcount .cancel (by decide)
  · simpa [Label.count_asks] using hcount .resume (by decide)
  · intro x hx
    by_cases ho : x.origin = .queued
    · exact .inl ho
    · exact .inr (h.origin x hx ho)

end Agent

end FlashforgeObico
