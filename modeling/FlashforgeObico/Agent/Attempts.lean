import FlashforgeObico.Agent.Unfamiliar

/-!
# The attempts of one execution

`Attempted` says which effects the attempts of an execution have, and not which answers lead to
them. Here the answers are taken along: an attempt is undecided when the printer refused it, or when
none of the replies to its reads settles the matter, and then the next one is made. `Concluded`
lists how the attempts end, with their effects, and `forwarded` what an execution that attempts its
command does besides.
-/

namespace FlashforgeObico

open Py Trace

/-! ## Answers -/

/-- The snapshot that a reply shows. -/
def DetailReply.shown? : DetailReply → Option PrinterSnapshot
  | .error _ => none
  | .ok d => (parseSnapshot d).toOption

namespace DetailReply

variable {cmd : Command} {reply : DetailReply} {s : PrinterSnapshot}

theorem shown?_eq_some_iff :
    reply.shown? = some s ↔ ∃ d, reply = .ok d ∧ parseSnapshot d = .ok s := by
  rcases reply with e | d
  · simp [shown?]
  · rcases hd : parseSnapshot d with e | s' <;> simp [shown?, hd, Except.toOption]

/-- A reply that settles nothing shows the job, and not what the command asks for. -/
theorem of_not_settles (h : ¬ Settles cmd reply) (hs : reply.shown? = some s) :
    ¬ Expected cmd s ∧ s.HasJob := by
  obtain ⟨d, rfl, hd⟩ := shown?_eq_some_iff.mp hs
  rwa [settles_ok hd, not_or, not_not] at h

end DetailReply

namespace Answers

/-- The replies to the reads of an attempt; there are none when the printer refused it. -/
def window (answers : Answers) (n : ℕ) : List DetailReply :=
  match answers.send n with
  | .error _ => []
  | .ok _ => Agent.replies answers n

/-- An attempt that leaves open whether the command took. -/
def Undecided (answers : Answers) (cmd : Command) (n : ℕ) : Prop :=
  ∀ reply ∈ answers.window n, ¬ DetailReply.Settles cmd reply

/-- The attempts before the `n`-th are undecided, so that it is made. -/
def Reaches (answers : Answers) (cmd : Command) (n : ℕ) : Prop :=
  ∀ m, 1 ≤ m → m < n → answers.Undecided cmd m

variable {answers : Answers} {cmd : Command} {n : ℕ}

theorem reaches_one : answers.Reaches cmd 1 := fun m h₁ h₂ => by omega

theorem Reaches.succ (h : answers.Reaches cmd n) (hn : answers.Undecided cmd n) :
    answers.Reaches cmd (n + 1) := by
  intro m h₁ h₂
  rcases Nat.lt_succ_iff_lt_or_eq.mp h₂ with hlt | rfl
  · exact h m h₁ hlt
  · exact hn

theorem Reaches.mono {m : ℕ} (h : answers.Reaches cmd n) (hmn : m ≤ n) : answers.Reaches cmd m :=
  fun k h₁ h₂ => h k h₁ (h₂.trans_le hmn)

end Answers

namespace Agent

/-! ## Reading back -/

/-- The effects of some reads. -/
def readsOf (rs : List DetailReply) : List Effect := rs.map fun reply => .detail reply.shown?

/-- The agent after some effects of its attempts. -/
def after (a : Agent) (es : List Effect) : Agent :=
  { a with snapshot := (lastRead es).or a.snapshot, trace := a.trace ++ es }

theorem after_nil (a : Agent) : a.after [] = a := by simp [after, lastRead, lastOf]

theorem after_after (a : Agent) (es es' : List Effect) :
    (a.after es).after es' = a.after (es ++ es') := by
  simp [after, lastRead, lastOf_append, Option.or_assoc]

theorem log_eq_after (a : Agent) {e : Effect} (h : e.read? = none) : a.log [e] = a.after [e] := by
  simp [after, log, lastRead, lastOf, h]

theorem read_eq_after (a : Agent) (s : PrinterSnapshot) :
    { a with snapshot := some s }.log [.detail (some s)] = a.after [.detail (some s)] := by
  simp [after, log, lastRead, lastOf, Effect.read?]

/-- A read-back that nothing settles goes through all replies. -/
theorem readBack_undecided {cmd : Command} {rs : List DetailReply}
    (h : ∀ reply ∈ rs, ¬ DetailReply.Settles cmd reply) (a : Agent) :
    readBack cmd rs a = (.ok .notTaken, a.after (readsOf rs)) := by
  induction rs generalizing a with
  | nil => rw [readsOf, List.map_nil, after_nil]; rfl
  | cons reply rs ih =>
    obtain ⟨hreply, hrs⟩ := List.forall_mem_cons.mp h
    rw [readBack]
    rcases requestDetail_cases a reply with ⟨e, rfl, hr⟩ | ⟨d, e, rfl, hd, hr⟩ | ⟨d, s, rfl, hd, hr⟩
    · rw [Procedure.bind_of_ok hr]
      refine (ih hrs (a.log [.detail none])).trans ?_
      rw [log_eq_after _ rfl, after_after]
      rfl
    · exact absurd ⟨d, rfl, fun s hs => by rw [hd] at hs; cases hs⟩ hreply
    · obtain ⟨hexpected, hjob⟩ := DetailReply.of_not_settles hreply
        (DetailReply.shown?_eq_some_iff.mpr ⟨d, rfl, hd⟩)
      rw [Procedure.bind_of_ok hr, read_eq_after]
      dsimp only
      rw [if_neg hexpected, if_neg fun hc => hc.2 hjob, ih hrs, after_after]
      simp [readsOf, DetailReply.shown?, hd, Except.toOption]

/-- A read-back that a reply settles ends at it. -/
theorem readBack_settled {cmd : Command} {rs : List DetailReply}
    (h : ∃ reply ∈ rs, DetailReply.Settles cmd reply) (a : Agent) :
    (readBack cmd rs a).1 ≠ .ok .notTaken ∧
      ∃ read, (readBack cmd rs a).2 = a.after (readsOf read) := by
  induction rs generalizing a with
  | nil => simp at h
  | cons reply rs ih =>
    rw [readBack]
    rcases requestDetail_cases a reply with ⟨e, rfl, hr⟩ | ⟨d, e, rfl, hd, hr⟩ | ⟨d, s, rfl, hd, hr⟩
    · have hrs : ∃ reply ∈ rs, DetailReply.Settles cmd reply := by
        simpa [DetailReply.not_settles_error] using h
      obtain ⟨hne, read, hread⟩ := ih hrs (a.log [.detail none])
      rw [Procedure.bind_of_ok hr]
      refine ⟨hne, .error e :: read, hread.trans ?_⟩
      rw [log_eq_after _ rfl, after_after]
      rfl
    · rw [Procedure.bind_of_error hr]
      exact ⟨by simp, [], (after_nil a).symm⟩
    · have hread : { a with snapshot := some s }.log [.detail (some s)] =
          a.after (readsOf [.ok d]) := by
        rw [read_eq_after]
        simp [readsOf, DetailReply.shown?, hd, Except.toOption]
      rw [Procedure.bind_of_ok hr, hread]
      dsimp only
      split_ifs with hexpected hover
      · exact ⟨by simp [Procedure.pure_apply], [.ok d], rfl⟩
      · exact ⟨by simp [Procedure.pure_apply], [.ok d], rfl⟩
      · have hreply : ¬ DetailReply.Settles cmd (.ok d) := by
          rw [DetailReply.settles_ok hd]
          cases cmd <;> simp_all [Expected]
        have hrs : ∃ reply ∈ rs, DetailReply.Settles cmd reply := by simpa [hreply] using h
        obtain ⟨hne, read, hread'⟩ := ih hrs (a.after (readsOf [.ok d]))
        refine ⟨hne, .ok d :: read, hread'.trans ?_⟩
        rw [after_after]
        rfl

/-! ## The attempts -/

/-- The effects of an attempt of which all replies are read. -/
def tried (x : Execution) (answers : Answers) (n : ℕ) : List Effect :=
  .call x (answers.send n).isOk :: readsOf (answers.window n)

/-- The effects of the first attempts. -/
def triedTo (x : Execution) (answers : Answers) (n : ℕ) : List Effect :=
  (List.range' 1 n).flatMap (tried x answers)

theorem triedTo_succ (x : Execution) (answers : Answers) (n : ℕ) :
    triedTo x answers (n + 1) = triedTo x answers n ++ tried x answers (n + 1) := by
  rw [triedTo, List.range'_concat, List.flatMap_append]
  simp [triedTo, Nat.add_comm]

/-- How the attempts end, and their effects. -/
inductive Concluded (x : Execution) (answers : Answers) : Except Error Outcome → List Effect → Prop
  /-- A reply to the reads of an attempt settles the matter. -/
  | settled {n read r} : n < maxCommandAttempts → answers.Reaches x.cmd (n + 1) →
      answers.send (n + 1) = .ok () → (∃ reply ∈ answers.window (n + 1), reply.Settles x.cmd) →
      r ≠ .ok .notTaken →
      Concluded x answers r (triedTo x answers n ++ .call x true :: readsOf read)
  /-- The printer acknowledged the last attempt, and it is undecided too. -/
  | undecided : answers.Reaches x.cmd (maxCommandAttempts + 1) →
      answers.send maxCommandAttempts = .ok () →
      Concluded x answers (.ok .notTaken) (triedTo x answers maxCommandAttempts)
  /-- The printer refused the last attempt. -/
  | refused {e} : answers.Reaches x.cmd maxCommandAttempts →
      answers.send maxCommandAttempts = .error e →
      Concluded x answers (.ok .notTaken) (triedTo x answers maxCommandAttempts ++
        [.printerEvent (failedEvent x.cmd e) (answers.accepts (failedEvent x.cmd e))])

section Attempt

variable {x : Execution} {answers : Answers} {n : ℕ}

theorem tried_of_error {e : FlashforgeError} (h : answers.send n = .error e) :
    tried x answers n = [.call x false] := by
  simp [tried, Answers.window, readsOf, h, Except.isOk, Except.toBool]

theorem tried_of_ok (h : answers.send n = .ok ()) :
    tried x answers n = .call x true :: readsOf (replies answers n) := by
  simp [tried, Answers.window, h, Except.isOk, Except.toBool]

theorem attempts_refused {e : FlashforgeError} (h : answers.send n = .error e)
    (hn : n ≠ maxCommandAttempts) (ns : List ℕ) (a : Agent) :
    attempts x answers (n :: ns) a = attempts x answers ns (a.after (tried x answers n)) := by
  rw [tried_of_error h, ← log_eq_after _ rfl]
  simp only [attempts, h, if_neg hn]
  rfl

theorem attempts_refused_last {e : FlashforgeError}
    (h : answers.send maxCommandAttempts = .error e) (ns : List ℕ) (a : Agent) :
    attempts x answers (maxCommandAttempts :: ns) a =
      (.ok .notTaken, a.after (tried x answers maxCommandAttempts ++
        [.printerEvent (failedEvent x.cmd e) (answers.accepts (failedEvent x.cmd e))])) := by
  rw [tried_of_error h, ← after_after, ← log_eq_after _ rfl, ← log_eq_after _ rfl]
  simp only [attempts, h, if_pos]
  rfl

theorem attempts_undecided (h : answers.send n = .ok ()) (hn : answers.Undecided x.cmd n)
    (ns : List ℕ) (a : Agent) :
    attempts x answers (n :: ns) a = attempts x answers ns (a.after (tried x answers n)) := by
  have hreplies : ∀ reply ∈ replies answers n, ¬ reply.Settles x.cmd := by
    simpa [Answers.Undecided, Answers.window, h] using hn
  have hread := readBack_undecided hreplies (a.after [.call x true])
  rw [after_after] at hread
  rw [tried_of_ok h]
  simp only [attempts, h]
  rw [emit_bind, log_eq_after _ rfl, Procedure.bind_of_ok hread]
  rfl

theorem attempts_settled (h : answers.send n = .ok ())
    (hn : ∃ reply ∈ answers.window n, reply.Settles x.cmd) (a : Agent) :
    ∃ r read, r ≠ .ok .notTaken ∧ ∀ ns,
      attempts x answers (n :: ns) a = (r, a.after (.call x true :: readsOf read)) := by
  have hreplies : ∃ reply ∈ replies answers n, reply.Settles x.cmd := by
    simpa [Answers.window, h] using hn
  obtain ⟨hne, read, hread⟩ := readBack_settled hreplies (a.after [.call x true])
  rw [after_after] at hread
  rcases hr : readBack x.cmd (replies answers n) (a.after [.call x true]) with ⟨e | outcome, b⟩ <;>
    rw [hr] at hne hread <;> obtain rfl : b = _ := hread
  · refine ⟨.error e, read, by simp, fun ns => ?_⟩
    simp only [attempts, h]
    rw [emit_bind, log_eq_after _ rfl, Procedure.bind_of_error hr]
    rfl
  · have hout : outcome ≠ .notTaken := by simpa using hne
    refine ⟨.ok outcome, read, hne, fun ns => ?_⟩
    simp only [attempts, h]
    rw [emit_bind, log_eq_after _ rfl, Procedure.bind_of_ok hr, if_pos hout]
    rfl

end Attempt

/-- An attempt that is made concludes the attempts, or is undecided. -/
theorem attempt_cases (x : Execution) (answers : Answers) (a : Agent) {n : ℕ}
    (hn : n < maxCommandAttempts) (hreaches : answers.Reaches x.cmd (n + 1)) :
    (∃ r es, Concluded x answers r es ∧ ∀ ns,
        attempts x answers ((n + 1) :: ns) (a.after (triedTo x answers n)) = (r, a.after es)) ∨
      (answers.Reaches x.cmd (n + 2) ∧
        (n + 1 = maxCommandAttempts → answers.send maxCommandAttempts = .ok ()) ∧ ∀ ns,
          attempts x answers ((n + 1) :: ns) (a.after (triedTo x answers n)) =
            attempts x answers ns (a.after (triedTo x answers (n + 1)))) := by
  rcases hsend : answers.send (n + 1) with e | ⟨⟩
  · by_cases hlast : n + 1 = maxCommandAttempts
    · rw [hlast] at hsend hreaches
      refine .inl ⟨_, _, .refused hreaches hsend, fun ns => ?_⟩
      rw [hlast, attempts_refused_last hsend, after_after, ← hlast, triedTo_succ, List.append_assoc]
    · have hopen : answers.Undecided x.cmd (n + 1) := by
        simp [Answers.Undecided, Answers.window, hsend]
      refine .inr ⟨hreaches.succ hopen, fun h => absurd h hlast, fun ns => ?_⟩
      rw [attempts_refused hsend hlast, after_after, triedTo_succ]
  · by_cases hopen : answers.Undecided x.cmd (n + 1)
    · refine .inr ⟨hreaches.succ hopen, fun h => h ▸ hsend, fun ns => ?_⟩
      rw [attempts_undecided hsend hopen, after_after, triedTo_succ]
    · have hsettles : ∃ reply ∈ answers.window (n + 1), reply.Settles x.cmd := by
        simpa [Answers.Undecided] using hopen
      obtain ⟨r, read, hr, hattempt⟩ := attempts_settled hsend hsettles
        (a.after (triedTo x answers n))
      refine .inl ⟨r, triedTo x answers n ++ .call x true :: readsOf read,
        .settled hn hreaches hsend hsettles hr, fun ns => ?_⟩
      rw [hattempt, after_after]

/-- The attempts from one that is made on. -/
theorem attempts_concluded (x : Execution) (answers : Answers) (a : Agent) {n k : ℕ}
    (hnk : n + (k + 1) = maxCommandAttempts) (hn : answers.Reaches x.cmd (n + 1)) :
    ∃ r es, Concluded x answers r es ∧
      attempts x answers (List.range' (n + 1) (k + 1)) (a.after (triedTo x answers n)) =
        (r, a.after es) := by
  induction k generalizing n with
  | zero =>
    rcases attempt_cases x answers a (by omega) hn with ⟨r, es, hes, h⟩ | ⟨hnext, hsend, h⟩
    · exact ⟨r, es, hes, h _⟩
    · have hlast : n + 1 = maxCommandAttempts := hnk
      refine ⟨_, _, .undecided (hlast ▸ hnext) (hsend hlast), (h []).trans ?_⟩
      rw [hlast]
      rfl
  | succ k ih =>
    rw [List.range'_succ]
    rcases attempt_cases x answers a (by omega) hn with ⟨r, es, hes, h⟩ | ⟨hnext, -, h⟩
    · exact ⟨r, es, hes, h _⟩
    · obtain ⟨r, es, hes, hrest⟩ := ih (n := n + 1) (by omega) hnext
      exact ⟨r, es, hes, (h _).trans hrest⟩

/-- **How the attempts of an execution end.** -/
theorem attemptCommand_concluded (x : Execution) (answers : Answers) (a : Agent) :
    ∃ r es, Concluded x answers r es ∧ attemptCommand x answers a = (r, a.after es) := by
  obtain ⟨r, es, hes, h⟩ := attempts_concluded x answers a (n := 0) (k := 2) rfl Answers.reaches_one
  refine ⟨r, es, hes, ?_⟩
  rw [show triedTo x answers 0 = [] from rfl, after_nil] at h
  exact h

/-! ## The rest of the execution -/

end Agent

/-- An effect that is no call or read of the printer, and no printer event. -/
def Effect.IsAside : Effect → Prop
  | .call _ _ | .detail _ | .printerEvent _ _ => False
  | _ => True

namespace Agent

/-- What Obico is told about the end of the attempts. -/
def told (x : Execution) (accepts : PrinterEvent → Bool) (b : Agent) :
    Except Error Outcome → List Effect
  | .ok .notTaken =>
    if b.DefersPause x.cmd then
      [.deferred x (b.deferrals + 1), .printerEvent deferredEvent (accepts deferredEvent)]
    else
      [.printerEvent (didNotTakeEvent x.cmd b.snapshot)
        (accepts (didNotTakeEvent x.cmd b.snapshot))]
  | _ => []

/-- The pending command after the attempts. -/
def pendingAfter (x : Execution) (b : Agent) : Except Error Outcome → Option Command
  | .ok .notTaken => if b.DefersPause x.cmd then some .pause else b.pendingCommand
  | _ => b.pendingCommand

theorem settle_eq (x : Execution) (accepts : PrinterEvent → Bool) (outcome : Outcome) (b : Agent) :
    settle x accepts outcome b = (.ok (),
      { b with pendingCommand := pendingAfter x b (.ok outcome) }.log
        (told x accepts b (.ok outcome))) := by
  rw [settle, Procedure.gets_bind]
  cases outcome with
  | taken => simp [told, pendingAfter, Procedure.pure_apply]
  | jobOver => simp [told, pendingAfter, Procedure.pure_apply]
  | notTaken =>
    simp only [told, pendingAfter, id, reduceCtorEq, or_self, if_false]
    split_ifs
    · simp [Procedure.bind_apply, Procedure.modify, emit, postPrinterEvent]
    · rfl

theorem Published.asides {now : Time} {a b : Agent} {r : Except Error Unit} {ms : List Message}
    (h : Published now a r b ms) :
    ∃ post, b.trace = a.trace ++ post ∧ (∀ e ∈ post, e.IsAside) ∧
      b.pendingCommand = a.pendingCommand := by
  refine ⟨.observed a.snapshot now (a.observed now).2 ::
    ms.map fun m => .sent m (a.observed now).1, by rw [h.eq], ?_, by rw [h.eq]⟩
  intro e he
  rcases List.mem_cons.mp he with rfl | he
  · trivial
  · obtain ⟨m, -, rfl⟩ := List.mem_map.mp he
    trivial

theorem begun_asides (x : Execution) (a : Agent) :
    ∃ pre, (begun x a).trace = a.trace ++ pre ∧ ∀ e ∈ pre, e.IsAside := by
  obtain ⟨ds, hb, hds⟩ := begun_spec x a
  refine ⟨.began x :: ds, by rw [hb], fun e he => ?_⟩
  rcases List.mem_cons.mp he with rfl | he
  · trivial
  · obtain ⟨reason, rfl⟩ := hds e he
    trivial

/-- The last part of an execution that attempts its command. -/
theorem executeCommand_of_forwards {a : Agent} {cmd : Command} (h : a.Forwards cmd)
    (origin : Origin) (answers : Answers) (now : Time) :
    let x := a.nextExecution origin cmd
    executeCommand origin cmd answers now a =
      Procedure.ensuring (fun a => a.log [.finished x])
        (attemptCommand x answers >>= fun outcome =>
          settle x answers.accepts outcome >>= fun _ => publish now) (begun x a) := by
  intro x
  obtain ⟨s, hs, hj, ht⟩ := h
  have hsnap : Procedure.gets snapshot (begun x a) =
      ((.ok (some s), begun x a) : Except Error _ × Agent) := by
    rw [← hs, ← begun_snapshot x a]
    rfl
  have ht' : ¬ AlreadyThere (a.nextExecution origin cmd).cmd s := ht
  rw [executeCommand_eq, executeLocked, Procedure.bind_of_ok (dropPending_apply x a),
    Procedure.bind_of_ok hsnap]
  simp only [hj, not_true_eq_false, if_false, ht']
  rfl

/-- **What an execution does that attempts its command**, around the effects of its attempts. -/
theorem forwarded {a : Agent} {cmd : Command} (h : a.Forwards cmd) (origin : Origin)
    (answers : Answers) (now : Time) :
    let x := a.nextExecution origin cmd
    ∃ r mid pre post, Concluded x answers r mid ∧
      effectsOf (executeCommand origin cmd answers now) a =
        pre ++ (mid ++ (told x answers.accepts ((begun x a).after mid) r ++ post)) ∧
      (∀ e ∈ pre, e.IsAside) ∧ (∀ e ∈ post, e.IsAside) ∧
      (executeCommand origin cmd answers now a).2.pendingCommand =
        pendingAfter x ((begun x a).after mid) r := by
  intro x
  obtain ⟨r, mid, hmid, hattempts⟩ := attemptCommand_concluded x answers (begun x a)
  obtain ⟨pre, hpre, hasides⟩ := begun_asides x a
  have hafter : ((begun x a).after mid).trace = a.trace ++ (pre ++ mid) := by
    simp [after, hpre]
  have heffects {c : Agent} {es : List Effect} (hc : c.trace = a.trace ++ es) :
      c.trace.drop a.trace.length = es := by rw [hc, List.drop_left]
  rw [effectsOf, executeCommand_of_forwards h, Procedure.ensuring]
  rcases r with e | outcome
  · rw [Procedure.bind_of_error hattempts]
    refine ⟨.error e, mid, pre, [.finished x], hmid, heffects ?_, hasides, ?_, rfl⟩
    · rw [log_trace, hafter]
      simp [told, x]
    · simp [Effect.IsAside]
  · obtain ⟨ms, hp⟩ := published ({ (begun x a).after mid with
      pendingCommand := pendingAfter x ((begun x a).after mid) (.ok outcome) }.log
        (told x answers.accepts ((begun x a).after mid) (.ok outcome))) now
    obtain ⟨post, htrace, hpost, hpending⟩ := hp.asides
    rw [Procedure.bind_of_ok hattempts,
      Procedure.bind_of_ok (settle_eq x answers.accepts outcome _)]
    refine ⟨.ok outcome, mid, pre, post ++ [.finished x], hmid, heffects ?_, hasides, ?_, hpending⟩
    · rw [log_trace, htrace, log_trace, hafter]
      simp [x]
    · intro e he
      rcases List.mem_append.mp he with he | he
      · exact hpost e he
      · obtain rfl := List.mem_singleton.mp he
        trivial

/-- An execution that does not attempt its command asks nothing of the printer. -/
theorem not_forwarded {a : Agent} {cmd : Command} (h : ¬ a.Forwards cmd) (origin : Origin)
    (answers : Answers) (now : Time) :
    ∀ e ∈ effectsOf (executeCommand origin cmd answers now) a, e.IsAside := by
  have hexec := executed origin cmd answers now a
  obtain ⟨pre, hpre, hasides⟩ := begun_asides (a.nextExecution origin cmd) a
  rw [effectsOf]
  generalize executeCommand origin cmd answers now a = r at hexec ⊢
  obtain ⟨r, b⟩ := r
  cases hexec with
  | @ignored reason hi =>
    dsimp only [log]
    rw [hpre, List.append_assoc, List.drop_left]
    refine List.forall_mem_append.mpr ⟨hasides, ?_⟩
    simp [Effect.IsAside]
  | raised hf _ => exact absurd hf h
  | attempted hf _ _ _ => exact absurd hf h

end Agent

end FlashforgeObico
