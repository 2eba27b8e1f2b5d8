import FlashforgeObico.Agent.Run
import FlashforgeObico.Job.Sessions

/-!
# What Obico is told

From the side of the tracker and of Obico's messages, a run is a sequence of publishes with silent
steps in between, which touch neither (`told_step`). An invariant of the tracker, the state text and
the messages is therefore proved for one publish (`run_told`).
-/

namespace FlashforgeObico

open Py

/-- The effects of a publish. -/
def Effect.Tells : Effect → Prop
  | .observed _ _ _ => True
  | .sent _ _ => True
  | _ => False

namespace Agent

/-- Nothing happens that the tracker observes or that Obico is sent as a status. -/
structure Silent (a b : Agent) : Prop where
  tracker : b.tracker = a.tracker
  stateText : b.stateText = a.stateText
  settingsSent : b.settingsSent = a.settingsSent
  lastSentAt : b.lastSentAt = a.lastSentAt
  trace : ∃ es, b.trace = a.trace ++ es ∧ ∀ e ∈ es, ¬ e.Tells

namespace Silent

variable {a b c : Agent}

theorem trans (h : Silent a b) (h' : Silent b c) : Silent a c := by
  obtain ⟨es, hes, hs⟩ := h.trace
  obtain ⟨es', hes', hs'⟩ := h'.trace
  exact ⟨h'.tracker.trans h.tracker, h'.stateText.trans h.stateText,
    h'.settingsSent.trans h.settingsSent, h'.lastSentAt.trans h.lastSentAt,
    es ++ es', by rw [hes', hes, List.append_assoc], List.forall_mem_append.mpr ⟨hs, hs'⟩⟩

theorem refl (a : Agent) : Silent a a := ⟨rfl, rfl, rfl, rfl, [], by simp, by simp⟩

theorem log (a : Agent) {es : List Effect} (h : ∀ e ∈ es, ¬ e.Tells) : Silent a (a.log es) :=
  ⟨rfl, rfl, rfl, rfl, es, rfl, h⟩

end Silent

/-- A publish, or nothing. -/
inductive Told (a b : Agent) : Prop
  | silent : Silent a b → Told a b
  | publishes {now r ms} : Published now a r b ms → Told a b

theorem begun_silent (x : Execution) (a : Agent) : Silent a (begun x a) := by
  obtain ⟨ds, hb, hds⟩ := begun_spec x a
  rw [hb]
  refine ⟨rfl, rfl, rfl, rfl, _, rfl, ?_⟩
  intro e he
  rcases List.mem_cons.mp he with rfl | he
  · exact id
  · obtain ⟨reason, rfl⟩ := hds e he
    exact id

theorem Attempted.silent {x : Execution} {n : ℕ} {a b : Agent} {es : List Effect}
    (h : Attempted x n a b es) : Silent a b := by
  rw [h.eq]
  refine ⟨rfl, rfl, rfl, rfl, es, rfl, ?_⟩
  intro e he
  have := h.ofAttempt e he
  cases e <;> simp_all [Effect.OfAttempt, Effect.Tells]

theorem silent_log_events {a b : Agent} {es : List Effect} (h : Silent a b)
    (hes : ∀ e ∈ es, ∃ event accepted, e = .printerEvent event accepted) : Silent a (b.log es) := by
  refine h.trans (.log b ?_)
  intro e he
  obtain ⟨event, accepted, rfl⟩ := hes e he
  exact id

theorem Settled.silent {x : Execution} {a b : Agent} (h : Settled x a b) : Silent a b := by
  cases h with
  | told hes => exact silent_log_events (.refl a) hes
  | deferred _ => exact ⟨rfl, rfl, rfl, rfl, _, rfl, by simp [Effect.Tells]⟩

theorem Executed.told {x : Execution} {now : Time} {a b : Agent} {r : Except Error Unit}
    (h : Executed x now a r b) : Relation.ReflTransGen Told a b := by
  have hbegun := begun_silent x a
  cases h with
  | ignored _ => exact .single (.silent (hbegun.trans (.log _ (by simp [Effect.Tells]))))
  | raised _ hes =>
    exact .single (.silent ((hbegun.trans hes.silent).trans (.log _ (by simp [Effect.Tells]))))
  | attempted _ hes hsettled hpub =>
    have hsilent : Silent a _ := (hbegun.trans hes.silent).trans hsettled.silent
    exact ((Relation.ReflTransGen.single (.silent hsilent)).tail
      (.publishes hpub)).tail (.silent (.log _ (by simp [Effect.Tells])))

theorem Read.silent {reply : DetailReply} {a b : Agent} {r : Except Error Bool}
    (h : Read reply a r b) :
    Silent a b := by
  cases h with
  | unparsed _ _ => exact .refl a
  | _ => exact ⟨rfl, rfl, rfl, rfl, _, rfl, by simp [Effect.Tells]⟩

theorem discovered_silent (a : Agent) : Silent a a.discovered := by
  unfold discovered
  rcases a.snapshot with _ | s
  · exact .refl a
  · dsimp only
    split_ifs
    · exact .refl a
    · exact ⟨rfl, rfl, rfl, rfl, [], by simp, by simp⟩

theorem Serviced.told {now : Time} {a b : Agent} {r : Except Error Unit} (h : Serviced now a r b) :
    Relation.ReflTransGen Told a b := by
  cases h with
  | waits _ => exact .refl
  | drops _ _ _ => exact .single (.silent ⟨rfl, rfl, rfl, rfl, _, rfl, by simp [Effect.Tells]⟩)
  | issues _ _ _ _ _ he =>
    have ht : Silent a { a with pendingCommand := none } :=
      ⟨rfl, rfl, rfl, rfl, [], by simp, by simp⟩
    exact he.told.head (.silent ht)

theorem Polled.told {reply : DetailReply} {now later : Time} {a b : Agent} {r : Except Error Unit}
    (h : Polled reply now later a r b) : Relation.ReflTransGen Told a b := by
  cases h with
  | unread hread => exact .single (.silent hread.silent)
  | unparsed hread => exact .single (.silent hread.silent)
  | unpublished hread hpub =>
    exact (Relation.ReflTransGen.single (.silent (hread.silent.trans (discovered_silent _)))).tail
      (.publishes hpub)
  | @published b' c ms codes es r d hread hpub hes hserviced =>
    have hf : Silent c ({ c with faultsReported := codes }.log es) :=
      silent_log_events ⟨rfl, rfl, rfl, rfl, [], by simp, by simp⟩ hes
    exact (((Relation.ReflTransGen.single (.silent (hread.silent.trans (discovered_silent _)))).tail
      (.publishes hpub)).tail (.silent hf)).trans hserviced.told

/-- **A step is a sequence of publishes and silent steps.** -/
theorem told_step (a : Agent) (l : Label) : Relation.ReflTransGen Told a (a.step l) := by
  have hs := stepped a l
  generalize a.step l = b at hs ⊢
  cases hs with
  | exited _ => exact .refl
  | poll hp => exact hp.told.tail (.silent ⟨rfl, rfl, rfl, rfl, [], by simp, by simp⟩)
  | queues _ =>
    refine .single (.silent ⟨rfl, rfl, rfl, rfl, _, rfl, ?_⟩)
    intro e he
    obtain ⟨cmd, -, rfl⟩ := List.mem_map.mp he
    exact id
  | @executes _ _ _ rest _ _ _ he =>
    have ht : Silent a { a with commands := rest } := ⟨rfl, rfl, rfl, rfl, [], by simp, by simp⟩
    exact he.told.head (.silent ht)
  | idle _ => exact .refl

/-- What silent steps and publishes preserve holds after every run. -/
theorem run_told {I : Agent → Prop} {a : Agent} (h0 : I a) (h : ∀ a b, I a → Told a b → I b)
    (ls : List Label) : I (a.run ls) := by
  refine run_invariant h0 (fun a l ha => ?_) ls
  have hsteps := told_step a l
  generalize a.step l = b at hsteps ⊢
  induction hsteps with
  | refl => exact ha
  | tail _ hab ih => exact h _ _ ih hab

/-! ## The trace and the tracker -/

end Agent

/-- What the tracker observed. -/
def Effect.observation? : Effect → Option Observation
  | .observed snapshot now _ => some (snapshot, now)
  | _ => none

/-- The tracker after the observations of a trace. -/
def trackerAfter (t : List Effect) : JobTracker :=
  (JobTracker.observeAll (t.filterMap Effect.observation?)).1

theorem trackerAfter_append {t es : List Effect} (h : ∀ e ∈ es, e.observation? = none) :
    trackerAfter (t ++ es) = trackerAfter t := by
  rw [trackerAfter, List.filterMap_append, List.filterMap_eq_nil_iff.mpr h, List.append_nil,
    trackerAfter]

theorem trackerAfter_observed (t : List Effect) (snapshot : Option PrinterSnapshot) (now : Time)
    (events : List Event) : trackerAfter (t ++ [.observed snapshot now events]) =
      ((trackerAfter t).observe snapshot now).1 := by
  rw [trackerAfter, List.filterMap_append, JobTracker.observeAll, List.foldl_append]
  rfl

namespace Agent

/-- Publishing moves the tracker as the trace says. -/
theorem Published.tracker_eq {now : Time} {a b : Agent} {r : Except Error Unit} {ms : List Message}
    (h : Published now a r b ms) (ha : a.tracker = trackerAfter a.trace) :
    b.tracker = trackerAfter b.trace := by
  have htrace : b.trace = (a.trace ++ [.observed a.snapshot now (a.observed now).2]) ++
      ms.map fun m => .sent m (a.observed now).1 := by
    rw [h.eq]
    simp
  rw [htrace, trackerAfter_append (by simp [Effect.observation?]),
    trackerAfter_observed, ← ha, h.eq]
  rfl

/-- Publishes and silent steps only append to the trace. -/
theorem trace_prefix {a b : Agent} (h : Relation.ReflTransGen Told a b) : a.trace <+: b.trace := by
  induction h with
  | refl => exact List.prefix_rfl
  | tail _ ht ih =>
    apply ih.trans
    cases ht with
    | silent hs =>
      obtain ⟨es, htrace, -⟩ := hs.trace
      exact ⟨es, htrace.symm⟩
    | publishes hp =>
      obtain ⟨es, htrace, -⟩ := hp.trace
      exact ⟨es, htrace.symm⟩

end Agent

end FlashforgeObico
