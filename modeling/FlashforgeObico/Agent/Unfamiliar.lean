import FlashforgeObico.Agent.Run

/-!
# Unfamiliar statuses on the command path

A status that the agent does not know is meant to be treated as possibly printing, never as idle.
The tracker and the state text do so. The command path asks for a job instead, which an unfamiliar
status does not show: `treatedAsPrinting_iff` says exactly on which agents and replies no command is
ignored, no read-back ended and no pending pause dropped on the strength of one.
-/

namespace FlashforgeObico

open Py Trace

/-! ## Replies -/

namespace DetailReply

/-- The reply shows an unfamiliar status. -/
def ShowsUnfamiliar (reply : DetailReply) : Prop :=
  ∃ d s, reply = .ok d ∧ parseSnapshot d = .ok s ∧ s.state = .unknown

/-- A read-back ends at the reply: it cannot be parsed, it shows what the command asks for, or it
shows no job. -/
def Settles (cmd : Command) (reply : DetailReply) : Prop :=
  ∃ d, reply = .ok d ∧ ∀ s, parseSnapshot d = .ok s → Expected cmd s ∨ ¬ s.HasJob

/-- The read-back of a command has ended before any reply that shows an unfamiliar status. -/
def SettledFirst (cmd : Command) (rs : List DetailReply) : Prop :=
  Along (fun pre reply => ShowsUnfamiliar reply → ∃ earlier ∈ pre, Settles cmd earlier) rs

variable {cmd : Command} {reply : DetailReply} {rs : List DetailReply}

theorem not_showsUnfamiliar_error (e : FlashforgeError) : ¬ ShowsUnfamiliar (.error e) := by
  rintro ⟨d, s, h, -⟩
  cases h

theorem not_settles_error (cmd : Command) (e : FlashforgeError) : ¬ Settles cmd (.error e) := by
  rintro ⟨d, h, -⟩
  cases h

theorem showsUnfamiliar_ok {d : Dict} {s : PrinterSnapshot} (hd : parseSnapshot d = .ok s) :
    ShowsUnfamiliar (.ok d) ↔ s.state = .unknown := by
  constructor
  · rintro ⟨d', s', h, hd', hs'⟩
    cases h
    rw [hd] at hd'
    cases hd'
    exact hs'
  · exact fun hs => ⟨d, s, rfl, hd, hs⟩

theorem settles_ok {d : Dict} {s : PrinterSnapshot} (hd : parseSnapshot d = .ok s) :
    Settles cmd (.ok d) ↔ Expected cmd s ∨ ¬ s.HasJob := by
  constructor
  · rintro ⟨d', h, hs⟩
    cases h
    exact hs s hd
  · refine fun h => ⟨d, rfl, fun s' hd' => ?_⟩
    rw [hd] at hd'
    cases hd'
    exact h

theorem settledFirst_cons : SettledFirst cmd (reply :: rs) ↔
    ¬ ShowsUnfamiliar reply ∧ (Settles cmd reply ∨ SettledFirst cmd rs) := by
  rw [SettledFirst, along_cons]
  apply and_congr (by simp)
  by_cases hs : Settles cmd reply
  · refine iff_of_true (fun pre e post _ _ => ⟨reply, by simp, hs⟩) (.inl hs)
  · simp [SettledFirst, hs]

end DetailReply

/-! ## Agents -/

/-- The outcome of a read-back that finds no job. -/
def overOutcome : Command → Outcome
  | .cancel => .taken
  | _ => .jobOver

theorem not_hasJob_of_unknown {s : PrinterSnapshot} (h : s.state = .unknown) : ¬ s.HasJob :=
  fun hj => hj.state_ne h

namespace Agent

open DetailReply

/-- The latest snapshot shows an unfamiliar status. -/
def Unfamiliar (a : Agent) : Prop := ∃ s ∈ a.snapshot, s.state = .unknown

instance (a : Agent) : Decidable a.Unfamiliar := by
  unfold Unfamiliar
  infer_instance

/-- What a method does to the outside. -/
def effectsOf {α : Type} (m : Method α) (a : Agent) : List Effect :=
  (m a).2.trace.drop a.trace.length

/-- On the agent and on the replies to a read-back, an unfamiliar status is not taken for idle. -/
structure TreatedAsPrinting (a : Agent) (rs : List DetailReply) : Prop where
  /-- It is not why a pause or a cancel is ignored. -/
  executed : ∀ origin answers now, ∀ cmd ∈ [Command.pause, .cancel],
    .ignored (a.nextExecution origin cmd) .noActiveJob ∈
      effectsOf (executeCommand origin cmd answers now) a → ¬ a.Unfamiliar
  /-- It is not why a cancel counts as taken, or the job as over. -/
  readBack : ∀ cmd b, readBack cmd rs a = (.ok (overOutcome cmd), b) → ¬ b.Unfamiliar
  /-- It is not why the pending pause is dropped. -/
  serviced : ∀ answers now,
    .dropped .jobIsOver ∈ effectsOf (servicePendingCommand answers now) a → ¬ a.Unfamiliar

/-- An unfamiliar snapshot gets every command ignored. -/
theorem ignored_of_unfamiliar {a : Agent} (h : a.Unfamiliar) (origin : Origin) (cmd : Command)
    (answers : Answers) (now : Time) : .ignored (a.nextExecution origin cmd) .noActiveJob ∈
      effectsOf (executeCommand origin cmd answers now) a := by
  obtain ⟨s, hs, hu⟩ := h
  have hforwards : ¬ a.Forwards cmd := by
    rintro ⟨s', hs', hj, -⟩
    exact not_hasJob_of_unknown (Option.mem_unique hs hs' ▸ hu) hj
  have hexec := executed origin cmd answers now a
  obtain ⟨ds, hb, -⟩ := begun_spec (a.nextExecution origin cmd) a
  unfold effectsOf
  generalize executeCommand origin cmd answers now a = r at hexec ⊢
  obtain ⟨r, b⟩ := r
  cases hexec with
  | @ignored reason hi =>
    cases reason with
    | noActiveJob => simp [hb]
    | alreadyInThatState =>
      obtain ⟨s', hs', hj, -⟩ := hi
      exact absurd hj (not_hasJob_of_unknown (Option.mem_unique hs hs' ▸ hu))
  | raised hf _ => exact absurd hf hforwards
  | attempted hf _ _ _ => exact absurd hf hforwards

/-- **A read-back ends on an unfamiliar status** exactly when a reply shows one before any other
reply has ended it. -/
theorem readBack_familiar_iff (cmd : Command) (rs : List DetailReply) (a : Agent) :
    (∀ b, readBack cmd rs a = (.ok (overOutcome cmd), b) → ¬ b.Unfamiliar) ↔
      SettledFirst cmd rs := by
  induction rs generalizing a with
  | nil =>
    refine iff_of_true (fun b h => ?_) along_nil
    cases cmd <;> cases h
  | cons reply rs ih =>
    rw [settledFirst_cons, readBack]
    rcases requestDetail_cases a reply with ⟨e, rfl, h⟩ | ⟨d, e, rfl, hd, h⟩ | ⟨d, s, rfl, hd, h⟩
    · rw [Procedure.bind_of_ok h, ih]
      simp [not_showsUnfamiliar_error, not_settles_error]
    · have hs : Settles cmd (.ok d) := ⟨d, rfl, fun s hd' => by rw [hd] at hd'; cases hd'⟩
      have hu : ¬ ShowsUnfamiliar (.ok d) := by
        rintro ⟨d', s, h', hd', -⟩
        cases h'
        rw [hd] at hd'
        cases hd'
      rw [Procedure.bind_of_error h]
      simp [hs, hu]
    · rw [Procedure.bind_of_ok h, showsUnfamiliar_ok hd, settles_ok hd]
      dsimp only
      by_cases hsettles : Expected cmd s ∨ ¬ s.HasJob
      swap
      · -- the read-back goes on
        obtain ⟨he, hj⟩ := not_or.mp hsettles
        have hu : s.state ≠ .unknown := (not_not.mp hj).state_ne
        rw [if_neg he, if_neg fun hc => hj hc.2, ih]
        simp [hu, hsettles]
      have hunfamiliar : ({ a with snapshot := some s }.log [.detail (some s)]).Unfamiliar ↔
          s.state = .unknown := by simp [Unfamiliar, log]
      by_cases hu : s.state = .unknown
      · -- the reply is unfamiliar and ends the read-back
        have hj := not_hasJob_of_unknown hu
        refine iff_of_false (fun hall => hall _ ?_ (hunfamiliar.mpr hu)) fun hc => hc.1 hu
        cases cmd <;> simp [Expected, hu, hj, overOutcome, Procedure.pure_apply]
      · refine iff_of_true (fun b hb => ?_) ⟨hu, .inl hsettles⟩
        have hb' : b = { a with snapshot := some s }.log [.detail (some s)] := by
          split_ifs at hb with he hj
          · exact (Prod.mk.inj hb).2.symm
          · exact (Prod.mk.inj hb).2.symm
          · have hover := hsettles.resolve_left he
            have hc : cmd = .cancel := by_contra fun hc => hj ⟨hc, hover⟩
            subst hc
            exact absurd hover he
        rw [hb', hunfamiliar]
        exact hu

/-- An unfamiliar status is not taken for idle, exactly when the latest snapshot does not show one
and no reply shows one before the read-back has ended. -/
theorem treatedAsPrinting_iff (a : Agent) (rs : List DetailReply) :
    a.TreatedAsPrinting rs ↔ ¬ a.Unfamiliar ∧ ∀ cmd, SettledFirst cmd rs := by
  constructor
  · intro h
    refine ⟨fun hu => ?_, fun cmd => (readBack_familiar_iff cmd rs a).mp (h.readBack cmd)⟩
    exact h.executed .queued (.constant (.error ⟨""⟩)) 0 .pause (by simp)
      (ignored_of_unfamiliar hu .queued .pause _ 0) hu
  · rintro ⟨hu, hrs⟩
    exact ⟨fun _ _ _ _ _ _ => hu, fun cmd => (readBack_familiar_iff cmd rs a).mpr (hrs cmd),
      fun _ _ _ => hu⟩

/-- **An unfamiliar status is treated as possibly printing** in a state that a run reaches, on every
sequence of replies to a read-back, exactly when the latest snapshot does not show one and no reply
shows one before the read-back has ended. -/
theorem unfamiliar_treatedAsPrinting_iff (config : Config) (cameras : List Camera)
    (reserver : Option (List Camera)) (ls : List Label) (rs : List DetailReply) :
    ((initial config cameras reserver).run ls).TreatedAsPrinting rs ↔
      ¬ ((initial config cameras reserver).run ls).Unfamiliar ∧ ∀ cmd, SettledFirst cmd rs :=
  treatedAsPrinting_iff _ rs

/-- While a job is printing, an unfamiliar status gets a pause ignored for want of a job. -/
theorem pause_ignored_on_unfamiliar :
    let a := bare.run [.quietPoll (.ok (detailOf "printing" "a.gcode")) 1000,
      .quietPoll (.ok (detailOf "calibrating" "a.gcode")) 1002]
    a.tracker.activeFile ≠ none ∧ ¬ a.TreatedAsPrinting [] := by
  refine ⟨by decide +kernel, fun h => ?_⟩
  exact ((treatedAsPrinting_iff _ []).mp h).1 (by decide +kernel)

end Agent

end FlashforgeObico
