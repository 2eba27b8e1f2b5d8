import FlashforgeObico.Agent.Agreement
import FlashforgeObico.Agent.Resilience

/-!
# Offline

Three failed polls in a row make the printer `Offline` to Obico. The initial text is `Offline` too,
and a snapshot whose state is unknown, or busy without a file, keeps the previous text. So the text
is `Offline` exactly when the last three polls have failed, or when no snapshot since the last such
outage, or since the start, has been one that determines the text (`offline_iff`).
-/

namespace FlashforgeObico

open Py Trace

/-- What a reply shows, unless it cannot be parsed. -/
def DetailReply.outcome? : DetailReply → Option (Option PrinterSnapshot)
  | .error _ => some none
  | .ok d => (parseSnapshot d).toOption.map some

/-- A poll that failed or whose reply was read. -/
structure PollOutcome where
  reply : DetailReply
  now : Time
  answers : Answers
  later : Time
  outcome : Option PrinterSnapshot
  reads : DetailReply.outcome? reply = some outcome

namespace PollOutcome

/-- The step of a run. -/
def label (p : PollOutcome) : Label := .poll p.reply p.now p.answers p.later

end PollOutcome

/-- A snapshot that determines the state text. -/
def Decisive (s : PrinterSnapshot) : Prop := s.state ≠ .unknown ∧ ¬ BusyWithoutFile s

instance (s : PrinterSnapshot) : Decidable (Decisive s) :=
  inferInstanceAs (Decidable (s.state ≠ .unknown ∧ ¬ BusyWithoutFile s))

/-- How many of the last polls have failed in a row. -/
def failedInARow (os : List (Option PrinterSnapshot)) : ℕ := (since Option.isSome os).length

/-- The last three polls, or more, have all failed. -/
def Unreachable (os : List (Option PrinterSnapshot)) : Prop :=
  offlineAfterFailures ≤ failedInARow os

instance (os : List (Option PrinterSnapshot)) : Decidable (Unreachable os) :=
  inferInstanceAs (Decidable (_ ≤ _))

/-- Three polls that fail one after another. -/
def outage : List (Option PrinterSnapshot) := List.replicate offlineAfterFailures none

/-- Every snapshot that determines the text was followed by an outage. -/
def Undetermined (os : List (Option PrinterSnapshot)) : Prop :=
  ∀ pre s post, os = pre ++ some s :: post → Decisive s → outage <:+: post

/-! ## One more poll -/

theorem obicoStateText_of_decisive {s : PrinterSnapshot} (h : Decisive s) (previous : StateText) :
    obicoStateText (some s) previous ≠ .offline := by
  by_cases hj : s.HasJob
  · rw [obicoStateText_of_hasJob hj]
    split_ifs <;> decide
  · have hb : s.state ≠ .busy := fun hb => h.2 ⟨hb, hj⟩
    simp [obicoStateText, h.1, hj, hb]

theorem obicoStateText_of_not_decisive {s : PrinterSnapshot} (h : ¬ Decisive s)
    (previous : StateText) :
    obicoStateText (some s) previous = previous := by
  by_cases hu : s.state = .unknown
  · simp [obicoStateText, hu]
  · have hb : BusyWithoutFile s := by_contra fun hb => h ⟨hu, hb⟩
    simp [obicoStateText, hb.1, hb.2]

variable {os : List (Option PrinterSnapshot)} {s : PrinterSnapshot}

theorem failedInARow_some (os : List (Option PrinterSnapshot)) (s : PrinterSnapshot) :
    failedInARow (os ++ [some s]) = 0 := by
  rw [failedInARow, since_concat_of_pos rfl]
  rfl

theorem failedInARow_none (os : List (Option PrinterSnapshot)) :
    failedInARow (os ++ [none]) = failedInARow os + 1 := by
  rw [failedInARow, since_concat_of_neg rfl, List.length_append]
  rfl

theorem ne_some_of_mem_outage {o : Option PrinterSnapshot} (h : o ∈ outage) : o ≠ some s := by
  rw [List.eq_of_mem_replicate h]
  exact Option.some_ne_none s |>.symm

/-- The polls end in an outage exactly when the last three have failed. -/
theorem outage_suffix_iff : outage <:+ os ↔ Unreachable os := by
  constructor
  · rintro ⟨pre, rfl⟩
    have hnone : ∀ o ∈ outage, o.isSome = false := by
      intro o ho
      rw [List.eq_of_mem_replicate ho]
      rfl
    rw [Unreachable, failedInARow, since_append_of_none hnone, List.length_append]
    exact Nat.le_add_left _ _
  · intro h
    have hall : since Option.isSome os = List.replicate (failedInARow os) none := by
      refine List.eq_replicate_iff.mpr ⟨rfl, fun o ho => ?_⟩
      simpa using List.mem_rtakeWhile_imp ho
    have hsuffix : outage <:+ since Option.isSome os := by
      rw [hall]
      exact ⟨List.replicate (failedInARow os - offlineAfterFailures) none, by
        rw [outage, List.replicate_append_replicate, Nat.sub_add_cancel h]⟩
    exact hsuffix.trans (List.rtakeWhile_suffix _ _)

/-- An outage after a snapshot is an outage after it. -/
theorem outage_suffix_of_cons {pre post : List (Option PrinterSnapshot)}
    (h : outage <:+ pre ++ some s :: post) : outage <:+ post := by
  rcases List.suffix_or_suffix_of_suffix h (List.suffix_append pre _) with h | h
  · rcases List.suffix_cons_iff.mp h with h | h
    · exact absurd rfl (ne_some_of_mem_outage (h ▸ List.mem_cons_self))
    · exact h
  · exact absurd rfl (ne_some_of_mem_outage (h.subset List.mem_cons_self))

/-- The text stays undetermined for as long as no snapshot determines it; an outage undoes what
was. -/
theorem undetermined_concat (os : List (Option PrinterSnapshot)) (o : Option PrinterSnapshot) :
    Undetermined (os ++ [o]) ↔
      Unreachable (os ++ [o]) ∨ Undetermined os ∧ ∀ s ∈ o, ¬ Decisive s := by
  constructor
  · intro h
    by_cases hu : Unreachable (os ++ [o])
    · exact .inl hu
    refine .inr ⟨?_, ?_⟩
    · rintro pre s post rfl hs
      have hpost := h pre s (post ++ [o]) (by simp) hs
      rcases List.infix_concat_iff.mp hpost with hpost | hpost
      · refine absurd (outage_suffix_iff.mp (hpost.trans ?_)) hu
        exact ⟨pre ++ [some s], by simp⟩
      · exact hpost
    · rintro s rfl hs
      have := h os s [] rfl hs
      exact absurd (List.infix_nil.mp this) (by decide)
  · rintro (h | ⟨h, ho⟩) pre s post hos hs
    · rw [← outage_suffix_iff, hos] at h
      exact (outage_suffix_of_cons h).isInfix
    · rcases List.eq_nil_or_concat' post with rfl | ⟨post, o', rfl⟩
      · obtain ⟨-, ho'⟩ := List.append_inj' hos rfl
        exact absurd hs (ho s (by simpa using ho'))
      · have hos' : os ++ [o] = (pre ++ some s :: post) ++ [o'] := by simpa using hos
        obtain ⟨hos', -⟩ := List.append_inj' hos' rfl
        exact (h pre s post hos' hs).trans (List.prefix_append _ _).isInfix

theorem Unreachable.undetermined (h : Unreachable os) : Undetermined os := by
  rintro pre s post rfl -
  exact (outage_suffix_of_cons (outage_suffix_iff.mpr h)).isInfix

namespace Agent

/-! ## One poll -/

/-- A failed poll that does not make the printer offline: nothing is published. -/
def Waits (a : Agent) (o : Option PrinterSnapshot) : Prop :=
  o = none ∧ a.failures + 1 < offlineAfterFailures

instance (a : Agent) (o : Option PrinterSnapshot) : Decidable (a.Waits o) :=
  inferInstanceAs (Decidable (_ ∧ _))

/-- A poll of a running agent that publishes. -/
def Publishes (a : Agent) (p : PollOutcome) : Prop := a.exited = false ∧ ¬ a.Waits p.outcome

instance (a : Agent) (p : PollOutcome) : Decidable (a.Publishes p) :=
  inferInstanceAs (Decidable (_ ∧ _))

/-- What a poll does to the snapshot, the text and the count of failures when no pause is
pending. -/
structure Showed (a : Agent) (o : Option PrinterSnapshot) (b : Agent) : Prop where
  pending : b.pendingCommand = none
  failures : b.failures = o.elim (a.failures + 1) fun _ => 0
  snapshot : b.snapshot = if a.Waits o then a.snapshot else o
  stateText : b.stateText = if a.Waits o then a.stateText else obicoStateText o a.stateText

theorem Read.showed {reply : DetailReply} {a b : Agent} {r : Bool} {o : Option PrinterSnapshot}
    (h : Read reply a (.ok r) b) (ho : DetailReply.outcome? reply = some o) :
    b.pendingCommand = a.pendingCommand ∧ b.stateText = a.stateText ∧
      b.failures = o.elim (a.failures + 1) (fun _ => 0) ∧
      b.snapshot = (if a.Waits o then a.snapshot else o) ∧ (r = false ↔ a.Waits o) := by
  cases h with
  | @parsed d s hr hd =>
    obtain rfl : some s = o := by simpa [hr, DetailReply.outcome?, hd, Except.toOption] using ho
    simp [Waits, log]
  | waits hr hf =>
    obtain rfl : none = o := by simpa [hr, DetailReply.outcome?] using ho
    simp [Waits, hf, log]
  | offline hr hf =>
    obtain rfl : none = o := by simpa [hr, DetailReply.outcome?] using ho
    simp [Waits, not_lt.mpr hf, log]

theorem Read.not_error {reply : DetailReply} {a b : Agent} {e : Error} {o : Option PrinterSnapshot}
    (h : Read reply a (.error e) b) (ho : DetailReply.outcome? reply = some o) : False := by
  cases h with
  | unparsed hr hd => simp [hr, DetailReply.outcome?, hd, Except.toOption] at ho

theorem Polled.showed {reply : DetailReply} {now later : Time} {a b : Agent} {r : Except Error Unit}
    {o : Option PrinterSnapshot} (h : Polled reply now later a r b)
    (ho : DetailReply.outcome? reply = some o) (hpending : a.pendingCommand = none) :
      Showed a o b := by
  have hpublish : ∀ {b c : Agent} {r : Except Error Unit} {ms : List Message},
      Read reply a (.ok true) b → Published now b.discovered r c ms → Showed a o c := by
    intro b c r ms hread hp
    obtain ⟨hpend, htext, hfail, hsnap, hwaits⟩ := hread.showed ho
    obtain ⟨cameras, reserver, hd⟩ := discovered_eq b
    have hw : ¬ a.Waits o := fun hw => absurd (hwaits.mpr hw) (by decide)
    rw [if_neg hw] at hsnap
    refine ⟨?_, ?_, ?_, ?_⟩ <;> rw [hp.eq]
    · rw [hd, ← hpending, ← hpend]
    · rw [hd, ← hfail]
    · rw [hd, if_neg hw, ← hsnap]
    · rw [newText, hd, if_neg hw, ← hsnap, ← htext]
  cases h with
  | unread hread =>
    obtain ⟨hpend, htext, hfail, hsnap, hwaits⟩ := hread.showed ho
    have hw : a.Waits o := hwaits.mp rfl
    exact ⟨hpend.trans hpending, hfail, hsnap, by rw [htext, if_pos hw]⟩
  | unparsed hread => exact (hread.not_error ho).elim
  | unpublished hread hp => exact hpublish hread hp
  | published hread hp hes hserviced =>
    have hc := hpublish hread hp
    cases hserviced with
    | waits _ => exact ⟨hc.pending, hc.failures, hc.snapshot, hc.stateText⟩
    | drops hne _ _ => exact absurd hc.pending hne
    | issues hp' _ _ _ _ _ => exact absurd (hc.pending.symm.trans hp') (by simp)

/-- **What one poll does**, unless the process has ended. -/
theorem showed {a : Agent} (p : PollOutcome) (hx : a.exited = false)
    (hpending : a.pendingCommand = none) :
    Showed a p.outcome (a.step p.label) := by
  have h := (polled p.reply p.now p.answers p.later a).showed p.reads hpending
  unfold step
  rw [if_neg (by simp [hx])]
  exact ⟨h.pending, h.failures, h.snapshot, h.stateText⟩

/-! ## Runs of polls -/

/-- A run of polls. -/
def polls (a : Agent) (ps : List PollOutcome) : Agent := a.run (ps.map PollOutcome.label)

theorem polls_concat (a : Agent) (ps : List PollOutcome) (p : PollOutcome) :
    a.polls (ps ++ [p]) = (a.polls ps).step p.label := by
  simp [polls, run]

/-- What the polls so far have made of the count of failures and of the text. -/
structure Follows (os : List (Option PrinterSnapshot)) (a : Agent) : Prop where
  pending : a.pendingCommand = none
  failures : a.failures = failedInARow os
  stateText : a.stateText = .offline ↔ Undetermined os

theorem Follows.waits_iff {a : Agent} (h : Follows os a) (o : Option PrinterSnapshot) :
    a.Waits o ↔ o = none ∧ ¬ Unreachable (os ++ [o]) := by
  rw [Waits, h.failures]
  refine and_congr_right fun ho => ?_
  rw [ho, Unreachable, failedInARow_none, not_le]

/-- **One more poll.** -/
theorem Follows.poll {a b : Agent} {o : Option PrinterSnapshot} (h : Follows os a)
    (hb : Showed a o b) :
    Follows (os ++ [o]) b := by
  refine ⟨hb.pending, ?_, ?_⟩
  · rcases o with _ | s
    · rw [hb.failures, failedInARow_none, ← h.failures]
      rfl
    · rw [hb.failures, failedInARow_some]
      rfl
  · have hwaits := h.waits_iff o
    rw [hb.stateText, undetermined_concat]
    split_ifs with hw
    · obtain ⟨rfl, hu⟩ := hwaits.mp hw
      simp [hu, h.stateText]
    · rcases o with _ | s
      · have hu : Unreachable (os ++ [none]) := by_contra fun hu => hw (hwaits.mpr ⟨rfl, hu⟩)
        simp [hu, obicoStateText]
      · have hu : ¬ Unreachable (os ++ [some s]) := by
          rw [Unreachable, failedInARow_some]
          decide
        by_cases hs : Decisive s
        · simp [hu, hs, obicoStateText_of_decisive hs]
        · simp [hu, hs, obicoStateText_of_not_decisive hs, h.stateText]

theorem step_of_exited {a : Agent} (h : a.exited = true) (l : Label) : a.step l = a := by
  unfold step
  rw [if_pos h]

/-- A run of polls that has not ended follows them. -/
theorem follows (config : Config) (cameras : List Camera) (reserver : Option (List Camera))
    (ps : List PollOutcome) (hx : ((initial config cameras reserver).polls ps).exited = false) :
    Follows (ps.map PollOutcome.outcome) ((initial config cameras reserver).polls ps) := by
  induction ps using List.reverseRecOn with
  | nil =>
    refine ⟨rfl, rfl, iff_of_true rfl ?_⟩
    intro pre s post h
    simp at h
  | append_singleton ps p ih =>
    have hx' : ((initial config cameras reserver).polls ps).exited = false := by
      by_contra hx'
      rw [polls_concat, step_of_exited (by simpa using hx')] at hx
      exact hx' hx
    have hps := ih hx'
    rw [polls_concat, List.map_append]
    exact hps.poll (showed p hx' hps.pending)

/-- The status that is built is empty exactly when the text is `Offline`. -/
theorem Showed.empty_iff {a b : Agent} {o : Option PrinterSnapshot} (h : Showed a o b)
    (hw : ¬ a.Waits o)
    (now : Time) :
    buildStatus b.snapshot b.tracker b.stateText now = .ok none ↔ b.stateText = .offline := by
  rw [h.snapshot, if_neg hw]
  constructor
  · intro hempty
    rcases o with _ | s
    · rw [h.stateText, if_neg hw]
      rfl
    · by_contra hoff
      simp only [buildStatus, if_neg hoff] at hempty
      rcases hl : printTimeLeft s (b.tracker.activeFile ≠ none) with e | left <;>
        rw [hl] at hempty <;>
        cases hempty
  · intro hoff
    rcases o with _ | s <;> simp [buildStatus, hoff]

/-- **When the text is `Offline`.** After every poll of a run of polls that publishes, the text is
`Offline` exactly when the last three polls, or more, have all failed, or when no snapshot that
determines the text has been read since the last such outage, or ever; so it is not when the poll
read one. The status is empty exactly when the text is `Offline`. -/
theorem offline_iff (config : Config) (cameras : List Camera) (reserver : Option (List Camera))
    (ps : List PollOutcome) (p : PollOutcome)
    (hp : ((initial config cameras reserver).polls ps).Publishes p) :
    let os := (ps ++ [p]).map PollOutcome.outcome
    let b := (initial config cameras reserver).polls (ps ++ [p])
    (b.stateText = .offline ↔ Unreachable os ∨ Undetermined os) ∧
      (∀ s ∈ p.outcome, Decisive s → b.stateText ≠ .offline) ∧
      ∀ now, buildStatus b.snapshot b.tracker b.stateText now = .ok none ↔
        b.stateText = .offline := by
  have hps := follows config cameras reserver ps hp.1
  have hshowed := showed p hp.1 hps.pending
  have hb := hps.poll hshowed
  simp only [polls_concat, List.map_append]
  refine ⟨?_, ?_, hshowed.empty_iff hp.2⟩
  · rw [hb.stateText]
    exact ⟨.inr, fun h => h.elim Unreachable.undetermined id⟩
  · intro s hs hd
    rw [hshowed.stateText, if_neg hp.2, Option.mem_def.mp hs]
    exact obicoStateText_of_decisive hd _

end Agent

/-- A poll on which no pending pause is due. -/
def PollOutcome.quiet (reply : DetailReply) (outcome : Option PrinterSnapshot)
    (reads : DetailReply.outcome? reply = some outcome) : PollOutcome where
  reply
  now := 4000
  answers := .constant reply
  later := 4000
  outcome
  reads

/-- A poll that reads of a printer that prints a file. -/
def pollOfPrinting : PollOutcome :=
  .quiet (.ok (detailOf "printing" "a.gcode")) (shown "printing" "a.gcode") (by decide +kernel)

/-- A poll that reads of a printer that is busy without a file. -/
def pollOfBusy : PollOutcome := .quiet (.ok (detailOf "busy" "")) (shown "busy" "")
    (by decide +kernel)

/-- A poll that fails. -/
def failedPoll : PollOutcome := .quiet (.error ⟨"detail: timed out"⟩) none rfl

/-- A poll is read and two fail. -/
def pollsBeforeOutage : List PollOutcome := [pollOfPrinting, failedPoll, failedPoll]

namespace Agent

/-- The printer is offline after the third failure, and no more after the next poll that is read. -/
theorem outage_is_offline_until_it_ends :
    (bare.polls (pollsBeforeOutage ++ [failedPoll])).stateText = .offline ∧
      (bare.polls (pollsBeforeOutage ++ [failedPoll, failedPoll] ++
        [pollOfPrinting])).stateText ≠ .offline := by
  have hunreachable :
      Unreachable ((pollsBeforeOutage ++ [failedPoll]).map PollOutcome.outcome) := by
    decide +kernel
  obtain ⟨s, hs, hd⟩ : ∃ s ∈ pollOfPrinting.outcome, Decisive s := by decide +kernel
  obtain ⟨houtage, -⟩ := offline_iff { publicHost := "10.0.0.2", reservePort := 8081 } [] none
    pollsBeforeOutage failedPoll (by decide +kernel)
  obtain ⟨-, hread, -⟩ := offline_iff { publicHost := "10.0.0.2", reservePort := 8081 } [] none
    (pollsBeforeOutage ++ [failedPoll, failedPoll]) pollOfPrinting (by decide +kernel)
  exact ⟨houtage.mpr (.inl hunreachable), hread s hs hd⟩

/-- A printer that is busy without a file when the agent starts is shown as `Offline`. -/
theorem busy_at_start_is_offline :
    bare.Publishes pollOfBusy ∧ pollOfBusy.outcome ≠ none ∧
      ¬ Unreachable [pollOfBusy.outcome] ∧ (bare.polls [pollOfBusy]).stateText = .offline := by
  decide +kernel

end Agent

end FlashforgeObico
