import FlashforgeObico.Foundations.Trace
import FlashforgeObico.Agent.Publish
import FlashforgeObico.Job.Sessions

/-!
# The session that an event is sent with

An event belongs to the session that the last `PrintStarted` up to it began (`labels`), and a
message carries the identifier that the tracker has when it is sent. The tracker has already gone
through all of a publish's events by then: an event that ends a session is sent without the session,
or with the one that replaced it. `labelsRight_iff` says exactly when a publish labels its events
right, and `labels_right_iff` that a run does when its publishes do.
-/

namespace FlashforgeObico

open Py Trace JobTracker

/-! ## The session of an event -/

/-- The identifier of the session that the last of some reports belongs to, which is the time at
which `PrintStarted` was reported last. -/
def sessionTs (rs : List Report) : ℤ := ((starts rs).getLast?.map fun o => o.2.toInt).getD (-1)

/-- Reports with the identifiers of their sessions, given that of the session before them. -/
def labels (ts : ℤ) : List Report → List (Event × ℤ)
  | [] => []
  | r :: rs =>
    let ts' := if r.event = .started then r.seen.2.toInt else ts
    (r.event, ts') :: labels ts' rs

/-- The tracker has the identifier of the session that is open. -/
theorem Tells.sessionTs_eq {t : JobTracker} {rs : List Report} {c : Chronicle} (h : Tells (t, rs) c)
    (ha : t.activeFile ≠ none) : sessionTs rs = t.currentPrintTs ∧ t.currentPrintTs ≠ -1 := by
  obtain ⟨s, hc, -⟩ := h.exists_current ha
  have hts : t.currentPrintTs = s.ts := by rw [h.ts, hc]; rfl
  refine ⟨?_, by rw [hts]; exact Time.toInt_ne s.since⟩
  rw [sessionTs, h.starts, Chronicle.sessions, hc, hts]
  simp [Session.start, Session.ts]

/-! ## Publishes -/

/-- The status message of an effect. -/
def Effect.message? : Effect → Option Message
  | .sent m _ => some m
  | _ => none

/-- The events that messages carry, with the identifiers that they carry. -/
def carriedLabels (ms : List Message) : List (Event × ℤ) :=
  ms.filterMap fun m => m.event.map (·, m.currentPrintTs)

namespace Agent

/-- A publish of an observation. -/
def publishOn (a : Agent) (o : Observation) : Agent := (publish o.2 { a with snapshot := o.1 }).2

/-- A sequence of publishes. -/
def publishAll (a : Agent) (os : List Observation) : Agent := os.foldl publishOn a

/-- The messages that a publish sends. -/
def sentOn (a : Agent) (o : Observation) : List Message :=
  ((publishOn a o).trace.drop a.trace.length).filterMap Effect.message?

/-- After the publishes `os`, the publish of `o` sends every event with the identifier of its
session. -/
def LabelsRight (a : Agent) (os : List Observation) (o : Observation) : Prop :=
  carriedLabels (sentOn (a.publishAll os) o) <+:
    labels (sessionTs (observeAll os).2) (((observeAll os).1.observe o.1 o.2).2.map fun e => ⟨e, o⟩)

instance (a : Agent) (os : List Observation) (o : Observation) :
    Decidable (LabelsRight a os o) := by
  unfold LabelsRight
  infer_instance

/-- What sends the end of a session with another identifier: the snapshot no longer shows the active
job. It does no harm when the job that replaces it starts in the same second as the session did, or
when the status of that job cannot be built, so that nothing is sent. -/
def EndsMislabelled (t : JobTracker) (o : Observation) : Prop :=
  ∃ s, o.1 = some s ∧ s.state ≠ .unknown ∧ t.Leaves s ∧
    ¬ (s.HasJob ∧ (t.currentPrintTs = o.2.toInt ∨ ∃ e, s.remainingEstimateS = .error e))

/-! ## One publish -/

variable {a : Agent} {os : List Observation}

theorem publishAll_snoc (a : Agent) (os : List Observation) (o : Observation) :
    a.publishAll (os ++ [o]) = (a.publishAll os).publishOn o := by
  rw [publishAll, List.foldl_append]
  rfl

theorem tracker_publishAll (h : a.tracker = {}) (os : List Observation) :
    (a.publishAll os).tracker = (observeAll os).1 := by
  induction os using List.reverseRecOn with
  | nil => exact h
  | append_singleton os o ih =>
    obtain ⟨ms, hp⟩ := published { a.publishAll os with snapshot := o.1 } o.2
    rw [publishAll_snoc, publishOn, hp.eq, observeAll, List.foldl_append]
    change ((a.publishAll os).tracker.observe o.1 o.2).1 = _
    rw [ih]
    rfl

theorem filterMap_message?_sent (ms : List Message) (t : JobTracker) :
    (ms.map fun m => Effect.sent m t).filterMap Effect.message? = ms := by
  rw [List.filterMap_map]
  exact (congrFun List.filterMap_eq_map ms).trans (List.map_id ms)

/-- The labels of a publish: all of its events, with the identifier that the tracker has after them;
or none, when the status cannot be built. -/
theorem carriedLabels_sentOn (a : Agent) (o : Observation) :
    carriedLabels (sentOn a o) = match ({ a with snapshot := o.1 } : Agent).newStatus o.2 with
      | .ok _ => (a.tracker.observe o.1 o.2).2.map (·, (a.tracker.observe o.1 o.2).1.currentPrintTs)
      | .error _ => [] := by
  set b : Agent := { a with snapshot := o.1 }
  obtain ⟨ms, hp⟩ := published b o.2
  have hsent : sentOn a o = ms := by
    have htrace : (publishOn a o).trace = a.trace ++ .observed b.snapshot o.2 (b.observed o.2).2 ::
        ms.map fun m => .sent m (b.observed o.2).1 := by
      rw [publishOn, hp.eq]
    rw [sentOn, htrace, List.drop_left' rfl, List.filterMap_cons_none rfl, filterMap_message?_sent]
  have hts : carriedLabels ms =
      (ms.filterMap Message.event).map (·, (b.observed o.2).1.currentPrintTs) := by
    rw [carriedLabels, List.map_filterMap]
    exact List.filterMap_congr fun m hm => by simp [hp.ts m hm]
  rw [hsent, hts]
  rcases hs : b.newStatus o.2 with e | status
  · have hms : ms = [] := by
      by_contra hne
      obtain ⟨m, hm⟩ := List.exists_mem_of_ne_nil ms hne
      have hstatus := hp.status m hm
      rw [hs] at hstatus
      cases hstatus
    rw [hms]
    rfl
  · rw [hp.events (by simp [hs])]
    rfl

/-- Where no session ends, nothing is mislabelled. -/
theorem not_endsMislabelled {t : JobTracker} {s : PrinterSnapshot} {now : Time} (h : ¬ t.Leaves s) :
    ¬ EndsMislabelled t (some s, now) := by
  rintro ⟨s', hs', -, hl, -⟩
  exact h (Option.some.inj hs' ▸ hl)

/-- The labels of one call of `observe`, all with the identifier that the tracker has after it, are
the right ones exactly when it does not end a session under another identifier. -/
theorem observe_labels_iff {t : JobTracker} {rs : List Report} {c : Chronicle} (h : Tells (t, rs) c)
    (snapshot : Option PrinterSnapshot) (now : Time)
    (hestimate : ∀ s e, snapshot = some s → s.remainingEstimateS ≠ .error e) :
    (t.observe snapshot now).2.map (·, (t.observe snapshot now).1.currentPrintTs) <+:
        labels (sessionTs rs) ((t.observe snapshot now).2.map fun e => ⟨e, (snapshot, now)⟩) ↔
      ¬ EndsMislabelled t (snapshot, now) := by
  have hts := h.sessionTs_eq
  obtain ⟨t', es, hobserve, hobs⟩ := JobTracker.exists_observed t snapshot now
  rw [hobserve]
  cases hobs with
  | unread => simp [labels, EndsMislabelled]
  | unfamiliar hu => simp [labels, EndsMislabelled, hu]
  | idle _ ha _ => simp [labels, not_endsMislabelled fun hl => hl.1 ha]
  | begins ha _ => simp [labels, not_endsMislabelled fun hl => hl.1 ha, start]
  | continues ha hj _ => simp [labels, not_endsMislabelled (JobTracker.not_leaves_of_same ha hj)]
  | pauses ha hj _ _ =>
    simp [labels, not_endsMislabelled (JobTracker.not_leaves_of_same ha hj), (hts (by simp [ha])).1]
  | resumes ha hj _ _ =>
    simp [labels, not_endsMislabelled (JobTracker.not_leaves_of_same ha hj), (hts (by simp [ha])).1]
  | @ends s hu ha hj =>
    have hne : t.endEvent s ≠ .started := fun he => absurd (he ▸ endEvent_isEnding t s) (by decide)
    obtain ⟨h₁, h₂⟩ := hts ha
    have hends : EndsMislabelled t (some s, now) := ⟨s, rfl, hu, ⟨ha, .inl hj⟩, fun hc => hj hc.1⟩
    simp [labels, hne, h₁, hends, h₂.symm]
  | @swaps s f ha hj hf =>
    have hne : t.endEvent s ≠ .started := fun he => absurd (he ▸ endEvent_isEnding t s) (by decide)
    obtain ⟨h₁, -⟩ := hts (by simp [ha])
    have hends : EndsMislabelled t (some s, now) ↔ t.currentPrintTs ≠ now.toInt := by
      constructor
      · rintro ⟨s', hs', -, -, hc⟩ hts
        exact hc ⟨Option.some.inj hs' ▸ hj, .inl hts⟩
      · intro hne
        refine ⟨s, rfl, hj.state_ne, ⟨by simp [ha], .inr (by simpa [ha] using hf)⟩, ?_⟩
        rintro ⟨-, hts | ⟨e, he⟩⟩
        · exact hne hts
        · exact hestimate s e rfl he
    simp [labels, hne, start, h₁, hends, eq_comm]

/-- **One publish labels its events right** exactly when it does not end a session under another
identifier. -/
theorem labelsRight_iff (h : a.tracker = {}) (os : List Observation) (o : Observation) :
    LabelsRight a os o ↔ ¬ EndsMislabelled (observeAll os).1 o := by
  obtain ⟨c, hc⟩ := Tells.observeAll os
  obtain ⟨snapshot, now⟩ := o
  rw [LabelsRight, carriedLabels_sentOn]
  have herror := newStatus_error_iff { a.publishAll os with snapshot } now
  rcases hs : ({ a.publishAll os with snapshot } : Agent).newStatus now with e | status
  · obtain ⟨s, e, rfl, hse⟩ := herror.mp ⟨e, hs⟩
    have hj := PrinterSnapshot.hasJob_of_estimate_error hse
    apply iff_of_true (List.nil_prefix)
    rintro ⟨s', hs', -, -, hc⟩
    obtain rfl := Option.some.inj hs'
    exact hc ⟨hj, .inr ⟨e, hse⟩⟩
  · dsimp only
    rw [tracker_publishAll h]
    refine observe_labels_iff (c := c) hc snapshot now fun s e hsnap hse => ?_
    obtain ⟨e, he⟩ := herror.mpr ⟨s, e, hsnap, hse⟩
    rw [hs] at he
    cases he

/-! ## Runs -/

/-- **A run labels every event with its own session** exactly when no publish ends a session under
another identifier. -/
theorem labels_right_iff (config : Config) (cameras : List Camera) (reserver : Option (List Camera))
    (os : List Observation) :
    Along (LabelsRight (initial config cameras reserver)) os ↔
      Along (fun pre o => ¬ EndsMislabelled (observeAll pre).1 o) os := by
  constructor
  · exact fun h => h.mono fun pre o => (labelsRight_iff rfl pre o).mp
  · exact fun h => h.mono fun pre o => (labelsRight_iff rfl pre o).mpr

/-- When another job replaces the active one, the end of the old session is sent as one of the
new. -/
theorem swap_mislabels_the_ending :
    ¬ Along (LabelsRight bare)
      [(shown "printing" "a.gcode", 1000), (shown "printing" "b.gcode", 1002)] := by
  intro h
  exact absurd (h [(shown "printing" "a.gcode", 1000)] (shown "printing" "b.gcode", 1002) [] rfl)
    (by decide +kernel)

end Agent

end FlashforgeObico
