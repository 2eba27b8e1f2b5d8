import FlashforgeObico.Job.Identifiers

/-!
# How a session is reported to end

By the last snapshot of a job and the first familiar one without it, the job was cancelled, it is
done, or it failed (`endingOf`). The tracker reports another ending in one case: a job that was seen
at the threshold and is followed by a snapshot in an active state, of the next file or of none, is
done but reported as failed (`endings_right_iff`).
-/

namespace FlashforgeObico

open Py Trace JobTracker

/-- How a job ended whose last progress was `p`, when the printer is then in a state. -/
def endingOf (state : MachineState) (p : Double) : Event :=
  if state = .cancelled then .cancelled
  else if state = .completed ∨ (state ≠ .error ∧ doneThreshold ≤ p) then .done
  else .failed

/-- The last progress that was shown of the job of the last familiar snapshot. -/
def progressShown (os : List Observation) : Double :=
  ((lastOf familiar? os).map PrinterSnapshot.progress).getD 0

/-- A job was shown last, and the snapshot does not show it any more. -/
def EndsJob (pre : List Observation) (s : PrinterSnapshot) : Prop :=
  jobShown pre ≠ none ∧ s.job? ≠ jobShown pre

instance (pre : List Observation) (s : PrinterSnapshot) : Decidable (EndsJob pre s) :=
  inferInstanceAs (Decidable (jobShown pre ≠ none ∧ s.job? ≠ jobShown pre))

/-- The endings that an observation shows. -/
def endingsShown (pre : List Observation) (o : Observation) : List Event :=
  match familiar? o with
  | none => []
  | some s => if EndsJob pre s then [endingOf s.state (progressShown pre)] else []

/-- The endings that the tracker reports on an observation are those that it shows. -/
def EndsRight (pre : List Observation) (o : Observation) : Prop :=
  (((observeAll pre).1.observe o.1 o.2).2.filter fun e => e.IsEnding) = endingsShown pre o

instance (pre : List Observation) (o : Observation) : Decidable (EndsRight pre o) :=
  inferInstanceAs (Decidable (_ = _))

/-- A job that was seen at the threshold is over, and the printer is in an active state. -/
def EndsActive (pre : List Observation) (o : Observation) : Prop :=
  ∃ s ∈ familiar? o, EndsJob pre s ∧ s.state ∈ activeStates ∧ doneThreshold ≤ progressShown pre

/-! ## What the tracker knows -/

/-- The tracker knows the job that the last familiar snapshot showed, and its progress. -/
structure KnowsJob (t : JobTracker) (os : List Observation) : Prop where
  activeFile : t.activeFile = jobShown os
  lastProgress : t.activeFile ≠ none → t.lastProgress = progressShown os

theorem progressShown_concat (os : List Observation) (o : Observation) :
    progressShown (os ++ [o]) = match familiar? o with
      | some s => s.progress
      | none => progressShown os := by
  rw [progressShown, lastOf_concat]
  rcases familiar? o with _ | s <;> rfl

theorem KnowsJob.observe {t : JobTracker} {os : List Observation} (h : KnowsJob t os)
    (o : Observation) : KnowsJob (t.observe o.1 o.2).1 (os ++ [o]) := by
  refine ⟨activeFile_observe h.activeFile, ?_⟩
  obtain ⟨snapshot, now⟩ := o
  rw [progressShown_concat]
  dsimp only
  obtain ⟨t', es, hobserve, hobs⟩ := exists_observed t snapshot now
  rw [hobserve]
  cases hobs with
  | unread => exact h.lastProgress
  | unfamiliar hu => simpa [familiar?, Option.filter, hu] using h.lastProgress
  | idle _ ha _ => exact fun hne => absurd ha hne
  | begins _ hj => simp [familiar?_of_ne_unknown hj.state_ne]
  | continues _ hj _ => simp [familiar?_of_ne_unknown hj.state_ne]
  | pauses _ hj _ _ => simp [familiar?_of_ne_unknown hj.state_ne]
  | resumes _ hj _ _ => simp [familiar?_of_ne_unknown hj.state_ne]
  | ends _ _ _ => exact fun hne => absurd rfl hne
  | swaps _ hj _ => simp [familiar?_of_ne_unknown hj.state_ne]

theorem knows_observeAll (os : List Observation) : KnowsJob (observeAll os).1 os := by
  induction os using List.reverseRecOn with
  | nil => exact ⟨rfl, fun h => absurd rfl h⟩
  | append_singleton os o ih =>
    rw [observeAll, List.foldl_append]
    exact ih.observe o

/-! ## The endings -/

/-- What the tracker reports of an ending is right, but for a job that is followed by an active
state. -/
theorem endEvent_eq_iff {t : JobTracker} {s : PrinterSnapshot} (hs : s.state ≠ .unknown) :
    t.endEvent s = endingOf s.state t.lastProgress ↔
      ¬ (s.state ∈ activeStates ∧ doneThreshold ≤ t.lastProgress) := by
  unfold endEvent endingOf
  by_cases hdone : doneThreshold ≤ t.lastProgress <;> cases hstate : s.state <;>
    simp_all [activeStates]

/-- The tracker reports the end of a job when it is no longer shown. -/
theorem endings_observe {t : JobTracker} {os : List Observation} (h : t.activeFile = jobShown os)
    (o : Observation) :
    ((t.observe o.1 o.2).2.filter fun e => e.IsEnding) = match familiar? o with
      | none => []
      | some s => if EndsJob os s then [t.endEvent s] else [] := by
  obtain ⟨snapshot, now⟩ := o
  have hending (s : PrinterSnapshot) : decide (t.endEvent s).IsEnding = true :=
    decide_eq_true (endEvent_isEnding t s)
  dsimp only
  obtain ⟨t', es, hobserve, hobs⟩ := exists_observed t snapshot now
  rw [hobserve]
  cases hobs with
  | unread => rfl
  | unfamiliar hu => simp [familiar?, Option.filter, hu]
  | idle hu ha _ =>
    have hnone : jobShown os = none := h ▸ ha
    simp [familiar?_of_ne_unknown hu, EndsJob, hnone]
  | begins ha hj => simp [familiar?_of_ne_unknown hj.state_ne, EndsJob, ← h, ha, Event.IsEnding]
  | continues ha hj _ => simp [familiar?_of_ne_unknown hj.state_ne, EndsJob, ← h, ha, hj.job?_eq]
  | pauses ha hj _ _ =>
    simp [familiar?_of_ne_unknown hj.state_ne, EndsJob, ← h, ha, hj.job?_eq, Event.IsEnding]
  | resumes ha hj _ _ =>
    simp [familiar?_of_ne_unknown hj.state_ne, EndsJob, ← h, ha, hj.job?_eq, Event.IsEnding]
  | @ends s hu ha hj =>
    have hshown : jobShown os ≠ none := h ▸ ha
    have hends : EndsJob os s := by
      simpa [EndsJob, PrinterSnapshot.job?, hj] using ⟨hshown, hshown.symm⟩
    simp [familiar?_of_ne_unknown hu, hends, hending]
  | @swaps s f ha hj hne =>
    have hends : EndsJob os s := by simpa [EndsJob, ← h, ha, hj.job?_eq] using hne
    rw [familiar?_of_ne_unknown hj.state_ne]
    simp [hends, hending, show ¬ Event.started.IsEnding by decide]

theorem endsRight_iff (pre : List Observation) (o : Observation) :
    EndsRight pre o ↔ ¬ EndsActive pre o := by
  have h := knows_observeAll pre
  rw [EndsRight, endings_observe h.activeFile, endingsShown, EndsActive]
  rcases hs : familiar? o with _ | s
  · simp
  · have hu := (familiar?_eq_some_iff.mp hs).2
    by_cases hends : EndsJob pre s
    · have hne : (observeAll pre).1.activeFile ≠ none := h.activeFile ▸ hends.1
      simp [hends, ← h.lastProgress hne, endEvent_eq_iff hu]
    · simp [hends]

/-- **When the endings are reported right**, in every sequence of calls of `observe`. -/
theorem endings_right_iff (os : List Observation) :
    Along EndsRight os ↔ Along (fun pre o => ¬ EndsActive pre o) os := by
  constructor
  · exact fun h => h.mono fun pre o => (endsRight_iff pre o).mp
  · exact fun h => h.mono fun pre o => (endsRight_iff pre o).mpr

/-- A snapshot of a printer. -/
def reading (status fileName : String) (progress : Json) : Option PrinterSnapshot :=
  (parseSnapshot [("status", .str status), ("printFileName", .str fileName),
    ("printProgress", progress)]).toOption

/-- A job is seen at 100 %, and then the printer is busy without one. -/
def busyAfterJob : List Observation :=
  [(reading "printing" "a.gcode" (.int 1), 10), (reading "busy" "" (.int 0), 20)]

/-- A job that was seen at 100 % is reported as failed. -/
theorem busyAfterJob_fails :
    (observeAll busyAfterJob).2.map Report.event = [.started, .failed] ∧
      ¬ Along EndsRight busyAfterJob := by
  decide +kernel

end FlashforgeObico
