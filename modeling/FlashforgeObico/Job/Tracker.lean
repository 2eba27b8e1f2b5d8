import FlashforgeObico.Flashforge.Snapshot
import Mathlib.Data.NNRat.Floor

/-!
# The job tracker

`job_tracker.py`: consecutive snapshots become Obico print events. `current_print_ts` is the integer
that identifies one print session, `-1` without a job.

`JobTracker.Observed` lists what one call of `observe` can do, each case under its guards, and
`observed` says that there are no others; the invariants of the tracker are proved by going through
its cases.
-/

namespace FlashforgeObico

/-- The readings of the clock: seconds since the epoch, never negative. -/
abbrev Time := ℚ≥0

/-- `int(now)`. -/
def Time.toInt (now : Time) : ℤ := ⌊now⌋₊

theorem Time.toInt_ne (now : Time) : now.toInt ≠ -1 := by
  unfold Time.toInt
  omega

/-- `Event`. -/
inductive Event
  | started
  | paused
  | resumed
  | done
  | cancelled
  | failed
  deriving DecidableEq, Repr

/-- The string value of an event. -/
def Event.value : Event → String
  | started => "PrintStarted"
  | paused => "PrintPaused"
  | resumed => "PrintResumed"
  | done => "PrintDone"
  | cancelled => "PrintCancelled"
  | failed => "PrintFailed"

/-- The events that end a session. -/
def Event.IsEnding (e : Event) : Prop := e = .done ∨ e = .cancelled ∨ e = .failed

instance (e : Event) : Decidable e.IsEnding :=
  inferInstanceAs (Decidable (e = .done ∨ e = .cancelled ∨ e = .failed))

/-- `DONE_THRESHOLD`. -/
def doneThreshold : Double := .round64 (995 / 1000)

/-- `JobTracker`. -/
structure JobTracker where
  currentPrintTs : ℤ := -1
  activeFile : Option String := none
  paused : Bool := false
  lastProgress : Double := 0
  deriving DecidableEq

namespace JobTracker

/-- `_start`. -/
def start (t : JobTracker) (s : PrinterSnapshot) (now : Time) : JobTracker :=
  { t with
    currentPrintTs := now.toInt
    activeFile := some s.fileName
    paused := s.state = .paused }

/-- `_pause_transition`. -/
def pauseTransition (t : JobTracker) (s : PrinterSnapshot) : JobTracker × List Event :=
  let pausedNow : Bool := s.state = .paused
  if pausedNow = t.paused then (t, [])
  else ({ t with paused := pausedNow }, [if pausedNow then .paused else .resumed])

/-- `_end_event`. -/
def endEvent (t : JobTracker) (s : PrinterSnapshot) : Event :=
  if s.state = .completed then .done
  else if s.state = .cancelled then .cancelled
  else if s.state = .ready ∧ doneThreshold ≤ t.lastProgress then .done
  else .failed

/-- The fields that `_end` resets. -/
def endJob (t : JobTracker) : JobTracker :=
  { t with currentPrintTs := -1, activeFile := none, paused := false, lastProgress := 0 }

@[simp] theorem endJob_currentPrintTs (t : JobTracker) : t.endJob.currentPrintTs = -1 := rfl

@[simp] theorem endJob_activeFile (t : JobTracker) : t.endJob.activeFile = none := rfl

@[simp] theorem endJob_paused (t : JobTracker) : t.endJob.paused = false := rfl

/-- The snapshot no longer shows the active job: there is none, or its file name is another. -/
def Leaves (t : JobTracker) (s : PrinterSnapshot) : Prop :=
  t.activeFile ≠ none ∧ (¬ s.HasJob ∨ some s.fileName ≠ t.activeFile)

instance (t : JobTracker) (s : PrinterSnapshot) : Decidable (t.Leaves s) :=
  inferInstanceAs (Decidable (t.activeFile ≠ none ∧ (¬ s.HasJob ∨ some s.fileName ≠ t.activeFile)))

/-- A snapshot of the active job does not leave it. -/
theorem not_leaves_of_same {t : JobTracker} {s : PrinterSnapshot}
    (ha : t.activeFile = some s.fileName) (hj : s.HasJob) : ¬ t.Leaves s := by
  rintro ⟨-, h | h⟩
  · exact h hj
  · exact h ha.symm

/-- The first half of `observe`: end the session that the snapshot no longer shows. -/
def leave (t : JobTracker) (s : PrinterSnapshot) : JobTracker × List Event :=
  if t.Leaves s then (t.endJob, [t.endEvent s]) else (t, [])

/-- The second half of `observe`, on a snapshot with a job. -/
def follow (t : JobTracker) (s : PrinterSnapshot) (now : Time) : JobTracker × List Event :=
  if t.activeFile = none then (t.start s now, [.started]) else t.pauseTransition s

/-- `observe`. No snapshot means that the printer could not be read; an unknown state is not a
change. -/
def observe (t : JobTracker) (snapshot : Option PrinterSnapshot) (now : Time) :
    JobTracker × List Event :=
  match snapshot with
  | none => (t, [])
  | some s =>
    if s.state = .unknown then (t, [])
    else
      let left := t.leave s
      if s.HasJob then
        let followed := left.1.follow s now
        ({ followed.1 with lastProgress := s.progress }, left.2 ++ followed.2)
      else left

/-! ## What one call can do -/

/-- The cases of `observe`, each with its guard, the tracker after it and the events it reports. -/
inductive Observed (t : JobTracker) (now : Time) :
    Option PrinterSnapshot → JobTracker → List Event → Prop
  /-- The printer could not be read. -/
  | unread : Observed t now none t []
  /-- The state is not one of the known ones. -/
  | unfamiliar {s} : s.state = .unknown → Observed t now (some s) t []
  /-- No job before, none now. -/
  | idle {s} : s.state ≠ .unknown → t.activeFile = none → ¬ s.HasJob → Observed t now (some s) t []
  /-- A job where there was none. -/
  | begins {s} : t.activeFile = none → s.HasJob →
      Observed t now (some s) { t.start s now with lastProgress := s.progress } [.started]
  /-- The same job in the same pause state. -/
  | continues {s} : t.activeFile = some s.fileName → s.HasJob →
      t.paused = decide (s.state = .paused) →
      Observed t now (some s) { t with lastProgress := s.progress } []
  /-- The same job was paused. -/
  | pauses {s} : t.activeFile = some s.fileName → s.HasJob → t.paused = false → s.state = .paused →
      Observed t now (some s) { t with paused := true, lastProgress := s.progress } [.paused]
  /-- The same job was resumed. -/
  | resumes {s} : t.activeFile = some s.fileName → s.HasJob → t.paused = true → s.state ≠ .paused →
      Observed t now (some s) { t with paused := false, lastProgress := s.progress } [.resumed]
  /-- The job is over and no other is shown. -/
  | ends {s} : s.state ≠ .unknown → t.activeFile ≠ none → ¬ s.HasJob →
      Observed t now (some s) t.endJob [t.endEvent s]
  /-- Another job is shown. -/
  | swaps {s f} : t.activeFile = some f → s.HasJob → s.fileName ≠ f →
      Observed t now (some s) { t.endJob.start s now with lastProgress := s.progress }
        [t.endEvent s, .started]

theorem observed (t : JobTracker) (snapshot : Option PrinterSnapshot) (now : Time) :
    Observed t now snapshot (t.observe snapshot now).1 (t.observe snapshot now).2 := by
  rcases snapshot with _ | s
  · exact .unread
  by_cases hu : s.state = .unknown
  · simpa [observe, hu] using Observed.unfamiliar hu
  rcases hf : t.activeFile with _ | f
  · have hl : ¬ t.Leaves s := fun h => h.1 hf
    by_cases hj : s.HasJob
    · simpa [observe, hu, leave, hl, follow, hf, hj] using Observed.begins hf hj
    · simpa [observe, hu, leave, hl, hj] using Observed.idle hu hf hj
  by_cases hj : s.HasJob
  · by_cases hsame : s.fileName = f
    · have hf' : t.activeFile = some s.fileName := by rw [hf, hsame]
      have hl : ¬ t.Leaves s := not_leaves_of_same hf' hj
      -- the same job: what is left to decide is whether its pause state changed
      by_cases hp : t.paused = decide (s.state = .paused)
      · simpa [observe, hu, leave, hl, follow, hf, hj, pauseTransition, hp] using
          (Observed.continues hf' hj hp : Observed t now _ _ _)
      · by_cases hs : s.state = .paused
        · have hp' : t.paused = false := by simpa [hs] using hp
          simpa [observe, hu, leave, hl, follow, hf, hj, pauseTransition, hs, hp'] using
            (Observed.pauses hf' hj hp' hs : Observed t now _ _ _)
        · have hp' : t.paused = true := by simpa [hs] using hp
          simpa [observe, hu, leave, hl, follow, hf, hj, pauseTransition, hs, hp'] using
            (Observed.resumes hf' hj hp' hs : Observed t now _ _ _)
    · have hl : t.Leaves s := ⟨by simp [hf], Or.inr (by simpa [hf] using hsame)⟩
      simpa [observe, hu, leave, hl, follow, hj, endJob] using
        (Observed.swaps hf hj hsame : Observed t now _ _ _)
  · have hl : t.Leaves s := ⟨by simp [hf], Or.inl hj⟩
    simpa [observe, hu, leave, hl, hj] using (Observed.ends hu hl.1 hj : Observed t now _ _ _)

/-- What a call comes to and reports, taken apart. -/
theorem exists_observed (t : JobTracker) (snapshot : Option PrinterSnapshot) (now : Time) :
    ∃ t' es, t.observe snapshot now = (t', es) ∧ Observed t now snapshot t' es :=
  ⟨_, _, rfl, observed t snapshot now⟩

/-- A job that is shown is active. -/
theorem activeFile_observe_of_hasJob (t : JobTracker) {s : PrinterSnapshot} (h : s.HasJob)
    (now : Time) :
    (t.observe (some s) now).1.activeFile ≠ none := by
  obtain ⟨t', es, hobserve, hobs⟩ := exists_observed t (some s) now
  rw [hobserve]
  cases hobs with
  | unfamiliar hu => exact absurd hu h.state_ne
  | idle _ _ hj => exact absurd h hj
  | begins _ _ => simp [start]
  | continues ha _ _ => simp [ha]
  | pauses ha _ _ _ => simp [ha]
  | resumes ha _ _ _ => simp [ha]
  | ends _ _ hj => exact absurd h hj
  | swaps _ _ _ => simp [start]

theorem endEvent_isEnding (t : JobTracker) (s : PrinterSnapshot) : (t.endEvent s).IsEnding := by
  unfold endEvent
  split_ifs <;> simp [Event.IsEnding]

/-! ## Observing a snapshot twice -/

section Again

variable {t : JobTracker} {s : PrinterSnapshot}

theorem observe_of_same (ha : t.activeFile = some s.fileName) (hj : s.HasJob)
    (hp : t.paused = decide (s.state = .paused)) (hl : t.lastProgress = s.progress) (now : Time) :
    t.observe (some s) now = (t, []) := by
  have hleaves : ¬ t.Leaves s := not_leaves_of_same ha hj
  have hfollow : t.follow s now = (t, []) := by
    rw [follow, if_neg (by simp [ha]), pauseTransition, if_pos hp.symm]
  simp only [observe, hj.state_ne, if_false, leave, hleaves, hj, if_true, hfollow, ← hl,
    List.append_nil]

theorem observe_of_idle (ha : t.activeFile = none) (hj : ¬ s.HasJob) (now : Time) :
    t.observe (some s) now = (t, []) := by
  simp [observe, leave, Leaves, ha, hj]

/-- A snapshot that is observed again is no change. -/
theorem observe_again (t : JobTracker) (s : PrinterSnapshot) (now now' : Time) :
    (t.observe (some s) now).1.observe (some s) now' = ((t.observe (some s) now).1, []) := by
  obtain ⟨t', es, hobserve, hobs⟩ := exists_observed t (some s) now
  rw [hobserve]
  cases hobs with
  | unfamiliar hu => simp [observe, hu]
  | idle _ ha hj => exact observe_of_idle ha hj now'
  | begins ha hj => exact observe_of_same rfl hj rfl rfl now'
  | continues ha hj hp =>
    exact observe_of_same (t := { t with lastProgress := s.progress }) ha hj hp rfl now'
  | pauses ha hj _ hs =>
    exact observe_of_same (t := { t with paused := true, lastProgress := s.progress }) ha hj
      (by simp [hs]) rfl now'
  | resumes ha hj _ hs =>
    exact observe_of_same (t := { t with paused := false, lastProgress := s.progress }) ha hj
      (by simp [hs]) rfl now'
  | ends _ _ hj => exact observe_of_idle rfl hj now'
  | swaps _ hj _ => exact observe_of_same rfl hj rfl rfl now'

end Again

end JobTracker

end FlashforgeObico
