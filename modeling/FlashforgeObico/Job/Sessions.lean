import FlashforgeObico.Foundations.Transition
import FlashforgeObico.Job.Tracker

/-!
# Print sessions

What the job tracker is for: its events tell a chronicle of print sessions, one after another. A
`Session` begins with `PrintStarted` and goes on with pause changes that alternate; a
`FinishedSession` also has the event that ended it; a `Chronicle` is a list of finished sessions and
at most one that is still open. `Tells` links a tracker and what it reported so far to a chronicle,
and every call of `observe` keeps the link (`Tells.next`).
-/

namespace FlashforgeObico

/-! ## Sessions -/

/-- One call of `observe`: what was read of the printer, and when. -/
abbrev Observation := Option PrinterSnapshot × Time

/-- `n` pause changes, the first of a job that is paused or not. -/
def alternating (paused : Bool) : ℕ → List Event
  | 0 => []
  | n + 1 => (if paused then .resumed else .paused) :: alternating (!paused) n

/-- Whether a job that was paused or not is paused after `n` changes. -/
def pausedAfter (paused : Bool) : ℕ → Bool
  | 0 => paused
  | n + 1 => pausedAfter (!paused) n

theorem pausedAfter_succ (paused : Bool) (n : ℕ) :
    pausedAfter paused (n + 1) = !pausedAfter paused n := by
  induction n generalizing paused with
  | zero => rfl
  | succ n ih => exact ih (!paused)

theorem alternating_succ (paused : Bool) (n : ℕ) :
    alternating paused (n + 1) =
      alternating paused n ++ [if pausedAfter paused n then .resumed else .paused] := by
  induction n generalizing paused with
  | zero => rfl
  | succ n ih =>
    rw [alternating, ih (!paused)]
    rfl

/-- A session: the snapshot that first showed the job, when it did, and the number of pause changes
so far. -/
structure Session where
  first : PrinterSnapshot
  since : Time
  changes : ℕ
  hasJob : first.HasJob

namespace Session

/-- Whether the job was first seen paused. -/
def startedPaused (s : Session) : Bool := s.first.state = .paused

/-- The pause changes of a session. -/
def changeEvents (s : Session) : List Event := alternating s.startedPaused s.changes

/-- The pause state that was reported last, which is that of the first snapshot before any
change. -/
def reportedPaused (s : Session) : Bool :=
  match s.changeEvents.getLast? with
  | none => s.startedPaused
  | some e => e = .paused

/-- The events of a session so far. -/
def events (s : Session) : List Event := .started :: s.changeEvents

/-- The identifier of a session. -/
def ts (s : Session) : ℤ := s.since.toInt

/-- The observation that began a session. -/
def start (s : Session) : Observation := (some s.first, s.since)

/-- A session with one more pause change. -/
def change (s : Session) : Session := { s with changes := s.changes + 1 }

theorem reportedPaused_eq (s : Session) :
    s.reportedPaused = pausedAfter s.startedPaused s.changes := by
  unfold reportedPaused changeEvents
  rcases s.changes with _ | n
  · rfl
  · rw [alternating_succ, pausedAfter_succ]
    cases pausedAfter s.startedPaused n <;> simp

theorem reportedPaused_change (s : Session) : s.change.reportedPaused = !s.reportedPaused := by
  rw [reportedPaused_eq, reportedPaused_eq]
  exact pausedAfter_succ _ _

theorem events_change (s : Session) :
    s.change.events = s.events ++ [if s.reportedPaused then .resumed else .paused] := by
  rw [reportedPaused_eq]
  exact congrArg (List.cons Event.started) (alternating_succ s.startedPaused s.changes)

end Session

/-- A session with the event that ended it. -/
structure FinishedSession extends Session where
  ending : Event
  isEnding : ending.IsEnding

/-- The events of a finished session. -/
def FinishedSession.allEvents (s : FinishedSession) : List Event := s.events ++ [s.ending]

/-- Sessions one after another; only the last may be unfinished. -/
structure Chronicle where
  finished : List FinishedSession
  current : Option Session

namespace Chronicle

/-- The events of a chronicle. -/
def events (c : Chronicle) : List Event :=
  c.finished.flatMap FinishedSession.allEvents ++ c.current.toList.flatMap Session.events

/-- The sessions of a chronicle. -/
def sessions (c : Chronicle) : List Session :=
  c.finished.map FinishedSession.toSession ++ c.current.toList

/-- Before any observation. -/
def empty : Chronicle := { finished := [], current := none }

/-- A session begins, or the current one changes. -/
def withCurrent (c : Chronicle) (s : Session) : Chronicle := { c with current := some s }

/-- The session `s` ends. -/
def finish (c : Chronicle) (s : Session) (e : Event) (he : e.IsEnding) : Chronicle :=
  { finished := c.finished ++ [{ s with ending := e, isEnding := he }], current := none }

variable {c : Chronicle} {s : Session}

theorem events_begin (h : c.current = none) : (c.withCurrent s).events = c.events ++ s.events := by
  simp [events, withCurrent, h]

theorem events_change (h : c.current = some s) :
    (c.withCurrent s.change).events =
      c.events ++ [if s.reportedPaused then .resumed else .paused] := by
  simp [events, withCurrent, h, s.events_change]

theorem events_finish (h : c.current = some s) (e : Event) (he : e.IsEnding) :
    (c.finish s e he).events = c.events ++ [e] := by
  simp [events, finish, h, FinishedSession.allEvents]

theorem sessions_begin (h : c.current = none) : (c.withCurrent s).sessions = c.sessions ++ [s] := by
  simp [sessions, withCurrent, h]

theorem starts_change (h : c.current = some s) :
    (c.withCurrent s.change).sessions.map Session.start = c.sessions.map Session.start := by
  simp [sessions, withCurrent, h, Session.change, Session.start]

theorem sessions_finish (h : c.current = some s) (e : Event) (he : e.IsEnding) :
    (c.finish s e he).sessions = c.sessions := by
  simp [sessions, finish, h]

end Chronicle

/-! ## What the tracker tells -/

/-- An event, with the observation on which it was reported. -/
structure Report where
  event : Event
  seen : Observation
  deriving DecidableEq

/-- The observations on which sessions began. -/
def starts (rs : List Report) : List Observation :=
  (rs.filter fun r => r.event = .started).map Report.seen

theorem starts_append (rs rs' : List Report) : starts (rs ++ rs') = starts rs ++ starts rs' := by
  simp [starts]

namespace JobTracker

/-- One call of `observe`, adding its reports to those so far. -/
def next (h : JobTracker × List Report) (o : Observation) : JobTracker × List Report :=
  ((h.1.observe o.1 o.2).1, h.2 ++ (h.1.observe o.1 o.2).2.map fun e => ⟨e, o⟩)

/-- A sequence of calls from the initial tracker. -/
def observeAll (os : List Observation) : JobTracker × List Report := os.foldl next ({}, [])

end JobTracker

open JobTracker

/-- The tracker and its reports so far tell the chronicle `c`. -/
structure Tells (h : JobTracker × List Report) (c : Chronicle) : Prop where
  events : h.2.map Report.event = c.events
  starts : starts h.2 = c.sessions.map Session.start
  activeFile : h.1.activeFile = c.current.map fun s => s.first.fileName
  ts : h.1.currentPrintTs = (c.current.map Session.ts).getD (-1)
  paused : h.1.paused = (c.current.map Session.reportedPaused).getD false

namespace Tells

variable {t : JobTracker} {rs : List Report} {c : Chronicle} {s : Session}

theorem initial : Tells ({}, []) .empty := ⟨rfl, rfl, rfl, rfl, rfl⟩

theorem exists_current (h : Tells (t, rs) c) (ha : t.activeFile ≠ none) :
    ∃ s, c.current = some s ∧ t.activeFile = some s.first.fileName := by
  rcases hc : c.current with _ | s
  · exact absurd (by rw [h.activeFile, hc]; rfl) ha
  · exact ⟨s, rfl, by rw [h.activeFile, hc]; rfl⟩

theorem current_eq_none (h : Tells (t, rs) c) (ha : t.activeFile = none) : c.current = none :=
  Option.map_eq_none_iff.mp (h.activeFile.symm.trans ha)

/-- The last progress is no part of the story. -/
theorem progress (h : Tells (t, rs) c) (p : Double) : Tells ({ t with lastProgress := p }, rs) c :=
  ⟨h.events, h.starts, h.activeFile, h.ts, h.paused⟩

/-- A job begins. -/
theorem start (h : Tells (t, rs) c) (hc : c.current = none) {f : PrinterSnapshot} (hf : f.HasJob)
    (now : Time) : ∃ c', Tells (t.start f now, rs ++ [⟨.started, (some f, now)⟩]) c' := by
  refine ⟨c.withCurrent { first := f, since := now, changes := 0, hasJob := hf }, ?_, ?_,
    rfl, rfl, rfl⟩
  · rw [List.map_append, h.events, Chronicle.events_begin hc]
    rfl
  · rw [starts_append, h.starts, Chronicle.sessions_begin hc, List.map_append]
    rfl

/-- A pause change, to `paused`. -/
theorem change (h : Tells (t, rs) c) (hc : c.current = some s) {paused : Bool}
    (hp : t.paused = !paused) {e : Event} (he : e = if paused then .paused else .resumed)
    (o : Observation) : ∃ c', Tells ({ t with paused }, rs ++ [⟨e, o⟩]) c' := by
  have hs : s.reportedPaused = !paused := by
    rw [← hp, h.paused, hc]
    rfl
  have he' : e = if s.reportedPaused then .resumed else .paused := by
    rw [he, hs]
    cases paused <;> rfl
  refine ⟨c.withCurrent s.change, ?_, ?_, ?_, ?_, ?_⟩
  · rw [List.map_append, h.events, Chronicle.events_change hc, ← he']
    rfl
  · have hne : e ≠ .started := by
      rw [he]
      cases paused <;> decide
    rw [starts_append, h.starts, Chronicle.starts_change hc]
    simp [FlashforgeObico.starts, hne]
  · exact h.activeFile.trans (by rw [hc]; rfl)
  · exact h.ts.trans (by rw [hc]; rfl)
  · simp [Chronicle.withCurrent, s.reportedPaused_change, hs]

/-- The job ends. -/
theorem finish (h : Tells (t, rs) c) (hc : c.current = some s) {e : Event} (he : e.IsEnding)
    (o : Observation) : ∃ c', c'.current = none ∧ Tells (t.endJob, rs ++ [⟨e, o⟩]) c' := by
  refine ⟨c.finish s e he, rfl, ?_, ?_, rfl, rfl, rfl⟩
  · rw [List.map_append, h.events, Chronicle.events_finish hc]
    rfl
  · have hne : e ≠ .started := by
      rintro rfl
      exact absurd he (by decide)
    rw [starts_append, h.starts, Chronicle.sessions_finish hc]
    simp [FlashforgeObico.starts, hne]

/-- Every call of `observe` goes on with the story. -/
theorem next (h : Tells (t, rs) c) (o : Observation) :
    ∃ c', Tells (JobTracker.next (t, rs) o) c' := by
  obtain ⟨snapshot, now⟩ := o
  simp only [JobTracker.next]
  obtain ⟨t', es, hobserve, hobs⟩ := exists_observed t snapshot now
  rw [hobserve]
  cases hobs with
  | unread => exact ⟨c, by simpa using h⟩
  | unfamiliar _ => exact ⟨c, by simpa using h⟩
  | idle _ _ _ => exact ⟨c, by simpa using h⟩
  | begins ha hj =>
    obtain ⟨c', h'⟩ := h.start (h.current_eq_none ha) hj now
    exact ⟨c', h'.progress _⟩
  | continues _ _ _ => exact ⟨c, by simpa using h.progress _⟩
  | pauses ha _ hp _ =>
    obtain ⟨s, hc, -⟩ := h.exists_current (by simp [ha])
    obtain ⟨c', h'⟩ := h.change hc (show t.paused = !true from hp) rfl (some _, now)
    exact ⟨c', h'.progress _⟩
  | resumes ha _ hp _ =>
    obtain ⟨s, hc, -⟩ := h.exists_current (by simp [ha])
    obtain ⟨c', h'⟩ := h.change hc (show t.paused = !false from hp) rfl (some _, now)
    exact ⟨c', h'.progress _⟩
  | ends _ ha _ =>
    obtain ⟨s, hc, -⟩ := h.exists_current ha
    obtain ⟨c', -, h'⟩ := h.finish hc (endEvent_isEnding t _) (some _, now)
    exact ⟨c', h'⟩
  | swaps ha hj _ =>
    obtain ⟨s, hc, -⟩ := h.exists_current (by simp [ha])
    obtain ⟨c', hc', h'⟩ := h.finish hc (endEvent_isEnding t _) (some _, now)
    obtain ⟨c'', h''⟩ := h'.start hc' hj now
    exact ⟨c'', by simpa using h''.progress _⟩

/-- A tracker tells a chronicle after every sequence of calls. -/
theorem observeAll (os : List Observation) : ∃ c, Tells (JobTracker.observeAll os) c :=
  (Transition.run_ofTotal.mpr (rfl : os.foldl JobTracker.next ({}, []) = _)).invariant
    (I := fun h => ∃ c, Tells h c) ⟨_, initial⟩ fun _ o _ ⟨_, h⟩ ht => ht ▸ h.next o

end Tells

/-- One call reports nothing, one event, or the end of a session and the start of the next. -/
theorem observe_events (t : JobTracker) (o : Observation) :
    (t.observe o.1 o.2).2 = [] ∨ (∃ e, (t.observe o.1 o.2).2 = [e]) ∨
      ∃ e : Event, e.IsEnding ∧ (t.observe o.1 o.2).2 = [e, .started] := by
  obtain ⟨snapshot, now⟩ := o
  dsimp only
  obtain ⟨t', es, hobserve, hobs⟩ := exists_observed t snapshot now
  rw [hobserve]
  cases hobs with
  | unread => exact .inl rfl
  | unfamiliar _ => exact .inl rfl
  | idle _ _ _ => exact .inl rfl
  | begins _ _ => exact .inr (.inl ⟨_, rfl⟩)
  | continues _ _ _ => exact .inl rfl
  | pauses _ _ _ _ => exact .inr (.inl ⟨_, rfl⟩)
  | resumes _ _ _ _ => exact .inr (.inl ⟨_, rfl⟩)
  | ends _ _ _ => exact .inr (.inl ⟨_, rfl⟩)
  | swaps _ _ _ => exact .inr (.inr ⟨_, endEvent_isEnding t _, rfl⟩)

/-- **The events form a sequence of sessions.** After every sequence of calls of `observe`, the
events reported are those of a chronicle whose sessions began on the observations that reported
`PrintStarted`; a file is active, and `current_print_ts` is not `-1`, exactly while a session is
open; the file has a name; the tracker is paused only in an open session, and as last reported; and
the next call reports at most two events, two only as an end and a start. -/
theorem events_form_sessions (os : List Observation) :
    ∃ c : Chronicle,
      (observeAll os).2.map Report.event = c.events ∧
      starts (observeAll os).2 = c.sessions.map Session.start ∧
      ((observeAll os).1.activeFile ≠ none ↔ c.current ≠ none) ∧
      ((observeAll os).1.currentPrintTs ≠ -1 ↔ c.current ≠ none) ∧
      (observeAll os).1.activeFile ≠ some "" ∧
      ((observeAll os).1.paused = true → c.current ≠ none) ∧
      (∀ s, c.current = some s → (observeAll os).1.paused = s.reportedPaused) ∧
      ∀ o : Observation, ((observeAll os).1.observe o.1 o.2).2 = [] ∨
        (∃ e, ((observeAll os).1.observe o.1 o.2).2 = [e]) ∨
        ∃ e : Event, e.IsEnding ∧ ((observeAll os).1.observe o.1 o.2).2 = [e, .started] := by
  obtain ⟨c, h⟩ := Tells.observeAll os
  refine ⟨c, h.events, h.starts, ?_, ?_, ?_, ?_, ?_, observe_events _⟩
  · rw [h.activeFile, Ne, Option.map_eq_none_iff]
  · rw [h.ts]
    rcases c.current with _ | s
    · simp
    · simpa [Session.ts] using Time.toInt_ne s.since
  · rw [h.activeFile]
    rcases c.current with _ | s
    · simp
    · simpa using s.hasJob.1
  · rw [h.paused]
    rcases c.current with _ | s <;> simp
  · intro s hs
    rw [h.paused, hs]
    rfl

end FlashforgeObico
