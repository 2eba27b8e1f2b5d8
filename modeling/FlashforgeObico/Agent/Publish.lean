import FlashforgeObico.Agent.State

/-!
# Publishing

`_publish` and `_send_status`: the tracker runs over the current snapshot and Obico is told about
anything that changed, or at the latest after a heartbeat. `Published` says what one publish does,
and `published` that it does nothing else.
-/

namespace FlashforgeObico

open Py

/-- `HEARTBEAT_S`. -/
def heartbeatS : Time := 30

namespace Agent

/-- `_webcams`. -/
def webcams (a : Agent) : List Webcam :=
  let names := if a.cameras = [] then ["Printer"] else a.cameras.map Camera.name
  names.zipIdx.map fun p =>
    { name := p.1
      isPrimaryCamera := p.2 = 0
      streamUrl := a.config.cameraPublicUrl p.2 "stream"
      snapshotUrl := a.config.cameraPublicUrl p.2 "snapshot" }

/-- `None if self._settings_sent else build_settings(self._webcams())`. -/
def settings (a : Agent) : Option Settings :=
  if a.settingsSent then none else some (buildSettings a.webcams)

/-- `_send_status`. -/
def sendStatus (event : Option Event) (now : Time) : Method Unit := do
  let settings ← .gets settings
  let a ← .gets id
  let status ← .ofExcept (buildStatus a.snapshot a.tracker a.stateText now)
  emit (.sent (buildMessage status a.tracker.currentPrintTs event settings) a.tracker)
  .modify fun a => { a with settingsSent := true, lastSentAt := some now }

/-- The loop over `events[1:]`. -/
def sendEvents (now : Time) : List Event → Method Unit
  | [] => pure ()
  | event :: events => do
    sendStatus (some event) now
    sendEvents now events

/-- `now - self._last_sent_at >= HEARTBEAT_S`. -/
def HeartbeatDue (a : Agent) (now : Time) : Prop := ∀ t ∈ a.lastSentAt, t + heartbeatS ≤ now

instance (a : Agent) (now : Time) : Decidable (a.HeartbeatDue now) := by
  unfold HeartbeatDue
  infer_instance

/-- `_publish`. -/
def publish (now : Time) : Method Unit := do
  let a ← .gets id
  let observed := a.tracker.observe a.snapshot now
  .modify fun a => { a with tracker := observed.1 }
  emit (.observed a.snapshot now observed.2)
  let newText := obicoStateText a.snapshot a.stateText
  let changed : Bool := newText ≠ a.stateText ∨ observed.2 ≠ [] ∨ a.settingsSent = false
  .modify fun a => { a with stateText := newText }
  if changed ∨ a.HeartbeatDue now then
    sendStatus observed.2.head? now
    sendEvents now observed.2.tail

/-! ## What one publish does -/

/-- What the tracker makes of the current snapshot. -/
def observed (a : Agent) (now : Time) : JobTracker × List Event := a.tracker.observe a.snapshot now

/-- The state text of the current snapshot. -/
def newText (a : Agent) : StateText := obicoStateText a.snapshot a.stateText

/-- Something changed, or the last message is a heartbeat old. -/
def Due (a : Agent) (now : Time) : Prop :=
  a.newText ≠ a.stateText ∨ (a.observed now).2 ≠ [] ∨ a.settingsSent = false ∨ a.HeartbeatDue now

instance (a : Agent) (now : Time) : Decidable (a.Due now) := by
  unfold Due
  infer_instance

/-- The events that the messages of a publish carry, one entry a message. -/
def carried (a : Agent) (now : Time) : List (Option Event) :=
  if a.Due now then (a.observed now).2.head? :: (a.observed now).2.tail.map some else []

/-- The status that the messages of a publish show. -/
def newStatus (a : Agent) (now : Time) : Except Error (Option Status) :=
  buildStatus a.snapshot (a.observed now).1 a.newText now

/-- The status cannot be built exactly when the projected time left cannot. -/
theorem newStatus_error_iff (a : Agent) (now : Time) : (∃ e, a.newStatus now = .error e) ↔
    ∃ s e, a.snapshot = some s ∧ s.remainingEstimateS = .error e := by
  constructor
  · rintro ⟨e, he⟩
    obtain ⟨-, -, s, hs, hse⟩ := buildStatus_eq_error_iff.mp he
    exact ⟨s, e, hs, hse⟩
  · rintro ⟨s, e, hs, hse⟩
    have hj := PrinterSnapshot.hasJob_of_estimate_error hse
    refine ⟨e, buildStatus_eq_error_iff.mpr ⟨?_, ?_, s, hs, hse⟩⟩
    · rw [newText, hs, obicoStateText_of_hasJob hj]
      split_ifs <;> decide
    · rw [observed, hs]
      exact JobTracker.activeFile_observe_of_hasJob _ hj now

/-- What one publish does: the tracker and the state text are brought up to date, and messages `ms`
are sent that all show them. Nothing is sent when the status cannot be built. -/
structure Published (now : Time) (a : Agent) (r : Except Error Unit) (b : Agent)
    (ms : List Message) :
    Prop where
  eq : b = { a with
    tracker := (a.observed now).1
    stateText := a.newText
    settingsSent := b.settingsSent
    lastSentAt := b.lastSentAt
    trace := a.trace ++ .observed a.snapshot now (a.observed now).2 ::
      ms.map fun m => .sent m (a.observed now).1 }
  ts : ∀ m ∈ ms, m.currentPrintTs = (a.observed now).1.currentPrintTs
  status : ∀ m ∈ ms, a.newStatus now = .ok m.status
  carried : r = .ok () → ms.map Message.event = a.carried now
  error : ∀ e, r = .error e → ms = [] ∧ a.newStatus now = .error e

/-- The messages that `_send_status` sends one after another, each with its event. -/
def sending (status : Option Status) (now : Time) :
    List (Option Event) → Agent → Agent × List Message
  | [], a => (a, [])
  | event :: events, a =>
    let m := buildMessage status a.tracker.currentPrintTs event a.settings
    let rest := sending status now events
      { a.log [.sent m a.tracker] with settingsSent := true, lastSentAt := some now }
    (rest.1, m :: rest.2)

theorem sendStatus_of_ok {a : Agent} {now : Time} {status : Option Status} (event : Option Event)
    (h : buildStatus a.snapshot a.tracker a.stateText now = .ok status) :
    sendStatus event now a = (.ok (), (sending status now [event] a).1) := by
  simp [sendStatus, sending, Procedure.bind_apply, Procedure.gets, Procedure.ofExcept, h, emit,
    Procedure.modify]

theorem sendStatus_of_error {a : Agent} {now : Time} {e : Error} (event : Option Event)
    (h : buildStatus a.snapshot a.tracker a.stateText now = .error e) :
    sendStatus event now a = (.error e, a) := by
  simp [sendStatus, Procedure.bind_apply, Procedure.gets, Procedure.ofExcept, h]

theorem sendEvents_of_ok {now : Time} {status : Option Status} (events : List Event) {a : Agent}
    (h : buildStatus a.snapshot a.tracker a.stateText now = .ok status) :
    sendEvents now events a = (.ok (), (sending status now (events.map some) a).1) := by
  induction events generalizing a with
  | nil => rfl
  | cons event events ih =>
    rw [sendEvents, Procedure.bind_of_ok (sendStatus_of_ok (some event) h)]
    exact ih h

/-- Sending changes nothing but the record of what was sent. -/
theorem sending_eq (status : Option Status) (now : Time) (events : List (Option Event))
    (a : Agent) :
    (sending status now events a).1 = { a with
      settingsSent := (sending status now events a).1.settingsSent
      lastSentAt := (sending status now events a).1.lastSentAt
      trace := a.trace ++ (sending status now events a).2.map fun m => .sent m a.tracker } := by
  induction events generalizing a with
  | nil => simp [sending]
  | cons event events ih =>
    simp only [sending]
    rw [ih]
    simp [log]

theorem sending_spec (status : Option Status) (now : Time) (events : List (Option Event))
    (a : Agent) :
    (sending status now events a).2.map Message.event = events ∧
      ∀ m ∈ (sending status now events a).2,
        m.currentPrintTs = a.tracker.currentPrintTs ∧ m.status = status := by
  induction events generalizing a with
  | nil => simp [sending]
  | cons event events ih =>
    obtain ⟨h₁, h₂⟩ := ih
      { a.log [.sent (buildMessage status a.tracker.currentPrintTs event a.settings) a.tracker] with
        settingsSent := true
        lastSentAt := some now }
    refine ⟨by simp only [sending, List.map_cons, h₁]; rfl, ?_⟩
    intro m hm
    rcases List.mem_cons.mp hm with rfl | hm
    · exact ⟨rfl, rfl⟩
    · exact h₂ m hm

/-- The last message of a publish sets what the agent remembers of it. -/
theorem sending_sent (status : Option Status) (now : Time) {events : List (Option Event)}
    (a : Agent) (h : events ≠ []) :
    (sending status now events a).1.settingsSent = true ∧
      (sending status now events a).1.lastSentAt = some now := by
  induction events generalizing a with
  | nil => exact absurd rfl h
  | cons event events ih =>
    rcases events with _ | ⟨event', events⟩
    · exact ⟨rfl, rfl⟩
    · exact ih _ (by simp)

/-- The agent between the tracker's turn and the first message. -/
def observing (a : Agent) (now : Time) : Agent :=
  { a with
    tracker := (a.observed now).1
    stateText := a.newText
    trace := a.trace ++ [.observed a.snapshot now (a.observed now).2] }

theorem publish_eq (a : Agent) (now : Time) :
    publish now a = (if a.Due now then do
      sendStatus (a.observed now).2.head? now
      sendEvents now (a.observed now).2.tail else pure () : Method Unit) (a.observing now) := by
  have hdue : a.Due now ↔ (decide (obicoStateText a.snapshot a.stateText ≠ a.stateText ∨
      (a.tracker.observe a.snapshot now).2 ≠ [] ∨ a.settingsSent = false) = true ∨
      a.HeartbeatDue now) := by
    simp only [Due, newText, observed, decide_eq_true_eq, or_assoc]
  simp only [publish, Procedure.bind_apply, Procedure.gets, Procedure.modify, emit, id, ← hdue]
  rfl

theorem publish_of_not_due {a : Agent} {now : Time} (h : ¬ a.Due now) :
    publish now a = (.ok (), a.observing now) := by
  rw [publish_eq, if_neg h]
  rfl

theorem publish_of_error {a : Agent} {now : Time} {e : Error} (h : a.Due now)
    (hs : a.newStatus now = .error e) : publish now a = (.error e, a.observing now) := by
  rw [publish_eq, if_pos h]
  exact Procedure.bind_of_error (sendStatus_of_error _ (a := a.observing now) hs)

theorem publish_of_ok {a : Agent} {now : Time} {status : Option Status} (h : a.Due now)
    (hs : a.newStatus now = .ok status) :
    publish now a = (.ok (), (sending status now (a.carried now) (a.observing now)).1) := by
  have hs' : buildStatus (a.observing now).snapshot (a.observing now).tracker
      (a.observing now).stateText now = .ok status := hs
  have he : (sending status now ((a.observed now).2.tail.map some)
      (sending status now [(a.observed now).2.head?] (a.observing now)).1).1 =
      (sending status now (a.carried now) (a.observing now)).1 := by
    simp only [carried, if_pos h, sending]
  rw [publish_eq, if_pos h, Procedure.bind_of_ok (sendStatus_of_ok _ hs'), sendEvents_of_ok
    (a := (sending status now [(a.observed now).2.head?] (a.observing now)).1) _ hs', he]

/-- **What one publish does.** -/
theorem published (a : Agent) (now : Time) :
    ∃ ms, Published now a (publish now a).1 (publish now a).2 ms := by
  by_cases hdue : a.Due now
  · rcases hs : a.newStatus now with e | status
    · rw [publish_of_error hdue hs]
      exact ⟨[], rfl, by simp, by simp, by simp, by simpa using hs⟩
    · rw [publish_of_ok hdue hs]
      obtain ⟨h₁, h₂⟩ := sending_spec status now (a.carried now) (a.observing now)
      refine ⟨(sending status now (a.carried now) (a.observing now)).2, ?_,
        fun m hm => (h₂ m hm).1, fun m hm => by rw [hs, (h₂ m hm).2], fun _ => h₁, by simp⟩
      rw [sending_eq]
      simp [observing]
  · rw [publish_of_not_due hdue]
    exact ⟨[], rfl, by simp, by simp, by simp [carried, hdue], by simp⟩

theorem filterMap_carried (a : Agent) (now : Time) :
    (a.carried now).filterMap id = (a.observed now).2 := by
  rw [carried]
  rcases hev : (a.observed now).2 with _ | ⟨e, es⟩
  · split_ifs <;> rfl
  · have hdue : a.Due now := .inr (.inl (by simp [hev]))
    simp [hdue]

/-- The messages of a publish carry the events of the tracker, when the status can be built. -/
theorem Published.events {now : Time} {a b : Agent} {r : Except Error Unit} {ms : List Message}
    (hp : Published now a r b ms) (hok : ∀ e, a.newStatus now ≠ .error e) :
    ms.filterMap Message.event = (a.observed now).2 := by
  have hr : r = .ok () := by
    rcases r with e | ⟨⟩
    · exact absurd (hp.error e rfl).2 (hok e)
    · rfl
  rw [← filterMap_carried, ← hp.carried hr, List.filterMap_map]
  rfl

/-- A publish that is due raises when the status cannot be built. -/
theorem publish_raises {a : Agent} {now : Time} (hdue : a.Due now)
    (hs : ∃ e, a.newStatus now = .error e) : (publish now a).1 ≠ .ok () := by
  intro hr
  obtain ⟨ms, hp⟩ := published a now
  have hcarried := hp.carried hr
  rw [carried, if_pos hdue] at hcarried
  rcases ms with _ | ⟨m, ms⟩
  · cases hcarried
  · obtain ⟨e, he⟩ := hs
    have hstatus := hp.status m (by simp)
    rw [he] at hstatus
    cases hstatus

end Agent

end FlashforgeObico
