import FlashforgeObico.Agent.EventLabels
import FlashforgeObico.Agent.Poll

/-!
# Readings that arrive late

The poll thread and the executions of `execute_command` both ask the printer for `detail`, store the
reply in `_snapshot` and publish. Only the executions hold `_command_lock`, so the reply to an
earlier request may be stored, and published, after that to a later one: the events then go back in
the printer's history. `reports_follow_history` says that they follow it in the runs in which no
reply is stored after a later state of the printer has been observed.

What else the threads do between these steps changes neither `_snapshot` nor the tracker, and is
left out.
-/

namespace FlashforgeObico

open Py Transition JobTracker

/-! ## What a publish sends -/

namespace Agent

/-- The events that Obico was sent. -/
def sentEvents (a : Agent) : List Event :=
  (a.trace.filterMap Effect.message?).filterMap Message.event

/-- Store a reply in `_snapshot`. -/
def stored (a : Agent) (s : PrinterSnapshot) : Agent :=
  { a with snapshot := some s }.log [.detail (some s)]

theorem sentEvents_stored (a : Agent) (s : PrinterSnapshot) :
    (a.stored s).sentEvents = a.sentEvents := by
  simp [sentEvents, stored, log, Effect.message?]

/-- The events of a publish are those of the tracker, when the status can be built. -/
theorem sentEvents_publish (a : Agent) (now : Time) (hok : ∀ e, a.newStatus now ≠ .error e) :
    (publish now a).2.sentEvents = a.sentEvents ++ (a.tracker.observe a.snapshot now).2 := by
  obtain ⟨ms, hp⟩ := published a now
  have hmessages : (publish now a).2.trace.filterMap Effect.message? =
      a.trace.filterMap Effect.message? ++ ms := by
    rw [hp.eq, List.filterMap_append, List.filterMap_cons_none rfl, filterMap_message?_sent]
  rw [sentEvents, hmessages, List.filterMap_append, hp.events hok]
  rfl

theorem tracker_publish (a : Agent) (now : Time) :
    (publish now a).2.tracker = (a.tracker.observe a.snapshot now).1 := by
  obtain ⟨ms, hp⟩ := published a now
  rw [hp.eq]
  rfl

theorem snapshot_publish (a : Agent) (now : Time) : (publish now a).2.snapshot = a.snapshot := by
  obtain ⟨ms, hp⟩ := published a now
  rw [hp.eq]

end Agent

/-! ## The two threads -/

/-- A thread that reads the printer. -/
inductive ReadingThread
  | poll
  | command
  deriving DecidableEq

/-- The place of a thread. A reading is the number of the printer's state that a reply has captured;
there is none when the request failed. -/
inductive ReadingPlace
  | idle
  /-- The request of a poll has captured a reading, which is not stored. -/
  | polled (reading : Option ℕ)
  | publishing
  /-- In `execute_command`, with the lock. -/
  | executing
  /-- The request of a read-back has captured a reading, which is not stored. -/
  | readBack (reading : Option ℕ)
  /-- An exception has left the poll loop. -/
  | ended
  deriving DecidableEq

/-- The reading that a thread has not stored. -/
def ReadingPlace.reading? : ReadingPlace → Option ℕ
  | polled reading | readBack reading => reading
  | _ => none

/-- The agent with its two threads, and the number of the printer's present state. -/
structure Readings where
  agent : Agent
  present : ℕ := 0
  places : ReadingThread → ReadingPlace := fun _ => .idle
  /-- `_command_lock`. -/
  lock : Option ReadingThread := none
  /-- The state that `_snapshot` shows. -/
  shown : Option ℕ := none
  /-- The state that the tracker has observed last. -/
  observed : Option ℕ := none

/-- A change of the printer's state, or a step of a thread. -/
inductive ReadingMove
  | advance
  /-- The request of a poll. -/
  | poll (fails : Bool)
  /-- The end of `_read_printer`. -/
  | refresh
  | publish (now : Time)
  | execute (t : ReadingThread)
  /-- The request of a read-back. -/
  | readBack (t : ReadingThread) (fails : Bool)
  | store (t : ReadingThread)
  /-- The publish at the end of `execute_command`. -/
  | finish (t : ReadingThread) (now : Time)
  /-- `execute_command` ignores its command. -/
  | ignore (t : ReadingThread)

namespace Readings

/-- Put a thread in another place. -/
def place (s : Readings) (t : ReadingThread) (p : ReadingPlace) : Readings :=
  { s with places := Function.update s.places t p }

/-- What a request captures. -/
def capture (s : Readings) (fails : Bool) : Option ℕ := if fails then none else some s.present

/-- A thread publishes. An exception ends the poll loop, and only the execution in the other
thread. -/
def report (s : Readings) (t : ReadingThread) (now : Time) : Readings :=
  let r := Agent.publish now s.agent
  { s with agent := r.2, observed := s.shown.or s.observed }.place t
    (match r.1, t with
      | .error _, .poll => .ended
      | _, _ => .idle)

/-- A step, for the states that the printer goes through; `none` when the thread is elsewhere. -/
def step (states : ℕ → PrinterSnapshot) (s : Readings) : ReadingMove → Option Readings
  | .advance => some { s with present := s.present + 1 }
  | .poll fails =>
    if s.places .poll = .idle then some (s.place .poll (.polled (s.capture fails))) else none
  | .refresh =>
    match s.places .poll with
    | .polled (some n) =>
      some ({ s with
        agent := { s.agent.stored (states n) with failures := 0 }, shown := some n }.place
        .poll .publishing)
    | .polled none =>
      let agent := { s.agent with failures := s.agent.failures + 1 }.log [.detail none]
      if agent.failures < offlineAfterFailures then some ({ s with agent }.place .poll .idle)
      else
        some ({ s with
          agent := { agent with snapshot := none }, shown := none }.place .poll .publishing)
    | _ => none
  | .publish now => if s.places .poll = .publishing then some (s.report .poll now) else none
  | .execute t =>
    if s.places t = .idle ∧ s.lock = none then some ({ s with lock := some t }.place t .executing)
    else none
  | .readBack t fails =>
    if s.places t = .executing then some (s.place t (.readBack (s.capture fails))) else none
  | .store t =>
    match s.places t with
    | .readBack (some n) =>
      some ({ s with agent := s.agent.stored (states n), shown := some n }.place t .executing)
    | .readBack none =>
      some ({ s with agent := s.agent.log [.detail none] }.place t .executing)
    | _ => none
  | .finish t now =>
    if s.places t = .executing then some ({ s with lock := none }.report t now) else none
  | .ignore t =>
    if s.places t = .executing then some ({ s with lock := none }.place t .idle) else none

/-! ## The printer's history -/

/-- The printer's states with these numbers, observed at these times. -/
def observations (states : ℕ → PrinterSnapshot) (os : List (ℕ × Time)) : List Observation :=
  os.map fun o => (some (states o.1), o.2)

theorem observeAll_concat (states : ℕ → PrinterSnapshot) (os : List (ℕ × Time)) (o : ℕ × Time) :
    observeAll (observations states (os ++ [o])) =
      next (observeAll (observations states os)) (some (states o.1), o.2) := by
  rw [observations, List.map_append, observeAll, List.foldl_append]
  rfl

/-- The events that Obico was sent are those of the tracker on some of the printer's states so far,
in their order. -/
def FollowsHistory (states : ℕ → PrinterSnapshot) (s : Readings) : Prop :=
  ∃ os : List (ℕ × Time), (os.map Prod.fst).Pairwise (· < ·) ∧ (∀ o ∈ os, o.1 ≤ s.present) ∧
    s.agent.sentEvents = (observeAll (observations states os)).2.map Report.event

/-- A reply is stored only if no later state has been observed, and the status of what is published
can be built. -/
def InTime (s : Readings) : ReadingMove → Prop
  | .refresh => ∀ n ∈ (s.places .poll).reading?, ∀ m ∈ s.observed, m ≤ n
  | .store t => ∀ n ∈ (s.places t).reading?, ∀ m ∈ s.observed, m ≤ n
  | .publish _ | .finish _ _ => ∀ x ∈ s.agent.snapshot, x.remainingEstimateS.isOk
  | _ => True

instance (s : Readings) (m : ReadingMove) : Decidable (s.InTime m) := by
  cases m <;> unfold InTime <;> infer_instance

/-- The tracker has observed some of the states in their order, and `_snapshot` shows none before
them. -/
structure Chronological (states : ℕ → PrinterSnapshot) (s : Readings) : Prop where
  history : ∃ os : List (ℕ × Time), (os.map Prod.fst).Pairwise (· < ·) ∧
    (os.map Prod.fst).getLast? = s.observed ∧
    s.agent.tracker = (observeAll (observations states os)).1 ∧
    s.agent.sentEvents = (observeAll (observations states os)).2.map Report.event
  snapshot : s.agent.snapshot = s.shown.map states
  order : ∀ n ∈ s.shown, ∀ m ∈ s.observed, m ≤ n
  observed : ∀ m ∈ s.observed, m ≤ s.present
  shown : ∀ n ∈ s.shown, n ≤ s.present
  captured : ∀ t, ∀ n ∈ (s.places t).reading?, n ≤ s.present

theorem chronological_initial (states : ℕ → PrinterSnapshot) (config : Config)
    (cameras : List Camera)
    (reserver : Option (List Camera)) :
    Chronological states { agent := Agent.initial config cameras reserver } := by
  refine ⟨⟨[], .nil, rfl, rfl, rfl⟩, rfl, ?_, ?_, ?_, ?_⟩ <;> simp [ReadingPlace.reading?]

variable {states : ℕ → PrinterSnapshot} {s t : Readings} {m : ReadingMove}

/-- A list of states in their order ends with the latest. -/
theorem le_of_getLast? {ns : List ℕ} {m n : ℕ} (h : ns.Pairwise (· < ·)) (hm : ns.getLast? = some m)
    (hn : n ∈ ns) : n ≤ m := by
  obtain ⟨ns', rfl⟩ := List.getLast?_eq_some_iff.mp hm
  rcases List.mem_append.mp hn with hn | hn
  · exact ((List.pairwise_append.mp h).2.2 n hn m List.mem_cons_self).le
  · rw [List.mem_singleton.mp hn]

theorem Chronological.followsHistory (h : s.Chronological states) : s.FollowsHistory states := by
  obtain ⟨os, hos, hlast, -, hevents⟩ := h.history
  refine ⟨os, hos, fun o ho => ?_, hevents⟩
  have hmem : o.1 ∈ os.map Prod.fst := List.mem_map_of_mem ho
  rcases hobserved : s.observed with _ | m
  · rw [hobserved, List.getLast?_eq_none_iff] at hlast
    simp [hlast] at hmem
  · exact (le_of_getLast? hos (hlast.trans hobserved) hmem).trans (h.observed m hobserved)

/-- The tracker after it has observed the state that `_snapshot` shows. -/
theorem Chronological.observe (h : s.Chronological states) (now : Time) :
    ∃ os : List (ℕ × Time), (os.map Prod.fst).Pairwise (· < ·) ∧
      (os.map Prod.fst).getLast? = s.shown.or s.observed ∧
      (s.agent.tracker.observe s.agent.snapshot now).1 = (observeAll (observations states os)).1 ∧
      s.agent.sentEvents ++ (s.agent.tracker.observe s.agent.snapshot now).2 =
        (observeAll (observations states os)).2.map Report.event := by
  obtain ⟨os, hos, hlast, htracker, hevents⟩ := h.history
  rcases hshown : s.shown with _ | n
  · -- Nothing is shown, and nothing is observed.
    have hsnapshot : s.agent.snapshot = none := by simp [h.snapshot, hshown]
    refine ⟨os, hos, by simpa using hlast, ?_, ?_⟩
    · rw [hsnapshot, ← htracker]
      rfl
    · rw [hsnapshot, ← hevents]
      exact List.append_nil _
  have hsnapshot : s.agent.snapshot = some (states n) := by simp [h.snapshot, hshown]
  by_cases hsame : s.observed = some n
  · -- The state was the last to be observed, and is observed again.
    obtain ⟨ns, hns⟩ := List.getLast?_eq_some_iff.mp (hlast.trans hsame)
    obtain ⟨before, last, rfl, -, hlastn⟩ := List.map_eq_append_iff.mp hns
    obtain ⟨now', rfl⟩ : ∃ now', last = [(n, now')] := by
      obtain ⟨o, ho, rfl⟩ := List.map_eq_singleton_iff.mp hlastn
      exact ⟨o.2, by rw [ho]⟩
    have hagain : s.agent.tracker.observe (some (states n)) now = (s.agent.tracker, []) := by
      rw [htracker, observeAll_concat]
      exact observe_again _ _ now' now
    refine ⟨before ++ [(n, now')], hos, by simp, ?_, ?_⟩
    · rw [hsnapshot, hagain, htracker]
    · rw [hsnapshot, hagain, List.append_nil, hevents]
  · refine ⟨os ++ [(n, now)], ?_, by simp, ?_, ?_⟩
    · rw [List.map_append, List.pairwise_append]
      refine ⟨hos, List.pairwise_singleton _ _, fun k hk j hj => ?_⟩
      obtain rfl : j = n := by simpa using hj
      rcases hobserved : s.observed with _ | m
      · rw [hobserved, List.getLast?_eq_none_iff] at hlast
        simp [hlast] at hk
      · have hkm := le_of_getLast? hos (hlast.trans hobserved) hk
        have hmj := h.order j hshown m hobserved
        have hne : m ≠ j := fun hmj => hsame (hmj ▸ hobserved)
        omega
    · rw [hsnapshot, htracker, observeAll_concat]
      rfl
    · rw [hsnapshot, hevents, htracker, observeAll_concat]
      simp [next, Function.comp_def]

/-- A thread goes elsewhere, perhaps with a reading of a state that the printer has been in. -/
theorem Chronological.place (h : s.Chronological states) (t : ReadingThread) {p : ReadingPlace}
    (hp : ∀ n ∈ p.reading?, n ≤ s.present) : (s.place t p).Chronological states := by
  refine ⟨h.history, h.snapshot, h.order, h.observed, h.shown, fun u n hu => ?_⟩
  by_cases hut : u = t
  · subst hut
    exact hp n (by simpa [Readings.place] using hu)
  · exact h.captured u n (by simpa [Readings.place, hut] using hu)

/-- A publish observes the state that `_snapshot` shows. -/
theorem Chronological.report (h : s.Chronological states)
    (hok : ∀ x ∈ s.agent.snapshot, x.remainingEstimateS.isOk) (t : ReadingThread) (now : Time) :
    (s.report t now).Chronological states := by
  have hstatus : ∀ e, s.agent.newStatus now ≠ .error e := by
    intro e he
    obtain ⟨x, e', hx, hestimate⟩ := (Agent.newStatus_error_iff s.agent now).mp ⟨e, he⟩
    have hx' := hok x hx
    simp [hestimate, Except.isOk, Except.toBool] at hx'
  obtain ⟨os, hos, hlast, htracker, hevents⟩ := h.observe now
  have hreported : Chronological states
      { s with agent := (Agent.publish now s.agent).2, observed := s.shown.or s.observed } := by
    refine ⟨⟨os, hos, hlast, ?_, ?_⟩, ?_, ?_, ?_, h.shown, h.captured⟩
    · exact (Agent.tracker_publish s.agent now).trans htracker
    · exact (Agent.sentEvents_publish s.agent now hstatus).trans hevents
    · exact (Agent.snapshot_publish s.agent now).trans h.snapshot
    · intro n hn m hm
      have hn' : s.shown = some n := hn
      have hm' : s.shown.or s.observed = some m := hm
      obtain rfl : n = m := by simpa [hn'] using hm'
      exact le_rfl
    · intro m hm
      rcases Option.or_eq_some_iff.mp hm with hm | ⟨-, hm⟩
      · exact h.shown m hm
      · exact h.observed m hm
  refine hreported.place t fun n => ?_
  split <;> simp [ReadingPlace.reading?]

/-- A reply is stored that captured no earlier state than the one observed last. -/
theorem Chronological.stored (h : s.Chronological states) {n : ℕ} (hn : n ≤ s.present)
    (hobserved : ∀ m ∈ s.observed, m ≤ n) (failures : ℕ) :
    Chronological states
      { s with agent := { s.agent.stored (states n) with failures }, shown := some n } := by
  obtain ⟨os, hos, hlast, htracker, hevents⟩ := h.history
  refine ⟨⟨os, hos, hlast, htracker, ?_⟩, rfl, ?_, h.observed, ?_, h.captured⟩
  · exact (Agent.sentEvents_stored s.agent (states n)).trans hevents
  · rintro n' ⟨⟩ m hm
    exact hobserved m hm
  · rintro n' ⟨⟩
    exact hn

/-- The agent changes in what is no matter here. -/
theorem Chronological.agent (h : s.Chronological states) {a : Agent}
    (htracker : a.tracker = s.agent.tracker) (hevents : a.sentEvents = s.agent.sentEvents)
    (hsnapshot : a.snapshot = s.agent.snapshot) : Chronological states { s with agent := a } := by
  obtain ⟨os, hos, hlast, htracker', hevents'⟩ := h.history
  exact ⟨⟨os, hos, hlast, htracker.trans htracker', hevents.trans hevents'⟩,
    hsnapshot.trans h.snapshot, h.order, h.observed, h.shown, h.captured⟩

/-- The printer is offline. -/
theorem Chronological.unread (h : s.Chronological states) :
    Chronological states { s with agent := { s.agent with snapshot := none }, shown := none } :=
  ⟨h.history, rfl, by simp, h.observed, by simp, h.captured⟩

theorem le_of_capture {fails : Bool} {n : ℕ} (h : n ∈ s.capture fails) : n ≤ s.present := by
  cases fails
  · exact (Option.some.inj h).ge
  · cases h

theorem Chronological.step (h : s.Chronological states) (hm : s.step states m = some t)
    (hok : s.InTime m) : t.Chronological states := by
  cases m with
  | advance =>
    obtain rfl := Option.some.inj hm
    exact ⟨h.history, h.snapshot, h.order, fun m hm => (h.observed m hm).trans (Nat.le_succ _),
      fun n hn => (h.shown n hn).trans (Nat.le_succ _),
      fun u n hu => (h.captured u n hu).trans (Nat.le_succ _)⟩
  | poll fails =>
    obtain ⟨-, hm⟩ := Option.ite_none_right_eq_some.mp hm
    obtain rfl := Option.some.inj hm
    exact h.place .poll fun n hn => le_of_capture hn
  | refresh =>
    rw [Readings.step] at hm
    split at hm
    · rename_i n hn
      obtain rfl := Option.some.inj hm
      have hreading : n ∈ (s.places .poll).reading? := by simp [hn, ReadingPlace.reading?]
      exact (h.stored (h.captured _ n hreading) (hok n hreading) 0).place _
        (by simp [ReadingPlace.reading?])
    · have hfailed := h.agent (a := { s.agent with failures := s.agent.failures + 1 }.log
        [.detail none])
        rfl (by simp [Agent.sentEvents, Effect.message?]) rfl
      dsimp only at hm
      split_ifs at hm <;> obtain rfl := Option.some.inj hm
      · exact hfailed.place _ (by simp [ReadingPlace.reading?])
      · exact hfailed.unread.place _ (by simp [ReadingPlace.reading?])
    · cases hm
  | publish now =>
    obtain ⟨-, hm⟩ := Option.ite_none_right_eq_some.mp hm
    obtain rfl := Option.some.inj hm
    exact h.report hok .poll now
  | execute u =>
    obtain ⟨-, hm⟩ := Option.ite_none_right_eq_some.mp hm
    obtain rfl := Option.some.inj hm
    have hlocked : Chronological states { s with lock := some u } :=
      ⟨h.history, h.snapshot, h.order, h.observed, h.shown, h.captured⟩
    exact hlocked.place u (by simp [ReadingPlace.reading?])
  | readBack u fails =>
    obtain ⟨-, hm⟩ := Option.ite_none_right_eq_some.mp hm
    obtain rfl := Option.some.inj hm
    exact h.place u fun n hn => le_of_capture hn
  | store u =>
    rw [Readings.step] at hm
    split at hm
    · rename_i n hn
      obtain rfl := Option.some.inj hm
      have hreading : n ∈ (s.places u).reading? := by simp [hn, ReadingPlace.reading?]
      exact (h.stored (h.captured u n hreading) (hok n hreading) s.agent.failures).place u
        (by simp [ReadingPlace.reading?])
    · have hfailed := h.agent (a := s.agent.log [.detail none]) rfl
        (by simp [Agent.sentEvents, Effect.message?]) rfl
      obtain rfl := Option.some.inj hm
      exact hfailed.place u (by simp [ReadingPlace.reading?])
    · cases hm
  | finish u now =>
    obtain ⟨-, hm⟩ := Option.ite_none_right_eq_some.mp hm
    obtain rfl := Option.some.inj hm
    have hfree : Chronological states { s with lock := none } :=
      ⟨h.history, h.snapshot, h.order, h.observed, h.shown, h.captured⟩
    exact hfree.report hok u now
  | ignore u =>
    obtain ⟨-, hm⟩ := Option.ite_none_right_eq_some.mp hm
    obtain rfl := Option.some.inj hm
    have hfree : Chronological states { s with lock := none } :=
      ⟨h.history, h.snapshot, h.order, h.observed, h.shown, h.captured⟩
    exact hfree.place u (by simp [ReadingPlace.reading?])

/-- **Reports follow the printer's history**, in every run of the two threads in which no reply is
stored after a later state has been observed, and in which the statuses can be built. -/
theorem reports_follow_history {states : ℕ → PrinterSnapshot} {config : Config}
    {cameras : List Camera} {reserver : Option (List Camera)} {ms : List ReadingMove} {s : Readings}
    (h : Run (restrict InTime (ofPartial (step states)))
      { agent := .initial config cameras reserver } ms s) :
    s.FollowsHistory states := by
  have hchronological : s.Chronological states := by
    refine h.invariant (chronological_initial states config cameras reserver)
      fun s m t hs hstep => ?_
    exact hs.step hstep.2 hstep.1
  exact hchronological.followsHistory

/-! ## A printer that is paused -/

/-- A snapshot of a job in this state. -/
def jobIn (state : MachineState) : PrinterSnapshot where
  state
  fileName := "a.gcode"
  progress := 0
  durationS := 0
  remainingS := 0
  layer := none
  totalLayers := none
  errorCode := ""
  cameraStreamUrl := ""
  nozzleTemps := []
  nozzleTargets := []
  bedTemp := none
  bedTarget := none
  chamberTemp := none
  chamberTarget := none
  model := ""
  firmware := ""

/-- The printer is printing, then paused for good. -/
def pausing (n : ℕ) : PrinterSnapshot := jobIn (if n = 0 then .printing else .paused)

/-- A poll, an execution that reads the paused printer back, and another poll. -/
def timelyMoves : List ReadingMove :=
  [.poll false, .refresh, .publish 7000, .advance, .execute .command, .readBack .command false,
    .store .command, .finish .command 7001, .poll false, .refresh, .publish 7002]

theorem pause_is_reported : ∃ s : Readings, s.agent.sentEvents = [.started, .paused] ∧
    s.FollowsHistory pausing := by
  have hrun : ∃ s ∈ timelyMoves.foldlM (guarded InTime (step pausing)) { agent := .bare },
      s.agent.sentEvents = [.started, .paused] := by decide +kernel
  obtain ⟨s, hs, hevents⟩ := hrun
  have htimely : Run (restrict InTime (ofPartial (step pausing)))
    { agent := .bare } timelyMoves s := by
    rw [restrict_ofPartial]
    exact run_ofPartial.mpr hs
  exact ⟨s, hevents, reports_follow_history htimely⟩

theorem paused_of_resumed {t : JobTracker} {s : PrinterSnapshot} {now : Time}
    (h : .resumed ∈ (t.observe (some s) now).2) : t.paused = true ∧ s.state ≠ .paused := by
  obtain ⟨t', es, hobserve, hobs⟩ := JobTracker.exists_observed t (some s) now
  rw [hobserve] at h
  have hending : t.endEvent s ≠ .resumed := fun he =>
    absurd (he ▸ endEvent_isEnding t s) (by decide)
  cases hobs with
  | resumes _ _ hp hs => exact ⟨hp, hs⟩
  | ends _ _ _ => simp [hending.symm] at h
  | swaps _ _ _ => simp [hending.symm] at h
  | _ => simp at h

/-- A printer that stays paused is not resumed. -/
theorem not_resumed (os : List (ℕ × Time)) (hos : (os.map Prod.fst).Pairwise (· < ·)) :
    .resumed ∉ (observeAll (observations pausing os)).2.map Report.event := by
  induction os using List.reverseRecOn with
  | nil => simp [observations, observeAll]
  | append_singleton os o ih =>
    rw [List.map_append, List.pairwise_append] at hos
    intro hmem
    rw [observeAll_concat, next, List.map_append, List.mem_append] at hmem
    rcases hmem with hmem | hmem
    · exact ih hos.1 hmem
    · obtain ⟨hpaused, hstate⟩ := paused_of_resumed (by simpa [Function.comp_def] using hmem)
      -- Only the first state is not paused, and nothing was observed before it.
      have hfirst : o.1 = 0 := by
        by_contra hne
        exact hstate (by simp [pausing, jobIn, hne])
      have hnil : os = [] := by
        refine List.eq_nil_iff_forall_not_mem.mpr fun o' ho' => ?_
        have hlt := hos.2.2 o'.1 (List.mem_map_of_mem ho') o.1 (by simp)
        omega
      simp [hnil, observations, observeAll] at hpaused

/-- The reply to a poll is late: the printer is paused, and the pause is reported, before it is
stored. -/
def lateMoves : List ReadingMove :=
  [.poll false, .refresh, .publish 7000, .poll false, .advance, .execute .command,
    .readBack .command false, .store .command, .finish .command 7001, .refresh, .publish 7002]

theorem late_reply_resumes : ∃ s ∈ lateMoves.foldlM (step pausing) { agent := .bare },
    ¬ s.FollowsHistory pausing := by
  have hrun : ∃ s ∈ lateMoves.foldlM (step pausing) { agent := .bare },
      .resumed ∈ s.agent.sentEvents := by decide +kernel
  obtain ⟨s, hs, hresumed⟩ := hrun
  refine ⟨s, hs, ?_⟩
  rintro ⟨os, hos, -, hevents⟩
  exact not_resumed os hos (hevents ▸ hresumed)

end Readings

end FlashforgeObico
