import FlashforgeObico.Agent.EventLabels

/-!
# The log of the messages

What a sequence of publishes sends, with the time of each message. The log is faithful when it
carries what the tracker reported and is up to date after every publish (`Faithful`). A publish
brings the tracker and the state text up to date before it builds the status: when the status cannot
be built, what is new is lost for the log. `log_faithful_iff` says that nothing else makes a log
unfaithful.
-/

namespace FlashforgeObico

open Py Trace JobTracker

namespace Agent

/-- One publish, adding the messages that it sends to the log. -/
def logPublish (h : Agent × List (Time × Message)) (o : Observation) :
    Agent × List (Time × Message) :=
  (h.1.publishOn o, h.2 ++ (sentOn h.1 o).map (o.2, ·))

/-- The messages that a sequence of publishes sends, each with its time. -/
def messageLog (a : Agent) (os : List Observation) : List (Time × Message) :=
  (os.foldl logPublish (a, [])).2

/-- The events that the messages of a log carry. -/
def loggedEvents (log : List (Time × Message)) : List Event := log.filterMap fun e => e.2.event

/-- A message shows the state text of the agent; its status is empty when that of the agent is. -/
structure ShowsText (a : Agent) (now : Time) (m : Message) : Prop where
  empty : m.status = none ↔ buildStatus a.snapshot a.tracker a.stateText now = .ok none
  text : ∀ status ∈ m.status, status.text = a.stateText

/-- A publish has nothing new to tell, and the last message of the log is no heartbeat old. -/
structure NoNews (a : Agent) (log : List (Time × Message)) (o : Observation) : Prop where
  events : (a.tracker.observe o.1 o.2).2 = []
  text : obicoStateText o.1 a.stateText = a.stateText
  recent : ∃ entry ∈ log.getLast?, o.2 < entry.1 + heartbeatS

/-- After the publishes `pre`, that of `o` leaves the log as it should be. -/
structure Faithful (a : Agent) (pre : List Observation) (o : Observation) : Prop where
  events : loggedEvents (a.messageLog (pre ++ [o])) =
    (observeAll (pre ++ [o])).2.map Report.event
  last : ∃ entry ∈ (a.messageLog (pre ++ [o])).getLast?,
    ShowsText (a.publishAll (pre ++ [o])) o.2 entry.2 ∧ o.2 < entry.1 + heartbeatS
  first : pre = [] → sentOn a o ≠ []
  quiet : NoNews (a.publishAll pre) (a.messageLog pre) o → sentOn (a.publishAll pre) o = []

/-- The publish has something to send, and the status cannot be built. -/
def LosesNews (a : Agent) (o : Observation) : Prop :=
  ({ a with snapshot := o.1 } : Agent).Due o.2 ∧ ∃ s ∈ o.1, ∃ e, s.remainingEstimateS = .error e

/-! ## One publish -/

variable {a : Agent} {os : List Observation} {o : Observation}

theorem messageLog_concat (a : Agent) (os : List Observation) (o : Observation) :
    a.messageLog (os ++ [o]) = a.messageLog os ++ (sentOn (a.publishAll os) o).map (o.2, ·) := by
  have hagent : (os.foldl logPublish (a, [])).1 = a.publishAll os := by
    induction os using List.reverseRecOn with
    | nil => rfl
    | append_singleton os o ih => rw [publishAll_snoc, List.foldl_append, ← ih]; rfl
  rw [messageLog, List.foldl_append, ← hagent]
  rfl

/-- What a publish of an observation does: it has nothing to send, or it raises, or it sends its
messages. -/
inductive PublishedOn (a : Agent) (o : Observation) : Agent → List Message → Prop
  /-- Nothing is to be sent. -/
  | silent : ¬ ({ a with snapshot := o.1 } : Agent).Due o.2 →
      PublishedOn a o (({ a with snapshot := o.1 } : Agent).observing o.2) []
  /-- The status cannot be built. -/
  | lost : LosesNews a o → PublishedOn a o (({ a with snapshot := o.1 } : Agent).observing o.2) []
  /-- The messages are sent. -/
  | sent {b ms status} : ({ a with snapshot := o.1 } : Agent).Due o.2 →
      ({ a with snapshot := o.1 } : Agent).newStatus o.2 = .ok status →
      ms.map Message.event = ({ a with snapshot := o.1 } : Agent).carried o.2 →
      (∀ m ∈ ms, m.status = status) → b.snapshot = o.1 →
      b.tracker = (a.tracker.observe o.1 o.2).1 → b.stateText = obicoStateText o.1 a.stateText →
      b.settingsSent = true → b.lastSentAt = some o.2 → PublishedOn a o b ms

theorem sentOn_of_trace {ms : List Message} {t : JobTracker} {now : Time}
    {snapshot : Option PrinterSnapshot} {es : List Event}
    (h : (a.publishOn o).trace =
      a.trace ++ .observed snapshot now es :: ms.map fun m => .sent m t) : sentOn a o = ms := by
  rw [sentOn, h, List.drop_left, List.filterMap_cons_none rfl, filterMap_message?_sent]

theorem publishedOn (a : Agent) (o : Observation) :
    PublishedOn a o (a.publishOn o) (sentOn a o) := by
  set b : Agent := { a with snapshot := o.1 } with hb
  have hnothing {r : Except Error Unit} (h : publish o.2 b = (r, b.observing o.2)) :
      a.publishOn o = b.observing o.2 ∧ sentOn a o = [] := by
    have hagent : a.publishOn o = b.observing o.2 := congrArg Prod.snd h
    have htrace : (a.publishOn o).trace =
        a.trace ++ [.observed o.1 o.2 (b.observed o.2).2] := by rw [hagent]; rfl
    exact ⟨hagent, sentOn_of_trace (t := {}) htrace⟩
  by_cases hdue : b.Due o.2
  · rcases hs : b.newStatus o.2 with e | status
    · obtain ⟨s, e', hsnapshot, he'⟩ := (newStatus_error_iff b o.2).mp ⟨e, hs⟩
      obtain ⟨hagent, hsent⟩ := hnothing (publish_of_error hdue hs)
      rw [hagent, hsent]
      exact .lost ⟨hdue, s, hsnapshot, e', he'⟩
    · have hagent : a.publishOn o = (sending status o.2 (b.carried o.2) (b.observing o.2)).1 :=
        congrArg Prod.snd (publish_of_ok hdue hs)
      obtain ⟨hevents, hms⟩ := sending_spec status o.2 (b.carried o.2) (b.observing o.2)
      have heq := sending_eq status o.2 (b.carried o.2) (b.observing o.2)
      have hne : b.carried o.2 ≠ [] := by simp [carried, hdue]
      obtain ⟨hset, hat⟩ := sending_sent status o.2 (b.observing o.2) hne
      have htrace : (a.publishOn o).trace = a.trace ++ .observed o.1 o.2 (b.observed o.2).2 ::
          (sending status o.2 (b.carried o.2) (b.observing o.2)).2.map
            fun m => .sent m (b.observing o.2).tracker := by
        rw [hagent, heq]
        simp [observing, hb]
      have hsent : sentOn a o = (sending status o.2 (b.carried o.2) (b.observing o.2)).2 :=
        sentOn_of_trace htrace
      rw [hagent, hsent]
      refine .sent hdue hs hevents (fun m hm => (hms m hm).2) ?_ ?_ ?_ hset hat <;>
        rw [heq] <;> rfl
  · obtain ⟨hagent, hsent⟩ := hnothing (publish_of_not_due hdue)
    rw [hagent, hsent]
    exact .silent hdue

/-! ## Runs -/

/-- The log is up to date after some publishes: it carries the events, and the agent remembers when
the last message was sent and that it shows the state text. -/
structure UpToDate (c : Agent) (pre : List Observation) (log : List (Time × Message)) : Prop where
  tracker : c.tracker = (observeAll pre).1
  events : loggedEvents log = (observeAll pre).2.map Report.event
  last : (pre = [] ∧ log = [] ∧ c.settingsSent = false) ∨ pre ≠ [] ∧ ∃ entry ∈ log.getLast?,
    c.lastSentAt = some entry.1 ∧ c.settingsSent = true ∧
      (entry.2.status = none ↔ c.stateText = .offline) ∧
      ∀ status ∈ entry.2.status, status.text = c.stateText

section UpToDate

variable {c : Agent} {pre : List Observation} {log : List (Time × Message)}

theorem observeAll_snoc (pre : List Observation) (o : Observation) :
    observeAll (pre ++ [o]) = JobTracker.next (observeAll pre) o := by
  rw [observeAll, List.foldl_append]
  rfl

/-- A snapshot whose status cannot be built shows a job, of which the state text is not offline. -/
theorem text_of_estimate_error {s : PrinterSnapshot} {e : Error}
    (h : s.remainingEstimateS = .error e) (previous : StateText) :
    obicoStateText (some s) previous ≠ .offline := by
  rw [obicoStateText_of_hasJob (PrinterSnapshot.hasJob_of_estimate_error h)]
  split_ifs <;> decide

/-- What is up to date is shown. -/
theorem showsText_iff {now : Time} {m : Message}
    (hoffline : c.snapshot = none → c.stateText = .offline) :
    ShowsText c now m ↔ (m.status = none ↔ c.stateText = .offline) ∧
      ∀ status ∈ m.status, status.text = c.stateText := by
  have hempty : buildStatus c.snapshot c.tracker c.stateText now = .ok none ↔
      c.stateText = .offline := by
    rw [buildStatus_eq_none_iff]
    exact ⟨fun h => h.elim hoffline id, .inr⟩
  constructor
  · exact fun h => ⟨h.empty.trans hempty, h.text⟩
  · exact fun h => ⟨h.1.trans hempty.symm, h.2⟩

theorem loggedEvents_append (log : List (Time × Message)) (now : Time) (ms : List Message) :
    loggedEvents (log ++ ms.map (now, ·)) = loggedEvents log ++ ms.filterMap Message.event := by
  rw [loggedEvents, List.filterMap_append, List.filterMap_map]
  rfl

/-- What a publish remembers, when nothing is lost. -/
theorem UpToDate.tracker_next (h : UpToDate c pre log) (o : Observation) :
    (c.tracker.observe o.1 o.2).1 = (observeAll (pre ++ [o])).1 := by
  rw [observeAll_snoc, h.tracker]
  rfl

/-- The events that are reported after a publish. -/
theorem UpToDate.events_next (h : UpToDate c pre log) (o : Observation) :
    (observeAll (pre ++ [o])).2.map Report.event =
      loggedEvents log ++ (c.tracker.observe o.1 o.2).2 := by
  rw [observeAll_snoc, h.events, h.tracker]
  simp [JobTracker.next, Function.comp_def]

/-- A publish that has nothing to send leaves the log up to date, and the last message recent. -/
theorem UpToDate.silent (h : UpToDate c pre log)
    (hdue : ¬ ({ c with snapshot := o.1 } : Agent).Due o.2) :
    UpToDate (({ c with snapshot := o.1 } : Agent).observing o.2) (pre ++ [o]) log ∧ pre ≠ [] ∧
      ∃ entry ∈ log.getLast?, o.2 < entry.1 + heartbeatS := by
  obtain ⟨htext, hevents, hset, hbeat⟩ :
      obicoStateText o.1 c.stateText = c.stateText ∧ (c.tracker.observe o.1 o.2).2 = [] ∧
        c.settingsSent = true ∧ ¬ c.HeartbeatDue o.2 := by
    simpa [Due, newText, observed, HeartbeatDue] using hdue
  rcases h.last with ⟨-, -, hunset⟩ | ⟨hpre, entry, hentry, hat, -, hempty, hshows⟩
  · rw [hset] at hunset
    cases hunset
  have hrecent : o.2 < entry.1 + heartbeatS := by simpa [HeartbeatDue, hat] using hbeat
  refine ⟨⟨h.tracker_next o, ?_, .inr ⟨by simp, entry, hentry, hat, hset, ?_⟩⟩, hpre, entry, hentry,
    hrecent⟩
  · rw [h.events_next, hevents, List.append_nil]
  · have htext' : (({ c with snapshot := o.1 } : Agent).observing o.2).stateText = c.stateText :=
      htext
    rw [htext']
    exact ⟨hempty, hshows⟩

/-- A publish that sends its messages brings the log up to date. -/
theorem UpToDate.sent {b : Agent} {ms : List Message} {status : Option Status}
    (h : UpToDate c pre log) (hdue : ({ c with snapshot := o.1 } : Agent).Due o.2)
    (hs : ({ c with snapshot := o.1 } : Agent).newStatus o.2 = .ok status)
    (hms : ms.map Message.event = ({ c with snapshot := o.1 } : Agent).carried o.2)
    (hstatus : ∀ m ∈ ms, m.status = status)
    (htracker : b.tracker = (c.tracker.observe o.1 o.2).1)
    (htext : b.stateText = obicoStateText o.1 c.stateText) (hset : b.settingsSent = true)
    (hat : b.lastSentAt = some o.2) :
    UpToDate b (pre ++ [o]) (log ++ ms.map (o.2, ·)) ∧ ms ≠ [] ∧
      ∃ entry ∈ (log ++ ms.map (o.2, ·)).getLast?, o.2 < entry.1 + heartbeatS := by
  have hne : ms ≠ [] := by
    rintro rfl
    simp [carried, hdue] at hms
  obtain ⟨m, hm⟩ := Option.isSome_iff_exists.mp (List.getLast?_isSome.mpr hne)
  have hlast : (log ++ ms.map (o.2, ·)).getLast? = some (o.2, m) := by
    rw [List.getLast?_append, List.getLast?_map, hm]
    rfl
  have hm' := hstatus m (List.mem_of_getLast? hm)
  have hevents : ms.filterMap Message.event = (c.tracker.observe o.1 o.2).2 := by
    have hcarried := filterMap_carried { c with snapshot := o.1 } o.2
    rw [← hms, List.filterMap_map] at hcarried
    exact hcarried
  refine ⟨⟨htracker.trans (h.tracker_next o), ?_, .inr ⟨by simp, (o.2, m), hlast, hat, hset, ?_⟩⟩,
    hne, (o.2, m), hlast, lt_add_of_pos_right _ (by decide)⟩
  · rw [loggedEvents_append, h.events_next, hevents]
  · have hbuilt : buildStatus o.1 (c.tracker.observe o.1 o.2).1 (obicoStateText o.1 c.stateText)
        o.2 = .ok status := hs
    have hoffline : o.1 = none → obicoStateText o.1 c.stateText = .offline := by
      intro hnone
      rw [hnone]
      rfl
    dsimp only
    rw [htext, hm']
    refine ⟨⟨fun hnone => ?_, fun hnone => ?_⟩, fun shown hshown => ?_⟩
    · rw [hnone, buildStatus_eq_none_iff] at hbuilt
      exact hbuilt.elim hoffline id
    · rw [buildStatus_eq_none_iff.mpr (.inr hnone)] at hbuilt
      exact (Except.ok.inj hbuilt).symm
    · rw [show status = some shown from hshown] at hbuilt
      exact (text_of_buildStatus hbuilt).1

/-- After a publish that loses news, the log is not as it should be. -/
theorem UpToDate.lost (h : UpToDate c pre log) (hlost : LosesNews c o)
    (hevents : loggedEvents log = (observeAll (pre ++ [o])).2.map Report.event)
    (hlast : ∃ entry ∈ log.getLast?,
      ShowsText (({ c with snapshot := o.1 } : Agent).observing o.2) o.2 entry.2 ∧
        o.2 < entry.1 + heartbeatS) : False := by
  obtain ⟨hdue, s, hs, e, he⟩ := hlost
  obtain ⟨entry, hentry, hshows, hrecent⟩ := hlast
  rcases h.last with ⟨-, hlog, -⟩ | ⟨-, entry', hentry', hat, hset, hempty, hshown⟩
  · rw [hlog] at hentry
    cases hentry
  obtain rfl : entry = entry' := Option.mem_unique hentry hentry'
  have htext : obicoStateText o.1 c.stateText ≠ .offline := by
    rw [show o.1 = some s from hs]
    exact text_of_estimate_error he c.stateText
  rcases hdue with hnew | hnew | hunset | hbeat
  · -- the last message shows another text
    have hsome : (({ c with snapshot := o.1 } : Agent).observing o.2).snapshot = some s := hs
    obtain ⟨hempty', hshown'⟩ := (showsText_iff (by simp [hsome])).mp hshows
    rcases hstatus : entry.2.status with _ | status
    · exact htext (hempty'.mp hstatus)
    · exact hnew ((hshown' status hstatus).symm.trans (hshown status hstatus))
  · rw [h.events_next] at hevents
    exact hnew (List.self_eq_append_right.mp hevents)
  · rw [show c.settingsSent = false from hunset] at hset
    cases hset
  · exact absurd (hbeat entry.1 hat) (not_le.mpr hrecent)

/-- A log that is up to date and recent is as it should be. -/
theorem UpToDate.faithful {b : Agent} {ms : List Message}
    (hb : a.publishAll (pre ++ [o]) = b) (hms : sentOn (a.publishAll pre) o = ms)
    (h : UpToDate b (pre ++ [o]) (a.messageLog pre ++ ms.map (o.2, ·)))
    (hrecent : ∃ entry ∈ (a.messageLog pre ++ ms.map (o.2, ·)).getLast?,
      o.2 < entry.1 + heartbeatS)
    (hoffline : b.snapshot = none → b.stateText = .offline) (hfirst : pre = [] → ms ≠ [])
    (hquiet : NoNews (a.publishAll pre) (a.messageLog pre) o → ms = []) : Faithful a pre o := by
  obtain ⟨entry, hentry, hlt⟩ := hrecent
  rcases h.last with ⟨hnil, -⟩ | ⟨-, entry', hentry', -, -, hshows⟩
  · simp at hnil
  obtain rfl : entry = entry' := Option.mem_unique hentry hentry'
  refine ⟨?_, ⟨entry, ?_, ?_, hlt⟩, fun hpre => ?_, fun hno => hms.trans (hquiet hno)⟩
  · rw [messageLog_concat, hms]
    exact h.events
  · rw [messageLog_concat, hms]
    exact hentry
  · rw [hb]
    exact (showsText_iff hoffline).mpr hshows
  · subst hpre
    rw [show sentOn a o = ms from hms]
    exact hfirst rfl

/-- A publish without news is not due. -/
theorem UpToDate.not_due (h : UpToDate c pre log) (hno : NoNews c log o) :
    ¬ ({ c with snapshot := o.1 } : Agent).Due o.2 := by
  obtain ⟨entry, hentry, hlt⟩ := hno.recent
  rcases h.last with ⟨-, hlog, -⟩ | ⟨-, entry', hentry', hat, hset, -⟩
  · rw [hlog] at hentry
    cases hentry
  obtain rfl : entry = entry' := Option.mem_unique hentry hentry'
  rintro (hnew | hnew | hunset | hbeat)
  · exact hnew hno.text
  · exact hnew hno.events
  · rw [show c.settingsSent = false from hunset] at hset
    cases hset
  · exact absurd (hbeat entry.1 hat) (not_le.mpr hlt)

/-- A publish leaves the log as it should be exactly when it loses no news. -/
theorem UpToDate.faithful_iff (h : UpToDate (a.publishAll pre) pre (a.messageLog pre))
    (o : Observation) :
    (Faithful a pre o ↔ ¬ LosesNews (a.publishAll pre) o) ∧
      (¬ LosesNews (a.publishAll pre) o →
        UpToDate (a.publishAll (pre ++ [o])) (pre ++ [o]) (a.messageLog (pre ++ [o]))) := by
  have hon := publishedOn (a.publishAll pre) o
  have hb : a.publishAll (pre ++ [o]) = (a.publishAll pre).publishOn o := publishAll_snoc a pre o
  have hlog := messageLog_concat a pre o
  generalize hms : sentOn (a.publishAll pre) o = ms at hon hlog
  generalize (a.publishAll pre).publishOn o = b at hon hb
  rw [hlog, hb]
  have hoffline (t : StateText) : o.1 = none → obicoStateText o.1 t = .offline := by
    intro hnone
    rw [hnone]
    rfl
  cases hon with
  | silent hdue =>
    obtain ⟨hup, hpre, hrecent⟩ := h.silent hdue
    have hnot : ¬ LosesNews (a.publishAll pre) o := fun hlost => hdue hlost.1
    have hlog' : a.messageLog pre ++ ([] : List Message).map (o.2, ·) = a.messageLog pre := by simp
    rw [← hlog'] at hup hrecent
    have hfaithful := hup.faithful hb hms hrecent (hoffline _) (fun hnil => absurd hnil hpre)
      fun _ => rfl
    exact ⟨iff_of_true hfaithful hnot, fun _ => hup⟩
  | lost hlost =>
    refine ⟨iff_of_false (fun hfaithful => ?_) (not_not_intro hlost), absurd hlost⟩
    obtain ⟨hevents, hlast, -, -⟩ := hfaithful
    rw [hlog, List.map_nil, List.append_nil] at hevents hlast
    rw [hb] at hlast
    exact h.lost hlost hevents hlast
  | @sent b ms status hdue hs hevents hstatus hsnapshot htracker htext hset hat =>
    obtain ⟨hup, hne, hrecent⟩ := h.sent hdue hs hevents hstatus htracker htext hset hat
    have hnot : ¬ LosesNews (a.publishAll pre) o := by
      rintro ⟨-, s, hsnap, e, he⟩
      obtain ⟨e', he'⟩ := (newStatus_error_iff { a.publishAll pre with snapshot := o.1 } o.2).mpr
        ⟨s, e, hsnap, he⟩
      rw [hs] at he'
      cases he'
    have hfaithful := hup.faithful hb hms hrecent (by rw [hsnapshot, htext]; exact hoffline _)
      (fun _ => hne) fun hno => absurd hdue (h.not_due hno)
    exact ⟨iff_of_true hfaithful hnot, fun _ => hup⟩

end UpToDate

/-- **When the log of the messages is faithful**, for every sequence of publishes. -/
theorem log_faithful_iff (config : Config) (cameras : List Camera) (reserver : Option (List Camera))
    (os : List Observation) :
    Along (Faithful (initial config cameras reserver)) os ↔
      Along (fun pre o => ¬ LosesNews ((initial config cameras reserver).publishAll pre) o) os := by
  set a := initial config cameras reserver
  have hboth : (Along (Faithful a) os ↔ Along (fun pre o => ¬ LosesNews (a.publishAll pre) o) os) ∧
      (Along (fun pre o => ¬ LosesNews (a.publishAll pre) o) os →
        UpToDate (a.publishAll os) os (a.messageLog os)) := by
    induction os using List.reverseRecOn with
    | nil => exact ⟨iff_of_true along_nil along_nil, fun _ => ⟨rfl, rfl, .inl ⟨rfl, rfl, rfl⟩⟩⟩
    | append_singleton os o ih =>
      obtain ⟨hiff, hupToDate⟩ := ih
      rw [along_snoc, along_snoc, hiff]
      constructor
      · exact and_congr_right fun hos => ((hupToDate hos).faithful_iff o).1
      · exact fun ⟨hos, ho⟩ => ((hupToDate hos).faithful_iff o).2 ho
  exact hboth.1

/-- A job that is said to have been printed for longer than a float can hold. -/
def overlongJob : Option PrinterSnapshot :=
  (parseSnapshot (("printDuration", .int (10 ^ 400)) :: ("printProgress", .int 1) ::
    detailOf "printing" "a.gcode")).toOption

/-- The status of an overlong job cannot be built, and its start is never sent. -/
theorem overlong_job_is_not_logged :
    ¬ Along (Faithful bare) [(overlongJob, 1000), (shown "printing" "a.gcode", 1002)] := by
  intro h
  have hevents := (h [(overlongJob, 1000)] (shown "printing" "a.gcode", 1002) [] rfl).events
  exact absurd hevents (by decide +kernel)

end Agent

end FlashforgeObico
