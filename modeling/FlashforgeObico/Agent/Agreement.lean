import FlashforgeObico.Agent.Telling

/-!
# The state text and the session agree

The state text and the session are derived from the same snapshots by two functions with a memory
of their own. `Agreement` says what both are after the last familiar snapshot; they disagree only
when it is busy without a file, which ends the session and keeps the text.
-/

namespace FlashforgeObico

open Py Trace

/-- The snapshot that an observation shows, unless its state is unknown. -/
def Effect.familiar? : Effect → Option PrinterSnapshot
  | .observed (some s) _ _ => if s.state = .unknown then none else some s
  | _ => none

/-- Busy without a file. -/
def BusyWithoutFile (s : PrinterSnapshot) : Prop := s.state = .busy ∧ ¬ s.HasJob

instance (s : PrinterSnapshot) : Decidable (BusyWithoutFile s) :=
  inferInstanceAs (Decidable (s.state = .busy ∧ ¬ s.HasJob))

/-- The familiar snapshot that an observation shows, unless it is busy without a file. -/
def Effect.decisive? (e : Effect) : Option PrinterSnapshot :=
  e.familiar?.filter fun s => ¬ BusyWithoutFile s

/-- The last familiar snapshot that the tracker observed. -/
def lastFamiliar (t : List Effect) : Option PrinterSnapshot := lastOf Effect.familiar? t

/-- The last familiar snapshot that was not busy without a file. -/
def lastDecisive (t : List Effect) : Option PrinterSnapshot := lastOf Effect.decisive? t

/-- `Printing` or `Paused`. -/
def StateText.ShowsJob (text : StateText) : Prop := text = .printing ∨ text = .paused

/-- The text is that of a snapshot: it shows a job, or a paused one, exactly when the snapshot
does. -/
def StateText.Shows (text : StateText) (f : Option PrinterSnapshot) : Prop :=
  (text.ShowsJob ↔ ∃ s ∈ f, s.HasJob) ∧ (text = .paused ↔ ∃ s ∈ f, s.HasJob ∧ s.state = .paused)

/-- A message with a status, sent with the tracker in some state, shows the same job in its text as
in its session. -/
def Agrees (ts : ℤ) (t : JobTracker) (text : StateText) : Prop :=
  (text.ShowsJob ↔ ts ≠ -1) ∧ (text = .paused ↔ t.activeFile ≠ none ∧ t.paused = true)

instance (ts : ℤ) (t : JobTracker) (text : StateText) : Decidable (Agrees ts t text) := by
  unfold Agrees StateText.ShowsJob
  infer_instance

/-- A message with a status whose text and session disagree. -/
def Effect.Disagrees : Effect → Prop
  | .sent m t => ∃ status ∈ m.status, ¬ Agrees m.currentPrintTs t status.text
  | _ => False

instance (e : Effect) : Decidable e.Disagrees := by
  cases e <;> unfold Effect.Disagrees <;> infer_instance

theorem decisive?_eq_none {e : Effect} (h : e.familiar? = none) : e.decisive? = none := by
  rw [Effect.decisive?, h, Option.filter_none]

/-- What the tracker and the state text are after the last familiar snapshot `f` and the last one
`g` that was not busy without a file. -/
structure Reflects (f g : Option PrinterSnapshot) (t : JobTracker) (text : StateText) : Prop where
  active : t.activeFile ≠ none ↔ ∃ s ∈ f, s.HasJob
  ts : t.currentPrintTs ≠ -1 ↔ t.activeFile ≠ none
  paused : t.paused = true ↔ ∃ s ∈ f, s.HasJob ∧ s.state = .paused
  text : text ≠ .offline → text.Shows g
  decisive : (∀ s ∈ f, ¬ BusyWithoutFile s) → g = f

namespace Reflects

variable {f g : Option PrinterSnapshot} {t : JobTracker} {text : StateText}

/-- The text of a decisive snapshot is the session's. -/
theorem agrees (h : Reflects f g t text) (ht : text ≠ .offline)
    (hf : ∀ s ∈ f, ¬ BusyWithoutFile s) :
    Agrees t.currentPrintTs t text := by
  obtain ⟨hjob, hpaused⟩ := h.text ht
  rw [h.decisive hf] at hjob hpaused
  refine ⟨hjob.trans (h.active.symm.trans h.ts.symm), hpaused.trans ?_⟩
  rw [h.active, h.paused]
  exact ⟨fun ⟨s, hs, hj, hp⟩ => ⟨⟨s, hs, hj⟩, s, hs, hj, hp⟩, fun hp => hp.2⟩

/-- No session is open after a snapshot that is busy without a file. -/
theorem closed (h : Reflects f g t text) {s : PrinterSnapshot} (hs : s ∈ f)
    (hb : BusyWithoutFile s) :
    t.currentPrintTs = -1 ∧ t.activeFile = none := by
  have ha : t.activeFile = none := by
    by_contra ha
    obtain ⟨s', hs', hj'⟩ := h.active.mp ha
    exact hb.2 (Option.mem_unique hs hs' ▸ hj')
  exact ⟨by_contra fun hts => (h.ts.mp hts) ha, ha⟩

/-- What the tracker is after a familiar snapshot. -/
theorem observe_familiar (h : Reflects f g t text) {s : PrinterSnapshot} (hs : s.state ≠ .unknown)
    (now : Time) : let t' := (t.observe (some s) now).1
      (t'.activeFile ≠ none ↔ s.HasJob) ∧ (t'.currentPrintTs ≠ -1 ↔ t'.activeFile ≠ none) ∧
        (t'.paused = true ↔ s.HasJob ∧ s.state = .paused) := by
  have hpaused : t.activeFile = none → t.paused = false := by
    intro ha
    by_contra hp
    obtain ⟨s, hs, hj, -⟩ := h.paused.mp (Bool.not_eq_false _ ▸ hp)
    exact h.active.mpr ⟨s, hs, hj⟩ ha
  have hts := h.ts
  dsimp only
  obtain ⟨t', es, hobserve, hobs⟩ := JobTracker.exists_observed t (some s) now
  rw [hobserve]
  cases hobs with
  | unfamiliar hu => exact absurd hu hs
  | idle _ ha hj => exact ⟨by simpa [hj] using ha, hts, by simpa [hj] using hpaused ha⟩
  | begins _ hj => simp [JobTracker.start, hj, Time.toInt_ne]
  | continues ha hj hp => exact ⟨by simp [ha, hj], hts, by simp [hp, hj]⟩
  | pauses ha hj _ hp => exact ⟨by simp [ha, hj], hts, by simp [hp, hj]⟩
  | resumes ha hj _ hp => exact ⟨by simp [ha, hj], hts, by simp [hp]⟩
  | ends _ _ hj => exact ⟨by simp [hj], by simp, by simp [hj]⟩
  | swaps _ hj _ => simp [JobTracker.start, hj, Time.toInt_ne]

/-- Every observation is reflected. -/
theorem observe (h : Reflects f g t text) (snapshot : Option PrinterSnapshot) (now : Time) :
    let e : Effect := .observed snapshot now (t.observe snapshot now).2
    Reflects (e.familiar?.or f) (e.decisive?.or g) (t.observe snapshot now).1
      (obicoStateText snapshot text) := by
  rcases snapshot with _ | s
  · exact ⟨h.active, h.ts, h.paused, fun hoff => absurd rfl hoff, h.decisive⟩
  by_cases hu : s.state = .unknown
  · simpa [Effect.familiar?, Effect.decisive?, hu, JobTracker.observe, obicoStateText] using h
  obtain ⟨hactive, hts, hpaused⟩ := h.observe_familiar hu now
  simp only [Effect.decisive?, Effect.familiar?, if_neg hu, Option.some_or]
  by_cases hb : BusyWithoutFile s
  · have htext : obicoStateText (some s) text = text := by simp [obicoStateText, hb.1, hb.2]
    refine ⟨by simpa using hactive, hts, by simpa using hpaused, ?_, fun hf => absurd hb (hf s rfl)⟩
    have hkept : (some s).filter (fun s => ¬ BusyWithoutFile s) = none := by
      simp [Option.filter, hb]
    rw [htext, hkept]
    exact h.text
  · refine ⟨by simpa using hactive, hts, by simpa using hpaused, fun _ => ?_,
      fun _ => by simp [Option.filter, hb]⟩
    by_cases hj : s.HasJob
    · by_cases hp : s.state = .paused <;>
        simp [StateText.Shows, obicoStateText, Option.filter, hb, hu, hj, hp, StateText.ShowsJob]
    · have hbusy : s.state ≠ .busy := fun hbusy => hb ⟨hbusy, hj⟩
      simp [StateText.Shows, obicoStateText, Option.filter, hb, hu, hj, hbusy, StateText.ShowsJob]

end Reflects

/-! ## Runs -/

/-- A message with a status agrees, unless the last familiar snapshot is busy without a file; then
no session is open, and the text is still that of the last snapshot before that was not. -/
def AgreesUnlessBusy (pre : List Effect) (e : Effect) : Prop :=
  ∀ m t status, e = .sent m t → m.status = some status →
    ((∀ s ∈ lastFamiliar pre, ¬ BusyWithoutFile s) → Agrees m.currentPrintTs t status.text) ∧
    ∀ s ∈ lastFamiliar pre, BusyWithoutFile s →
      m.currentPrintTs = -1 ∧ t.activeFile = none ∧ status.text.Shows (lastDecisive pre)

namespace Agent

/-- The state text and the session reflect the last snapshots, and so did every message. -/
structure Agreement (a : Agent) : Prop where
  reflects : Reflects (lastFamiliar a.trace) (lastDecisive a.trace) a.tracker a.stateText
  messages : Along AgreesUnlessBusy a.trace

namespace Agreement

variable {a b : Agent}

theorem initial (config : Config) (cameras : List Camera) (reserver : Option (List Camera)) :
    Agreement (Agent.initial config cameras reserver) := by
  refine ⟨⟨?_, ?_, ?_, fun h => absurd rfl h, fun _ => rfl⟩, along_nil⟩ <;>
    simp [Agent.initial, lastFamiliar, lastOf]

theorem silent (h : Agreement a) (hs : Silent a b) : Agreement b := by
  obtain ⟨es, htrace, hes⟩ := hs.trace
  have hfamiliar : ∀ e ∈ es, e.familiar? = none := by
    intro e he
    have := hes e he
    cases e <;> simp_all [Effect.Tells, Effect.familiar?]
  refine ⟨?_, ?_⟩
  · rw [htrace, hs.tracker, hs.stateText, lastFamiliar, lastOf_append_of_none hfamiliar,
      lastDecisive,
      lastOf_append_of_none fun e he => decisive?_eq_none (hfamiliar e he)]
    exact h.reflects
  · rw [htrace, along_append]
    refine ⟨h.messages, along_of_forall ?_⟩
    rintro pre - e he m t status rfl
    exact absurd trivial (hes _ he)

theorem publish {now : Time} {r : Except Error Unit} {ms : List Message} (h : Agreement a)
    (hp : Published now a r b ms) : Agreement b := by
  have hobs := h.reflects.observe a.snapshot now
  set e : Effect := .observed a.snapshot now (a.observed now).2
  set sent : List Effect := ms.map fun m => .sent m (a.observed now).1
  -- the messages themselves show no snapshot
  have hfamiliar : ∀ es : List Effect, (∀ e ∈ es, e ∈ sent) → ∀ e ∈ es, e.familiar? = none := by
    intro es hes e he
    obtain ⟨m, -, rfl⟩ := List.mem_map.mp (hes e he)
    rfl
  have hlast : ∀ es : List Effect, (∀ e ∈ es, e ∈ sent) →
      Reflects (lastFamiliar ((a.trace ++ [e]) ++ es)) (lastDecisive ((a.trace ++ [e]) ++ es))
        (a.observed now).1 a.newText := by
    intro es hes
    rw [lastFamiliar, lastOf_append_of_none (hfamiliar es hes), lastOf_concat, lastDecisive,
      lastOf_append_of_none fun e he => decisive?_eq_none (hfamiliar es hes e he), lastOf_concat]
    exact hobs
  have htrace : b.trace = (a.trace ++ [e]) ++ sent := by
    rw [hp.eq]
    simp [e, sent]
  have htracker : b.tracker = (a.observed now).1 := by rw [hp.eq]
  have htext : b.stateText = a.newText := by rw [hp.eq]
  refine ⟨?_, ?_⟩
  · rw [htrace, htracker, htext]
    exact hlast sent fun _ he => he
  · rw [htrace, along_append, along_snoc]
    refine ⟨⟨h.messages, fun m t status he => absurd he (by simp [e])⟩, along_of_forall ?_⟩
    rintro pre hpre _ he m t status rfl hstatus
    obtain ⟨m', hm, heq⟩ := List.mem_map.mp he
    cases heq
    have hbuilt := hp.status m hm
    rw [hstatus] at hbuilt
    obtain ⟨hshown, hoff, -⟩ := text_of_buildStatus hbuilt
    have hpre := hlast pre hpre
    rw [hp.ts m hm, hshown]
    refine ⟨hpre.agrees hoff, fun s hs hb => ?_⟩
    obtain ⟨hts, ha⟩ := hpre.closed hs hb
    exact ⟨hts, ha, hpre.text hoff⟩

end Agreement

/-- **The state text and the session agree.** In every run, every message with a status shows
`Printing` or `Paused` exactly when it carries a session, and `Paused` exactly when the tracker is
in an open session that is paused; except while the last familiar snapshot is busy without a file:
then no session is open, and the text is kept from the last snapshot that was not. -/
theorem text_agrees_with_session (config : Config) (cameras : List Camera)
    (reserver : Option (List Camera)) (ls : List Label) :
    Along AgreesUnlessBusy ((initial config cameras reserver).run ls).trace :=
  (run_told (I := Agreement) (Agreement.initial config cameras reserver) (fun _ _ h ht => by
    cases ht with
    | silent hs => exact h.silent hs
    | publishes hp => exact h.publish hp) ls).messages

/-- A printer that is busy without a file right after printing ends the session and keeps the
text. -/
theorem busy_without_file_disagrees :
    ∃ e ∈ (bare.run [.quietPoll (.ok (detailOf "printing" "a.gcode")) 1000,
      .quietPoll (.ok (detailOf "busy" "")) 1002]).trace, e.Disagrees := by
  decide +kernel

end Agent

end FlashforgeObico
