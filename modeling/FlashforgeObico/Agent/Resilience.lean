import FlashforgeObico.Agent.Threads
import FlashforgeObico.Flashforge.Fields

/-!
# What one value of a reply can do

The readers are permissive so that a wrong value costs one field and not the reply. `Harmless` says
this of one value: a poll on the reply with it completes, the other fields are read as before, and
the progress is a fraction. `harmless_iff` says which replies keep to it: those without a value that
Python converts by raising, or lets through as a NaN.
-/

namespace FlashforgeObico

open Py

/-- The value `v` under the key `k` of the reply `d` stops no poll, costs no field that is read from
another key, and leaves the progress a fraction. -/
structure Harmless (d : Dict) (k : String) (v : Json) : Prop where
  survives : ∀ (a : Agent) now accepts, (Agent.refresh (.ok (d.set k v)) now accepts a).1 = .ok true
  agrees : ∀ s s', parseSnapshot d = .ok s → parseSnapshot (d.set k v) = .ok s' →
    ∀ f : Field, f.key ≠ k → f.get s' = f.get s
  fraction : ∀ s', parseSnapshot (d.set k v) = .ok s' → 0 ≤ s'.progress ∧ s'.progress ≤ 1

/-- No field of a reply makes its reader raise, the progress is not a NaN, and the time left, if one
is projected, fits in the doubles. -/
structure Readable (d : Dict) : Prop where
  fields : ∀ f : Field, ¬ f.Raises (d.get f.key)
  progress : asFloat (d.get "printProgress") ≠ .ok (some .nan)
  estimate : EstimateFits d

namespace Agent

/-- The agent when a poll publishes a snapshot. -/
def publishing (a : Agent) (s : PrinterSnapshot) : Agent :=
  ({ a with snapshot := some s, failures := 0 }.log [.detail (some s)]).discovered

theorem discovered_eq (a : Agent) : ∃ cameras reserver,
    a.discovered = { a with cameras, reserver } := by
  unfold discovered
  split
  · exact ⟨_, _, rfl⟩
  · split_ifs
    · exact ⟨_, _, rfl⟩
    · exact ⟨_, _, rfl⟩

theorem publishing_snapshot (a : Agent) (s : PrinterSnapshot) :
    (a.publishing s).snapshot = some s := by
  obtain ⟨_, _, h⟩ := discovered_eq ({ a with snapshot := some s, failures := 0 }.log
    [.detail (some s)])
  rw [publishing, h]
  rfl

theorem publishing_settingsSent (a : Agent) (s : PrinterSnapshot) :
    (a.publishing s).settingsSent = a.settingsSent := by
  obtain ⟨_, _, h⟩ := discovered_eq ({ a with snapshot := some s, failures := 0 }.log
    [.detail (some s)])
  rw [publishing, h]
  rfl

theorem refresh_of_parsed {d : Dict} {s : PrinterSnapshot} (h : parseSnapshot d = .ok s)
    (now : Time)
    (accepts : PrinterEvent → Bool) (a : Agent) :
    refresh (.ok d) now accepts a = (publish now >>= fun _ => do
      reportFault accepts
      return true : Method Bool) (a.publishing s) := by
  have hread : readPrinter (.ok d) a =
      (.ok true, { a with snapshot := some s, failures := 0 }.log [.detail (some s)]) := by
    simp only [readPrinter, requestDetail, Procedure.bind_apply, Procedure.ofExcept, h,
      Procedure.modify, emit, Procedure.pure_apply]
    rfl
  rw [refresh, Procedure.bind_of_ok hread, if_pos rfl, discoverCamera,
    Procedure.modify_bind, publishing]

theorem refresh_of_unparsed {d : Dict} {e : Error} (h : parseSnapshot d = .error e) (now : Time)
    (accepts : PrinterEvent → Bool) (a : Agent) : (refresh (.ok d) now accepts a).1 = .error e := by
  have hread : readPrinter (.ok d) a = (.error e, a) := by
    simp only [readPrinter, requestDetail, Procedure.bind_apply, Procedure.ofExcept, h]
  rw [refresh, Procedure.bind_of_error hread]

/-- A poll completes when its reply is parsed and what it shows can be published. -/
theorem refresh_completes_iff {d : Dict} {now : Time} {accepts : PrinterEvent → Bool} {a : Agent} :
    (refresh (.ok d) now accepts a).1 = .ok true ↔
      ∃ s, parseSnapshot d = .ok s ∧ (publish now (a.publishing s)).1 = .ok () := by
  rcases hd : parseSnapshot d with e | s
  · rw [refresh_of_unparsed hd]
    simp
  · rw [refresh_of_parsed hd]
    rcases hp : publish now (a.publishing s) with ⟨e | ⟨⟩, c⟩
    · rw [Procedure.bind_of_error hp]
      simp [hp]
    · obtain ⟨codes, es, hf, -⟩ := reportFault_spec accepts c
      rw [Procedure.bind_of_ok hp, Procedure.bind_of_ok hf]
      simp [hp, Procedure.pure_apply]

/-- **Every poll on a parsed reply completes exactly when the time left can be projected.** -/
theorem polls_complete_iff {d : Dict} {s : PrinterSnapshot} (hs : parseSnapshot d = .ok s) :
    (∀ (a : Agent) now accepts, (refresh (.ok d) now accepts a).1 = .ok true) ↔
      EstimateFits d := by
  have hstatus : ∀ (a : Agent) now, (∃ e, (a.publishing s).newStatus now = .error e) ↔
      ¬ EstimateFits d := by
    intro a now
    rw [newStatus_error_iff, estimateFits_iff hs, ← estimate_raises_iff, publishing_snapshot]
    simp
  constructor
  · intro h
    by_contra hno
    obtain ⟨s', hs', hp⟩ := refresh_completes_iff.mp (h bare 0 fun _ => true)
    rw [hs] at hs'
    cases hs'
    have hdue : (bare.publishing s).Due 0 :=
      Or.inr (Or.inr (Or.inl (publishing_settingsSent bare s)))
    exact publish_raises hdue ((hstatus bare 0).mpr hno) hp
  · intro h a now accepts
    refine refresh_completes_iff.mpr ⟨s, hs, ?_⟩
    obtain ⟨ms, hp⟩ := published (a.publishing s) now
    rcases hr : (publish now (a.publishing s)).1 with e | ⟨⟩
    · exact absurd h ((hstatus a now).mp ⟨e, (hp.error e hr).2⟩)
    · rfl

end Agent

open Agent

/-- **When a value is harmless.** -/
theorem harmless_iff (d : Dict) (k : String) (v : Json) :
    Harmless d k v ↔ Readable (d.set k v) := by
  constructor
  · intro h
    obtain ⟨s, hs, -⟩ := refresh_completes_iff.mp (h.survives bare 0 fun _ => true)
    exact ⟨exists_parseSnapshot_eq_ok_iff.mp ⟨s, hs⟩,
      (progress_mem_unit_iff hs).mp (h.fraction s hs),
      (polls_complete_iff hs).mp h.survives⟩
  · intro h
    obtain ⟨s, hs⟩ := exists_parseSnapshot_eq_ok_iff.mpr h.fields
    refine ⟨(polls_complete_iff hs).mpr h.estimate, ?_, ?_⟩
    · intro s₀ s' hs₀ hs' f hf
      exact get_eq_of_set hs₀ hs' hf
    · intro s' hs'
      exact (progress_mem_unit_iff hs').mpr h.progress

/-- An estimated time that reads `"inf"` stops the poll loop. -/
theorem infinite_time_is_not_harmless :
    ¬ Harmless (detailOf "printing" "a.gcode") "estimatedTime" (.str "inf") := by
  intro h
  have hsurvives := h.survives bare 0 fun _ => true
  revert hsurvives
  decide +kernel

end FlashforgeObico
