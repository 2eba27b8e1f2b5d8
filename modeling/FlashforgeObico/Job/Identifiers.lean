import FlashforgeObico.Foundations.Trace
import FlashforgeObico.Job.Sessions

/-!
# The identifiers of the sessions

`current_print_ts` is the clock in whole seconds when a session begins. `identifiers` lists the
values that the tracker assigns, one for each `PrintStarted`. An observation begins a session when
it shows a job that the last familiar snapshot before did not show (`mem_started_iff`); so the
identifiers are distinct exactly when no two sessions begin in the same second
(`identifiers_nodup_iff`).
-/

namespace FlashforgeObico

open Trace JobTracker

/-- The job that a snapshot shows, by the name of its file. -/
def PrinterSnapshot.job? (s : PrinterSnapshot) : Option String :=
  if s.HasJob then some s.fileName else none

/-- The snapshot that was read, unless its state is unknown. -/
def familiar? (o : Observation) : Option PrinterSnapshot := o.1.filter fun s => s.state ≠ .unknown

/-- The job that the last familiar snapshot showed. -/
def jobShown (os : List Observation) : Option String :=
  (lastOf familiar? os).bind PrinterSnapshot.job?

/-- An observation shows a job that the last familiar snapshot before it did not show. -/
def BeginsJob (pre : List Observation) (o : Observation) : Prop :=
  ∃ s ∈ o.1, s.HasJob ∧ jobShown pre ≠ some s.fileName

instance (pre : List Observation) (o : Observation) : Decidable (BeginsJob pre o) :=
  inferInstanceAs (Decidable (∃ s ∈ o.1, s.HasJob ∧ jobShown pre ≠ some s.fileName))

/-- No two observations that begin a job do so in the same second. -/
def InDifferentSeconds (os : List Observation) : Prop :=
  Along (fun pre o' => BeginsJob pre o' →
    Along (fun pre o => BeginsJob pre o → o.2.toInt ≠ o'.2.toInt) pre) os

instance (os : List Observation) : Decidable (InDifferentSeconds os) := by
  unfold InDifferentSeconds
  infer_instance

namespace JobTracker

/-- One call of `observe`, adding `current_print_ts` for each `PrintStarted` that it reports. -/
def identify (h : JobTracker × List ℤ) (o : Observation) : JobTracker × List ℤ :=
  let r := h.1.observe o.1 o.2
  (r.1, h.2 ++ (r.2.filter fun e => e = .started).map fun _ => r.1.currentPrintTs)

/-- The tracker and the identifiers it assigned, after a sequence of calls from the initial
tracker. -/
def identifyAll (os : List Observation) : JobTracker × List ℤ := os.foldl identify ({}, [])

end JobTracker

/-- The values of `current_print_ts` that were assigned with a `PrintStarted`, in order. -/
def identifiers (os : List Observation) : List ℤ := (identifyAll os).2

/-! ## When a session begins -/

theorem jobShown_concat (os : List Observation) (o : Observation) :
    jobShown (os ++ [o]) = match familiar? o with
      | some s => s.job?
      | none => jobShown os := by
  rw [jobShown, lastOf_concat]
  rcases familiar? o with _ | s <;> rfl

theorem familiar?_eq_some_iff {o : Observation} {s : PrinterSnapshot} :
    familiar? o = some s ↔ o.1 = some s ∧ s.state ≠ .unknown := by
  simp [familiar?, Option.filter_eq_some_iff]

theorem familiar?_of_ne_unknown {s : PrinterSnapshot} (hs : s.state ≠ .unknown) (now : Time) :
    familiar? (some s, now) = some s :=
  familiar?_eq_some_iff.mpr ⟨rfl, hs⟩

theorem PrinterSnapshot.HasJob.job?_eq {s : PrinterSnapshot} (h : s.HasJob) :
    s.job? = some s.fileName :=
  if_pos h

/-- The active file is the job that the last familiar snapshot showed. -/
theorem activeFile_observe {t : JobTracker} {o : Observation} {os : List Observation}
    (h : t.activeFile = jobShown os) : (t.observe o.1 o.2).1.activeFile = jobShown (os ++ [o]) := by
  obtain ⟨snapshot, now⟩ := o
  rw [jobShown_concat]
  dsimp only
  obtain ⟨t', es, hobserve, hobs⟩ := exists_observed t snapshot now
  rw [hobserve]
  cases hobs with
  | unread => exact h
  | unfamiliar hu => simpa [familiar?, Option.filter, hu] using h
  | idle hu ha hj => simpa [familiar?_of_ne_unknown hu, PrinterSnapshot.job?, hj] using ha
  | begins _ hj => simp [familiar?_of_ne_unknown hj.state_ne, hj.job?_eq, start]
  | continues ha hj _ => simp [familiar?_of_ne_unknown hj.state_ne, hj.job?_eq, ha]
  | pauses ha hj _ _ => simp [familiar?_of_ne_unknown hj.state_ne, hj.job?_eq, ha]
  | resumes ha hj _ _ => simp [familiar?_of_ne_unknown hj.state_ne, hj.job?_eq, ha]
  | ends hu _ hj => simp [familiar?_of_ne_unknown hu, PrinterSnapshot.job?, hj]
  | swaps _ hj _ => simp [familiar?_of_ne_unknown hj.state_ne, hj.job?_eq, start]

/-- A call assigns the identifier of the second in which it is made, if it begins a session. -/
theorem assigned_observe {t : JobTracker} {o : Observation} {os : List Observation}
    (h : t.activeFile = jobShown os) :
    (((t.observe o.1 o.2).2.filter fun e => e = .started).map fun _ =>
      (t.observe o.1 o.2).1.currentPrintTs) = if BeginsJob os o then [o.2.toInt] else [] := by
  obtain ⟨snapshot, now⟩ := o
  have hending : ∀ s, t.endEvent s ≠ .started := fun s he =>
    absurd (he ▸ endEvent_isEnding t s) (by decide)
  have hbegins : ∀ s, BeginsJob os (some s, now) ↔ s.HasJob ∧ t.activeFile ≠ some s.fileName := by
    simp [BeginsJob, h]
  dsimp only
  obtain ⟨t', es, hobserve, hobs⟩ := exists_observed t snapshot now
  rw [hobserve]
  cases hobs with
  | unread => simp [BeginsJob]
  | @unfamiliar s hu =>
    have hj : ¬ s.HasJob := fun hj => absurd hu hj.state_ne
    simp [hbegins, hj]
  | idle _ _ hj => simp [hbegins, hj]
  | begins ha hj => simp [hbegins, hj, ha, start]
  | continues ha hj _ => simp [hbegins, ha]
  | pauses ha hj _ _ => simp [hbegins, ha]
  | resumes ha hj _ _ => simp [hbegins, ha]
  | ends _ _ hj => simp [hbegins, hj, hending]
  | swaps ha hj hne => simp [hbegins, hj, ha, hne.symm, hending, start]

theorem activeFile_identifyAll (os : List Observation) :
    (identifyAll os).1.activeFile = jobShown os := by
  induction os using List.reverseRecOn with
  | nil => rfl
  | append_singleton os o ih =>
    rw [identifyAll, List.foldl_append]
    exact activeFile_observe ih

theorem identifiers_concat (os : List Observation) (o : Observation) :
    identifiers (os ++ [o]) = identifiers os ++ if BeginsJob os o then [o.2.toInt] else [] := by
  rw [← assigned_observe (activeFile_identifyAll os), identifiers, identifyAll, List.foldl_append]
  rfl

/-- The identifiers are the seconds in which a job begins. -/
theorem forall_mem_identifiers {p : ℤ → Prop} (os : List Observation) :
    (∀ ts ∈ identifiers os, p ts) ↔ Along (fun pre o => BeginsJob pre o → p o.2.toInt) os := by
  induction os using List.reverseRecOn with
  | nil => simp [identifiers, identifyAll, along_nil]
  | append_singleton os o ih =>
    rw [identifiers_concat, along_snoc, List.forall_mem_append, ih]
    split_ifs with h <;> simp [h]

/-- **The identifiers of the sessions are distinct exactly when no two sessions begin in the same
second**, for every sequence of calls of `observe`. -/
theorem identifiers_nodup_iff (os : List Observation) :
    (identifiers os).Nodup ↔ InDifferentSeconds os := by
  induction os using List.reverseRecOn with
  | nil => simp [identifiers, identifyAll, InDifferentSeconds, along_nil]
  | append_singleton os o ih =>
    have hlast : (∀ ts ∈ identifiers os, ts ≠ o.2.toInt) ↔
        Along (fun pre o' => BeginsJob pre o' → o'.2.toInt ≠ o.2.toInt) os :=
      forall_mem_identifiers os
    rw [InDifferentSeconds, along_snoc, ← hlast, identifiers_concat]
    split_ifs with h
    · have hdisjoint : (identifiers os).Disjoint [o.2.toInt] ↔ ∀ ts ∈ identifiers os,
        ts ≠ o.2.toInt := by
        simp [List.disjoint_singleton, ne_eq, List.forall_mem_ne']
      simp only [List.nodup_append', ih, hdisjoint, List.nodup_singleton, true_and, h, true_implies]
      rfl
    · simp only [List.append_nil, ih, h, false_implies, and_true]
      rfl

/-- A snapshot of a printer that prints a file. -/
def printing (fileName : String) : Option PrinterSnapshot :=
  (parseSnapshot [("status", .str "printing"), ("printFileName", .str fileName)]).toOption

/-- Half a second after a job begins, the printer shows another one. -/
def swapWithinSecond : List Observation :=
  [(printing "a.gcode", 3000), (printing "b.gcode", 6001 / 2)]

theorem swapWithinSecond_shares_identifier :
    swapWithinSecond.Pairwise (fun o o' => o.2 < o'.2) ∧
      ¬ (identifiers swapWithinSecond).Nodup := by
  decide +kernel

end FlashforgeObico
