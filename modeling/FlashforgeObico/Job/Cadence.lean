import FlashforgeObico.Job.Identifiers

/-!
# The cadence of the polls

A `Cadence` is a sequence of observations in which others are inserted: observations at which the
printer could not be read or was in an unknown state, and repetitions of an observation after it.
They change nothing (`cadence_changes_nothing`), since an observation that is repeated is nothing
new to the tracker (`observe_again`).
-/

namespace FlashforgeObico

open JobTracker

/-- Nothing was read, or a state that is unknown. -/
def Blind (o : Observation) : Prop := familiar? o = none

/-- An observation, and what is inserted after it: repetitions of it, at any time, and blind
observations. -/
structure Stretch where
  original : Observation
  inserted : List Observation
  isInserted : ∀ o ∈ inserted, Blind o ∨ o.1 = original.1

/-- The observations of a stretch. -/
def Stretch.observations (s : Stretch) : List Observation := s.original :: s.inserted

/-- A sequence of observations in which others are inserted. -/
structure Cadence where
  inserted : List Observation
  blind : ∀ o ∈ inserted, Blind o
  stretches : List Stretch

namespace Cadence

/-- The original observations. -/
def originals (c : Cadence) : List Observation := c.stretches.map Stretch.original

/-- All observations. -/
def observations (c : Cadence) : List Observation :=
  c.inserted ++ c.stretches.flatMap Stretch.observations

end Cadence

/-! ## Observations that change nothing -/

namespace JobTracker

/-- An observation changes nothing and reports nothing. -/
def Quiet (t : JobTracker) (o : Observation) : Prop := t.observe o.1 o.2 = (t, [])

theorem quiet_of_blind (t : JobTracker) {o : Observation} (h : Blind o) : t.Quiet o := by
  obtain ⟨_ | s, now⟩ := o
  · rfl
  · have hs : s.state = .unknown := by simpa [Blind, familiar?, Option.filter] using h
    simp [Quiet, observe, hs]

theorem quiet_of_again (t : JobTracker) (o : Observation) (now : Time) :
    (t.observe o.1 o.2).1.Quiet (o.1, now) := by
  obtain ⟨_ | s, time⟩ := o
  · rfl
  · exact observe_again t s time now

end JobTracker

/-! ## Folds of the tracker -/

section Folds

/-- A fold that calls the tracker on each observation, and that does nothing on those that are
quiet. -/
structure FollowsTracker {σ : Type} (f : σ → Observation → σ) (tracker : σ → JobTracker) :
    Prop where
  observe : ∀ h o, tracker (f h o) = ((tracker h).observe o.1 o.2).1
  quiet : ∀ h o, (tracker h).Quiet o → f h o = h

variable {σ : Type} {f : σ → Observation → σ} {tracker : σ → JobTracker}

theorem FollowsTracker.foldl_quiet (hf : FollowsTracker f tracker) {h : σ} {os : List Observation}
    (hos : ∀ o ∈ os, (tracker h).Quiet o) : os.foldl f h = h := by
  induction os with
  | nil => rfl
  | cons o os ih =>
    obtain ⟨ho, hos'⟩ := List.forall_mem_cons.mp hos
    rw [List.foldl_cons, hf.quiet h o ho, ih hos']

theorem FollowsTracker.foldl_stretch (hf : FollowsTracker f tracker) (h : σ) (s : Stretch) :
    s.observations.foldl f h = f h s.original := by
  rw [Stretch.observations, List.foldl_cons]
  refine hf.foldl_quiet fun o ho => ?_
  rw [hf.observe]
  rcases s.isInserted o ho with hblind | hagain
  · exact quiet_of_blind _ hblind
  · have hquiet := quiet_of_again (tracker h) s.original o.2
    rwa [show (s.original.1, o.2) = o from Prod.ext hagain.symm rfl] at hquiet

theorem FollowsTracker.foldl_stretches (hf : FollowsTracker f tracker) (h : σ) (ss : List Stretch) :
    (ss.flatMap Stretch.observations).foldl f h = (ss.map Stretch.original).foldl f h := by
  induction ss generalizing h with
  | nil => rfl
  | cons s ss ih => rw [List.flatMap_cons, List.foldl_append, hf.foldl_stretch, ih]; rfl

/-- The insertions do not change what a fold comes to. -/
theorem FollowsTracker.foldl_cadence (hf : FollowsTracker f tracker) (h : σ) (c : Cadence) :
    c.observations.foldl f h = c.originals.foldl f h := by
  have hblind := hf.foldl_quiet fun o ho => quiet_of_blind (tracker h) (c.blind o ho)
  rw [Cadence.observations, List.foldl_append, hblind, hf.foldl_stretches]
  rfl

theorem next_followsTracker : FollowsTracker next Prod.fst where
  observe _ _ := rfl
  quiet h o ho := by simp [next, show h.1.observe o.1 o.2 = _ from ho]

theorem identify_followsTracker : FollowsTracker identify Prod.fst where
  observe _ _ := rfl
  quiet h o ho := by simp [identify, show h.1.observe o.1 o.2 = _ from ho]

end Folds

/-- **The cadence of the polls changes nothing**: the tracker comes to the same state and reports
the same events on the same observations, and assigns the same identifiers; it is in the same state
after each original observation. -/
theorem cadence_changes_nothing (c : Cadence) :
    observeAll c.observations = observeAll c.originals ∧
      identifiers c.observations = identifiers c.originals ∧
      ∀ pre s post, c.stretches = pre ++ s :: post →
        (observeAll (c.inserted ++ pre.flatMap Stretch.observations ++ [s.original])).1 =
          (observeAll (pre.map Stretch.original ++ [s.original])).1 := by
  refine ⟨next_followsTracker.foldl_cadence _ c,
    congrArg Prod.snd (identify_followsTracker.foldl_cadence ({}, []) c), fun pre s post _ => ?_⟩
  have hpre := next_followsTracker.foldl_cadence ({}, []) { c with stretches := pre }
  rw [observeAll, observeAll, List.foldl_append, List.foldl_append (l := pre.map _)]
  exact congrArg (fun h => ([s.original].foldl next h).1) hpre

/-- A snapshot of a printer in a state that is unknown. -/
def calibrating : Option PrinterSnapshot :=
  (parseSnapshot [("status", .str "calibrating")]).toOption

/-- One job is shown, and then another one, with observations between them that show nothing, and
with repetitions. -/
def swapSeenOften : Cadence where
  inserted := [(none, 6101)]
  blind := List.forall_mem_singleton.mpr rfl
  stretches := [
    { original := (printing "a.gcode", 6102)
      inserted := [(printing "a.gcode", 6103), (calibrating, 6104)]
      isInserted := List.forall_mem_cons.mpr ⟨.inr rfl, List.forall_mem_singleton.mpr (.inl rfl)⟩ },
    { original := (printing "b.gcode", 6105)
      inserted := [(none, 6106), (printing "b.gcode", 6107)]
      isInserted := List.forall_mem_cons.mpr ⟨.inl rfl, List.forall_mem_singleton.mpr (.inr rfl)⟩ }]

/-- The two jobs are reported as if they had been seen once each. -/
theorem swap_is_seen_once :
    (observeAll swapSeenOften.observations).2.map Report.event = [.started, .failed, .started] ∧
      identifiers swapSeenOften.observations = [6102, 6105] := by
  obtain ⟨hreports, hidentifiers, -⟩ := cadence_changes_nothing swapSeenOften
  rw [hreports, hidentifiers]
  decide +kernel

end FlashforgeObico
