import Mathlib.Data.Nat.Notation
import Mathlib.Logic.Relation

/-!
# Labelled transition systems and their runs

A transition system is a relation `step s l t`: the label `l` takes the state `s` to `t`. Threads
that interleave, and components that exchange messages, are transition systems whose labels say
who moves. `Run step s ls t` is a finite run from `s` to `t` with labels `ls`; `restrict ok step`
keeps the steps that a condition on the state before the step and on its label allows, so that a
run of the restriction is a run whose steps all meet the condition.

The rules: what a step preserves holds along a run (`Run.invariant`), also when the invariant speaks
of the labels of the run so far (`Run.history`), a rank bounds the number of the steps that lower it
(`Run.countP_add_rank_le`), a run is a run of another system that its steps are steps of
(`Run.project`), the steps that a relation does not see can be left out (`Run.filter`), and runs of
a partial step function are its iterated application (`run_ofPartial`). `run_keeping_iff` gives the
condition on the steps under which every state of a run is good, when it is exact for one step.
-/

namespace Transition

variable {σ ℓ : Type*}

/-- The transition relation of a partial step function. -/
def ofPartial (f : σ → ℓ → Option σ) : σ → ℓ → σ → Prop := fun s l t => f s l = some t

/-- The transition relation of a total step function. -/
def ofTotal (f : σ → ℓ → σ) : σ → ℓ → σ → Prop := fun s l t => f s l = t

/-- A partial step function with a condition on the state before the step and on the label. -/
def guarded (ok : σ → ℓ → Prop) [∀ s l, Decidable (ok s l)] (f : σ → ℓ → Option σ) :
    σ → ℓ → Option σ :=
  fun s l => if ok s l then f s l else none

/-- The steps that meet a condition on the state before the step and on the label. -/
def restrict (ok : σ → ℓ → Prop) (step : σ → ℓ → σ → Prop) : σ → ℓ → σ → Prop :=
  fun s l t => ok s l ∧ step s l t

/-- The steps into the states that meet a condition. -/
def keeping (I : σ → Prop) (step : σ → ℓ → σ → Prop) : σ → ℓ → σ → Prop :=
  fun s l t => step s l t ∧ I t

/-- A finite run, with its labels in order. -/
inductive Run (step : σ → ℓ → σ → Prop) (s : σ) : List ℓ → σ → Prop
  | nil : Run step s [] s
  | snoc {ls t l u} : Run step s ls t → step t l u → Run step s (ls ++ [l]) u

namespace Run

variable {step : σ → ℓ → σ → Prop} {s t u : σ} {ls : List ℓ}

/-- What holds initially and is preserved by every step holds at the end of every run. -/
theorem invariant {I : σ → Prop} (h : Run step s ls t) (h0 : I s)
    (hstep : ∀ t l u, I t → step t l u → I u) : I t := by
  induction h with
  | nil => exact h0
  | snoc _ hl ih => exact hstep _ _ _ ih hl

/-- An invariant that also speaks of the labels of the run so far. -/
theorem history {I : List ℓ → σ → Prop} (h : Run step s ls t) (h0 : I [] s)
    (hstep : ∀ ls t l u, I ls t → step t l u → I (ls ++ [l]) u) : I ls t := by
  induction h with
  | nil => exact h0
  | snoc _ hl ih => exact hstep _ _ _ _ ih hl

theorem cons {l : ℓ} (hl : step s l t) (h : Run step t ls u) : Run step s (l :: ls) u := by
  induction h with
  | nil => exact (Run.nil (s := s)).snoc hl
  | snoc _ hl' ih => exact ih.snoc hl'

/-- A rank that no step raises, and that the marked steps lower, bounds the number of marked
steps. -/
theorem countP_add_rank_le {I : σ → Prop} {rank : σ → ℕ} {p : ℓ → Bool} (h : Run step s ls t)
    (h0 : I s) (hstep : ∀ t l u, I t → step t l u →
      I u ∧ rank u + (if p l = true then 1 else 0) ≤ rank t) :
    I t ∧ ls.countP p + rank t ≤ rank s := by
  induction h with
  | nil => exact ⟨h0, by simp⟩
  | snoc _ hl ih =>
    obtain ⟨hIt, hcount⟩ := ih
    obtain ⟨hIu, hrank⟩ := hstep _ _ _ hIt hl
    refine ⟨hIu, ?_⟩
    rw [List.countP_append, List.countP_singleton]
    omega

/-- A run of a system is, through `f`, a run of another one, when each step is one of its steps or
none. -/
theorem project {τ ℓ' : Type*} {step' : τ → ℓ' → τ → Prop} {f : σ → τ} (h : Run step s ls t)
    (hstep : ∀ t l u, step t l u → f u = f t ∨ ∃ l', step' (f t) l' (f u)) :
    ∃ ls', Run step' (f s) ls' (f t) := by
  induction h with
  | nil => exact ⟨[], .nil⟩
  | snoc _ hl ih =>
    obtain ⟨ls', hrun⟩ := ih
    rcases hstep _ _ _ hl with hsame | ⟨l', hl'⟩
    · exact ⟨ls', hsame ▸ hrun⟩
    · exact ⟨ls' ++ [l'], hrun.snoc hl'⟩

/-- The steps that a relation does not see can be left out of a run. -/
theorem filter {R : σ → σ → Prop} {p : ℓ → Bool} {s' : σ} (h : Run step s ls t) (h0 : R s s')
    (hkept : ∀ t l u t', R t t' → step t l u → p l = true → ∃ u', step t' l u' ∧ R u u')
    (hleft : ∀ t l u t', R t t' → step t l u → p l = false → R u t') :
    ∃ t', Run step s' (ls.filter p) t' ∧ R t t' := by
  induction h with
  | nil => exact ⟨s', .nil, h0⟩
  | @snoc ls t l u _ hl ih =>
    obtain ⟨t', hrun, hR⟩ := ih
    rw [List.filter_append]
    cases hp : p l with
    | true =>
      obtain ⟨u', hl', hR'⟩ := hkept _ _ _ _ hR hl hp
      rw [List.filter_cons_of_pos hp]
      exact ⟨u', hrun.snoc hl', hR'⟩
    | false =>
      rw [List.filter_cons_of_neg (by simp [hp]), List.filter_nil, List.append_nil]
      exact ⟨t', hrun, hleft _ _ _ _ hR hl hp⟩

/-- A run is empty, or it begins with a step. -/
theorem cases_head (h : Run step s ls u) :
    (ls = [] ∧ u = s) ∨ ∃ l ls' t, ls = l :: ls' ∧ step s l t ∧ Run step t ls' u := by
  induction h with
  | nil => exact .inl ⟨rfl, rfl⟩
  | snoc _ hl ih =>
    rcases ih with ⟨rfl, rfl⟩ | ⟨l, ls', t, rfl, hfirst, hrest⟩
    · exact .inr ⟨_, [], _, rfl, hl, .nil⟩
    · exact .inr ⟨l, _, t, rfl, hfirst, hrest.snoc hl⟩

end Run

/-- When the steps that keep `I` are those that meet `ok`, the runs whose states all meet `I` are
those whose steps all meet `ok`. The invariant `J` helps. -/
theorem run_keeping_iff {step : σ → ℓ → σ → Prop} {I J : σ → Prop} {ok : σ → ℓ → Prop} {s t : σ}
    {ls : List ℓ} (hI : I s) (hJ : J s) (hinvariant : ∀ t l u, J t → step t l u → J u)
    (hstep : ∀ t l u, J t → I t → step t l u → (I u ↔ ok t l)) :
    Run (keeping I step) s ls t ↔ Run (restrict ok step) s ls t := by
  constructor
  · intro h
    have hboth : Run (restrict ok step) s ls t ∧ I t ∧ J t := by
      induction h with
      | nil => exact ⟨.nil, hI, hJ⟩
      | snoc _ hl ih =>
        obtain ⟨hrun, hIt, hJt⟩ := ih
        have hok := (hstep _ _ _ hJt hIt hl.1).mp hl.2
        exact ⟨hrun.snoc ⟨hok, hl.1⟩, hl.2, hinvariant _ _ _ hJt hl.1⟩
    exact hboth.1
  · intro h
    have hboth : Run (keeping I step) s ls t ∧ I t ∧ J t := by
      induction h with
      | nil => exact ⟨.nil, hI, hJ⟩
      | snoc _ hl ih =>
        obtain ⟨hrun, hIt, hJt⟩ := ih
        have hIu := (hstep _ _ _ hJt hIt hl.2).mpr hl.1
        exact ⟨hrun.snoc ⟨hl.2, hIu⟩, hIu, hinvariant _ _ _ hJt hl.2⟩
    exact hboth.1

/-- The runs of a partial step function are its iterated application. -/
theorem run_ofPartial {f : σ → ℓ → Option σ} {s t : σ} {ls : List ℓ} :
    Run (ofPartial f) s ls t ↔ ls.foldlM f s = some t := by
  constructor
  · intro h
    induction h with
    | nil => rfl
    | snoc _ hl ih =>
      rw [List.foldlM_append, ih]
      simpa [ofPartial] using hl
  · intro h
    induction ls generalizing s with
    | nil =>
      obtain rfl : s = t := by simpa using h
      exact .nil
    | cons l ls ih =>
      obtain ⟨u, hu, h'⟩ : ∃ u, f s l = some u ∧ ls.foldlM f u = some t := by
        simpa [List.foldlM_cons, Option.bind_eq_some_iff] using h
      exact Run.cons hu (ih h')

/-- The steps of a partial function that meet a condition are those of the guarded function. -/
theorem restrict_ofPartial (ok : σ → ℓ → Prop) [∀ s l, Decidable (ok s l)] (f : σ → ℓ → Option σ) :
    restrict ok (ofPartial f) = ofPartial (guarded ok f) := by
  funext s l t
  by_cases h : ok s l <;> simp [restrict, ofPartial, guarded, h]

/-- The runs of a total step function are its iterated application. -/
theorem run_ofTotal {f : σ → ℓ → σ} {s t : σ} {ls : List ℓ} :
    Run (ofTotal f) s ls t ↔ ls.foldl f s = t := by
  constructor
  · intro h
    induction h with
    | nil => rfl
    | snoc _ hl ih =>
      rw [List.foldl_append, ih]
      exact hl
  · rintro rfl
    induction ls generalizing s with
    | nil => exact .nil
    | cons l ls ih => exact Run.cons rfl ih

end Transition
