import FlashforgeObico.Camera.Mjpeg
import FlashforgeObico.Foundations.Trace

/-!
# How long a source waits before it reconnects

The loop of `MjpegSource._run`: an attempt is refused, or it delivers frames until the stream ends
or an exception is raised, and then the source sleeps. `_consume_stream` returns the backoff to use
next, reset once a frame arrived; an exception discards what it would have returned. So the delay is
reset by a session that ends at the end of its stream, and `backs_off_iff` says that the delays are
as they should be exactly when no attempt after the first delivers a frame and then fails.
-/

namespace FlashforgeObico

namespace MjpegSource

open Py Trace

/-- `BACKOFF_START_S`. -/
def backoffStartS : ℕ := 1

/-- `BACKOFF_MAX_S`. -/
def backoffMaxS : ℕ := 30

/-- What becomes of a call of `_consume_stream`: the opener raises, or frames arrive until the
stream ends or an exception is raised. An exception is given by its text,
`f"{type(exc).__name__}: {exc}"`. -/
inductive Attempt
  | refused (error : String)
  | streamed (frames : List Bytes) (error : Option String)
  deriving DecidableEq

namespace Attempt

/-- At least one frame arrives. -/
def Delivers : Attempt → Prop
  | refused _ => False
  | streamed frames _ => frames ≠ []

/-- It ends by an exception. -/
def Fails : Attempt → Prop
  | refused _ => True
  | streamed _ error => error ≠ none

instance : DecidablePred Delivers
  | refused _ => inferInstanceAs (Decidable False)
  | streamed frames _ => inferInstanceAs (Decidable (frames ≠ []))

instance : DecidablePred Fails
  | refused _ => inferInstanceAs (Decidable True)
  | streamed _ error => inferInstanceAs (Decidable (error ≠ none))

end Attempt

/-- A round of the loop: what becomes of the attempt, and whether `_stop` is set when it ends. -/
structure Visit where
  attempt : Attempt
  stop : Bool := false
  deriving DecidableEq

/-- The local `backoff` of `_run`, the fields that the loop writes, and the delays slept so far,
each with the attempt that it was slept after. -/
structure Reconnecting where
  backoff : ℕ := backoffStartS
  latest : Option Bytes := none
  lastError : String := ""
  slept : List (Attempt × ℕ) := []
  deriving DecidableEq

namespace Reconnecting

/-- `_store`. -/
def store (s : Reconnecting) (jpeg : Bytes) : Reconnecting :=
  { s with latest := some jpeg, lastError := "" }

/-- `_consume_stream`: what it stores, and the backoff that it returns unless it raises. -/
def consumeStream (s : Reconnecting) : Attempt → Reconnecting × Except String ℕ
  | .refused error => (s, .error error)
  | .streamed frames error =>
    let (s', backoff) :=
      frames.foldl (fun p frame => (p.1.store frame, backoffStartS)) (s, s.backoff)
    match error with
    | some error => (s', .error error)
    | none => (s', .ok backoff)

/-- The `try` statement of `_run`. -/
def attempt (s : Reconnecting) (v : Visit) : Reconnecting :=
  match s.consumeStream v.attempt with
  | (s', .ok backoff) => { s' with backoff := backoff }
  | (s', .error error) => if v.stop then s' else { s' with lastError := error }

/-- `self._sleep(backoff)`, and the backoff for the next time. -/
def sleep (s : Reconnecting) (a : Attempt) : Reconnecting :=
  { s with
    slept := s.slept ++ [(a, s.backoff)]
    backoff := min (s.backoff * 2) backoffMaxS }

/-- `_run`, round by round; there are no more rounds when `_stop` is set at the head of the loop. -/
def run (s : Reconnecting) : List Visit → Reconnecting
  | [] => s
  | v :: vs =>
    if v.stop then s.attempt v else run ((s.attempt v).sleep v.attempt) vs

end Reconnecting

/-- The attempts that end while `_stop` is not set. -/
def unstopped (vs : List Visit) : List Attempt := (vs.takeWhile fun v => !v.stop).map Visit.attempt

/-- The delay to be slept after an attempt: the first one after the first attempt and after one that
delivered a frame, and otherwise twice the delay before, up to the longest. -/
def dueDelay (before : List (Attempt × ℕ)) (a : Attempt) : ℕ :=
  match before.getLast? with
  | none => backoffStartS
  | some (_, previous) => if a.Delivers then backoffStartS else min (2 * previous) backoffMaxS

/-- Each delay is the one that is due. -/
def BacksOff (slept : List (Attempt × ℕ)) : Prop :=
  Along (fun before p => p.2 = dueDelay before p.1) slept

instance (slept : List (Attempt × ℕ)) : Decidable (BacksOff slept) :=
  inferInstanceAs (Decidable (Along _ slept))

/-! ## One round -/

namespace Reconnecting

variable {s : Reconnecting}

theorem slept_foldl_store (frames : List Bytes) (b : ℕ) :
    (frames.foldl (fun p frame => (p.1.store frame, backoffStartS)) (s, b)).1.slept = s.slept ∧
      (frames.foldl (fun p frame => (p.1.store frame, backoffStartS)) (s, b)).1.backoff =
        s.backoff := by
  induction frames generalizing s b with
  | nil => exact ⟨rfl, rfl⟩
  | cons frame frames ih => exact ih (s := s.store frame) backoffStartS

theorem backoff_foldl_store (frames : List Bytes) (b : ℕ) :
    (frames.foldl (fun p frame => (p.1.store frame, backoffStartS)) (s, b)).2 =
      if frames = [] then b else backoffStartS := by
  induction frames generalizing s b with
  | nil => rfl
  | cons frame frames ih =>
    rw [List.foldl_cons, ih, if_neg (List.cons_ne_nil _ _)]
    split_ifs <;> rfl

theorem slept_attempt (v : Visit) : (s.attempt v).slept = s.slept := by
  obtain ⟨a, stop⟩ := v
  rcases a with error | ⟨frames, error⟩
  · cases stop <;> rfl
  · rcases error with _ | error
    · exact (slept_foldl_store frames s.backoff).1
    · cases stop <;> exact (slept_foldl_store frames s.backoff).1

/-- The backoff is reset by an attempt that delivers a frame and returns. -/
theorem backoff_attempt (v : Visit) :
    (s.attempt v).backoff =
      if v.attempt.Delivers ∧ ¬ v.attempt.Fails then backoffStartS else s.backoff := by
  obtain ⟨a, stop⟩ := v
  rcases a with error | ⟨frames, error⟩
  · cases stop <;> rfl
  · rcases error with _ | error
    · have hreturned : (s.attempt ⟨.streamed frames none, stop⟩).backoff =
          if frames = [] then s.backoff else backoffStartS := backoff_foldl_store frames s.backoff
      rw [hreturned]
      by_cases hframes : frames = [] <;> simp [hframes, Attempt.Delivers, Attempt.Fails]
    · have hkept : (s.attempt ⟨.streamed frames (some error), stop⟩).backoff = s.backoff := by
        cases stop <;> exact (slept_foldl_store frames s.backoff).2
      simp [hkept, Attempt.Fails]

/-- The backoff before an attempt is what would be due after an attempt that delivers nothing. -/
structure Due (s : Reconnecting) : Prop where
  first : s.slept = [] → s.backoff = backoffStartS
  doubled : ∀ p ∈ s.slept.getLast?, s.backoff = min (2 * p.2) backoffMaxS ∧ backoffStartS ≤ p.2

theorem due_initial : Due {} := by
  constructor <;> simp

/-- After the first attempt, the backoff is longer than the first delay. -/
theorem Due.start_lt (h : s.Due) (hslept : s.slept ≠ []) : backoffStartS < s.backoff := by
  obtain ⟨hbackoff, hstart⟩ := h.doubled _ (List.getLast?_eq_getLast_of_ne_nil hslept)
  rw [hbackoff]
  simp only [backoffStartS, backoffMaxS] at hstart ⊢
  omega

theorem Due.start_le (h : s.Due) : backoffStartS ≤ s.backoff := by
  by_cases hslept : s.slept = []
  · exact (h.first hslept).ge
  · exact (h.start_lt hslept).le

theorem slept_round (v : Visit) :
    ((s.attempt v).sleep v.attempt).slept = s.slept ++ [(v.attempt, (s.attempt v).backoff)] := by
  rw [sleep, slept_attempt]

theorem Due.round (h : s.Due) (v : Visit) : ((s.attempt v).sleep v.attempt).Due := by
  constructor
  · simp [slept_round]
  · intro p hp
    rw [slept_round, List.getLast?_concat] at hp
    obtain rfl := Option.some.inj hp
    refine ⟨by rw [sleep, Nat.mul_comm], ?_⟩
    rw [backoff_attempt]
    split_ifs
    · exact le_rfl
    · exact h.start_le

/-- **The delay slept after an attempt is due** unless the attempt, which is not the first, delivers
a frame and then fails. -/
theorem Due.backoff_eq_iff (h : s.Due) (v : Visit) :
    (s.attempt v).backoff = dueDelay s.slept v.attempt ↔
      s.slept = [] ∨ ¬ (v.attempt.Delivers ∧ v.attempt.Fails) := by
  rw [backoff_attempt]
  rcases hlast : s.slept.getLast? with _ | ⟨b, previous⟩
  · have hslept := List.getLast?_eq_none_iff.mp hlast
    simp [dueDelay, hslept, h.first hslept]
  · have hslept : s.slept ≠ [] := by
      intro hnil
      simp [hnil] at hlast
    have hlt := h.start_lt hslept
    have hbackoff : s.backoff = min (2 * previous) backoffMaxS := (h.doubled _ hlast).1
    simp only [dueDelay, hlast, ← hbackoff]
    by_cases hdelivers : v.attempt.Delivers <;> by_cases hfails : v.attempt.Fails <;>
      simp [hdelivers, hfails, hslept, hlt.ne']

theorem Due.backsOff_round_iff (h : s.Due) (v : Visit) :
    BacksOff ((s.attempt v).sleep v.attempt).slept ↔ BacksOff s.slept ∧
      (s.slept = [] ∨ ¬ (v.attempt.Delivers ∧ v.attempt.Fails)) := by
  rw [slept_round, BacksOff, along_snoc]
  exact and_congr_right fun _ => h.backoff_eq_iff v

/-! ## The run -/

theorem slept_run (vs : List Visit) :
    (s.run vs).slept.map Prod.fst = s.slept.map Prod.fst ++ unstopped vs := by
  induction vs generalizing s with
  | nil => simp [run, unstopped]
  | cons v vs ih =>
    rw [run]
    rcases hstop : v.stop with _ | _
    · rw [if_neg Bool.false_ne_true, ih, slept_round]
      simp [unstopped, hstop]
    · simp [slept_attempt, unstopped, hstop]

/-- A run that goes on after a first attempt. -/
theorem Due.backsOff_run_iff (h : s.Due) (hslept : s.slept ≠ []) (vs : List Visit) :
    BacksOff (s.run vs).slept ↔
      BacksOff s.slept ∧ ∀ a ∈ unstopped vs, ¬ (a.Delivers ∧ a.Fails) := by
  induction vs generalizing s with
  | nil => simp [run, unstopped]
  | cons v vs ih =>
    rw [run]
    rcases hstop : v.stop with _ | _
    · have hround : ((s.attempt v).sleep v.attempt).slept ≠ [] := by simp [slept_round]
      rw [if_neg Bool.false_ne_true, ih (h.round v) hround, h.backsOff_round_iff]
      simp [unstopped, hstop, hslept, and_assoc]
    · simp [slept_attempt, unstopped, hstop]

/-- **The backoff is reset by a working stream**, in a run of any attempts, exactly when no attempt
after the first delivers a frame and then ends by an exception. -/
theorem backs_off_iff (vs : List Visit) :
    (run {} vs).slept.map Prod.fst = unstopped vs ∧
      (BacksOff (run {} vs).slept ↔
        ∀ a ∈ (unstopped vs).tail, ¬ (a.Delivers ∧ a.Fails)) := by
  refine ⟨slept_run vs, ?_⟩
  rcases vs with _ | ⟨v, vs⟩
  · simp [run, unstopped, BacksOff, along_nil]
  rw [run]
  rcases hstop : v.stop with _ | _
  · have hround : ((({} : Reconnecting).attempt v).sleep v.attempt).slept ≠ [] := by
      simp [slept_round]
    rw [if_neg Bool.false_ne_true, (due_initial.round v).backsOff_run_iff hround,
      due_initial.backsOff_round_iff]
    simp [unstopped, hstop, BacksOff, along_nil]
  · simp [slept_attempt, unstopped, hstop, BacksOff, along_nil]

/-- The camera is down, and then streams a frame before the connection times out. -/
def timedOut : List Visit :=
  [⟨.refused "OSError: down", false⟩,
    ⟨.streamed [[255, 216, 255, 217]] (some "TimeoutError: "), false⟩]

/-- The source waits two seconds then, and not one. -/
theorem not_backs_off_timedOut : ¬ BacksOff (run {} timedOut).slept := by decide

end Reconnecting

end MjpegSource

end FlashforgeObico
