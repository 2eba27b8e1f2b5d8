import FlashforgeObico.Foundations.Transition
import Mathlib.Order.Basic

/-!
# Stopping a camera source

The reader thread of a `MjpegSource` and `stop`. `stop` sets `_stop`, takes the tracked stream out
of `_stream` and hangs up on it. A stream that the opener returns after that is tracked all the
same, and the reader reads from it although nobody is going to hang up. `TakesClear` excludes such
streams, and `stop_hangs_up` says that in the runs without them every stream is shut down or
released once `stop` has returned.
-/

namespace FlashforgeObico

open Transition

/-- The place of the reader thread. Streams are numbered in the order in which they were opened, and
`failed` says whether an exception is on its way to `_run`. -/
inductive ReaderPlace
  /-- It tests `_stop` at the head of the loop of `_run`. -/
  | looping
  | opening
  /-- The opener has returned a stream. -/
  | opened (n : ℕ)
  /-- In a blocking read, for the next frame. -/
  | reading (n : ℕ)
  | storing (n : ℕ)
  /-- It tests `_stop` after a frame. -/
  | testing (n : ℕ)
  | closing (n : ℕ) (failed : Bool)
  | untracking (failed : Bool)
  /-- It tests `_stop` in the handler of the exception. -/
  | handling
  /-- It tests `_stop` before it sleeps. -/
  | pausing
  | sleeping
  | ended
  deriving DecidableEq

namespace ReaderPlace

/-- The stream that the reader has tracked and not yet closed. -/
def tracked? : ReaderPlace → Option ℕ
  | reading n | storing n | testing n | closing n _ => some n
  | _ => none

/-- The stream that the reader has and has not yet closed. -/
def stream? : ReaderPlace → Option ℕ
  | opened n => some n
  | r => r.tracked?

theorem tracked?_of_stream? {r : ReaderPlace} {n : ℕ} (h : r.stream? = some n) (hr : r ≠ opened n) :
    r.tracked? = some n := by
  cases r with
  | opened m => exact absurd (congrArg opened (Option.some.inj h)) hr
  | _ => exact h

end ReaderPlace

/-- The place of the thread that calls `stop`, perhaps several times. -/
inductive StopPlace
  | idle
  /-- It has set `_stop`. -/
  | taking
  /-- It has taken what was in `_stream`. -/
  | hangingUp (stream : Option ℕ)
  deriving DecidableEq

/-- A source with its two threads: how many streams were opened, which of them were shut down and
which were released by the reader, and whether a `stop` has returned. -/
structure MjpegSource where
  stop : Bool := false
  /-- `_stream`. -/
  stream : Option ℕ := none
  reader : ReaderPlace := .looping
  stopper : StopPlace := .idle
  openedCount : ℕ := 0
  shut : List ℕ := []
  released : List ℕ := []
  stopped : Bool := false
  deriving DecidableEq

/-- The steps of the reader, and those of `stop`. -/
inductive SourceMove
  | testLoop
  | openStream
  | openFails
  | track
  | frame
  | endOfStream
  | readFails
  | store
  | testFrame
  | close
  | untrack
  | handle
  | testPause
  | wake
  | setStop
  | take
  | hangUp
  deriving DecidableEq

namespace MjpegSource

/-- What a move does; `none` when its thread is elsewhere. -/
def step (s : MjpegSource) : SourceMove → Option MjpegSource
  | .testLoop =>
    if s.reader = .looping then some { s with reader := if s.stop then .ended else .opening }
    else none
  | .openStream =>
    if s.reader = .opening then
      some { s with reader := .opened s.openedCount, openedCount := s.openedCount + 1 }
    else none
  | .openFails => if s.reader = .opening then some { s with reader := .handling } else none
  | .track =>
    match s.reader with
    | .opened n => some { s with reader := .reading n, stream := some n }
    | _ => none
  | .frame =>
    match s.reader with
    | .reading n => some { s with reader := .storing n }
    | _ => none
  | .endOfStream =>
    match s.reader with
    | .reading n => some { s with reader := .closing n false }
    | _ => none
  | .readFails =>
    match s.reader with
    | .reading n => some { s with reader := .closing n true }
    | _ => none
  | .store =>
    match s.reader with
    | .storing n => some { s with reader := .testing n }
    | _ => none
  | .testFrame =>
    match s.reader with
    | .testing n => some { s with reader := if s.stop then .closing n false else .reading n }
    | _ => none
  | .close =>
    match s.reader with
    | .closing n failed =>
      some { s with reader := .untracking failed, released := s.released ++ [n] }
    | _ => none
  | .untrack =>
    match s.reader with
    | .untracking failed =>
      some { s with reader := if failed then .handling else .pausing, stream := none }
    | _ => none
  | .handle =>
    if s.reader = .handling then some { s with reader := if s.stop then .ended else .pausing }
    else none
  | .testPause =>
    if s.reader = .pausing then some { s with reader := if s.stop then .ended else .sleeping }
    else none
  | .wake => if s.reader = .sleeping then some { s with reader := .looping } else none
  | .setStop =>
    if s.stopper = .idle then some { s with stop := true, stopper := .taking } else none
  | .take =>
    if s.stopper = .taking then
      some { s with stream := none, stopper := .hangingUp s.stream }
    else none
  | .hangUp =>
    match s.stopper with
    | .hangingUp stream =>
      some { s with stopper := .idle, shut := s.shut ++ stream.toList, stopped := true }
    | _ => none

/-- Once a `stop` has returned, the reader reads from no stream that was not shut down, and every
stream that was opened is shut down or released. -/
def HangsUp (s : MjpegSource) : Prop :=
  s.stopped = true → (∀ n, s.reader = .reading n → n ∈ s.shut) ∧
    ∀ n < s.openedCount, n ∈ s.shut ∨ n ∈ s.released

/-- A `stop` has taken what was in `_stream`. -/
def HasTaken (s : MjpegSource) : Prop := s.stopped = true ∨ ∃ stream, s.stopper = .hangingUp stream

/-- `stop` takes what is in `_stream` neither between the return of the opener and the tracking of
the stream, nor before the opener returns a stream. -/
def TakesClear (s : MjpegSource) : SourceMove → Prop
  | .take => ∀ n, s.reader ≠ .opened n
  | .openStream => ¬ s.HasTaken
  | _ => True

/-- The invariant of the runs in which `stop` takes the streams in time. -/
structure Released (s : MjpegSource) : Prop where
  older : ∀ n < s.openedCount, n ∈ s.released ∨ s.reader.stream? = some n
  tracked : ∀ n, s.reader.tracked? = some n →
    s.stream = some n ∨ s.stopper = .hangingUp (some n) ∨ n ∈ s.shut
  taken : s.HasTaken → s.stream = none ∧ ∀ n, s.reader ≠ .opened n
  again : s.stopped = true → ∀ n, s.stopper ≠ .hangingUp (some n)

theorem released_initial : Released {} := by
  constructor <;> simp [HasTaken, ReaderPlace.tracked?]

theorem Released.hangsUp {s : MjpegSource} (h : s.Released) : s.HangsUp := by
  intro hstopped
  obtain ⟨hnone, hopened⟩ := h.taken (.inl hstopped)
  have hshut : ∀ n, s.reader.tracked? = some n → n ∈ s.shut := by
    intro n hn
    rcases h.tracked n hn with hstream | htaking | hshut
    · simp [hnone] at hstream
    · exact absurd htaking (h.again hstopped n)
    · exact hshut
  refine ⟨fun n hn => hshut n (by simp [hn, ReaderPlace.tracked?]), fun n hn => ?_⟩
  rcases h.older n hn with hreleased | hstream
  · exact .inr hreleased
  · exact .inl (hshut n (ReaderPlace.tracked?_of_stream? hstream (hopened n)))

/-- The reader moves on with the stream that it has. -/
theorem Released.move {s : MjpegSource} (h : s.Released) {r : ReaderPlace}
    (hstream : r.stream? = s.reader.stream?) (htracked : r.tracked? = s.reader.tracked?)
    (hopened : ∀ n, r ≠ .opened n) : Released { s with reader := r } :=
  ⟨fun n hn => hstream ▸ h.older n hn, fun n hn => h.tracked n (htracked ▸ hn),
    fun htaken => ⟨(h.taken htaken).1, hopened⟩, h.again⟩

theorem Released.step {s t : MjpegSource} {m : SourceMove} (h : s.Released) (hm : s.step m = some t)
    (hok : s.TakesClear m) : t.Released := by
  cases m with
  | openStream =>
    obtain ⟨hr, rfl⟩ : s.reader = .opening ∧
        { s with reader := .opened s.openedCount, openedCount := s.openedCount + 1 } = t := by
      grind [MjpegSource.step]
    refine ⟨fun n hn => ?_, by simp [ReaderPlace.tracked?],
      fun htaken => absurd htaken hok, h.again⟩
    rcases Nat.lt_succ_iff_lt_or_eq.mp hn with hn | rfl
    · exact .inl ((h.older n hn).resolve_right (by simp [hr, ReaderPlace.stream?,
        ReaderPlace.tracked?]))
    · exact .inr rfl
  | track =>
    obtain ⟨n, hr, rfl⟩ : ∃ n, s.reader = .opened n ∧
        { s with reader := .reading n, stream := some n } = t := by
      grind [MjpegSource.step]
    refine ⟨fun m hm => ?_, fun m hm => .inl hm, fun htaken => ?_, h.again⟩
    · simpa [hr, ReaderPlace.stream?, ReaderPlace.tracked?] using h.older m hm
    · exact absurd hr ((h.taken htaken).2 n)
  | close =>
    obtain ⟨n, failed, hr, rfl⟩ : ∃ n failed, s.reader = .closing n failed ∧
        { s with reader := .untracking failed, released := s.released ++ [n] } = t := by
      grind [MjpegSource.step]
    refine ⟨fun m hm => .inl ?_, by simp [ReaderPlace.tracked?],
      fun htaken => ⟨(h.taken htaken).1, by simp⟩, h.again⟩
    rcases h.older m hm with hreleased | hstream
    · exact List.mem_append_left _ hreleased
    · rw [hr] at hstream
      cases hstream
      exact List.mem_append_right _ List.mem_cons_self
  | untrack =>
    obtain ⟨failed, hr, rfl⟩ : ∃ failed, s.reader = .untracking failed ∧
        { s with reader := if failed then .handling else .pausing, stream := none } = t := by
      grind [MjpegSource.step]
    refine ⟨fun n hn => .inl ?_, fun n hn => ?_, fun htaken => ⟨rfl, fun n hn => ?_⟩, h.again⟩
    · exact (h.older n hn).resolve_right (by simp [hr, ReaderPlace.stream?, ReaderPlace.tracked?])
    · cases failed <;> cases hn
    · cases failed <;> cases hn
  | setStop =>
    obtain ⟨hs, rfl⟩ : s.stopper = .idle ∧ { s with stop := true, stopper := .taking } = t := by
      grind [MjpegSource.step]
    refine ⟨h.older, fun n hn => ?_, fun htaken => h.taken ?_, by simp⟩
    · simpa [hs] using h.tracked n hn
    · simpa [HasTaken, hs] using htaken
  | take =>
    obtain ⟨hs, rfl⟩ : s.stopper = .taking ∧
        { s with stream := none, stopper := .hangingUp s.stream } = t := by
      grind [MjpegSource.step]
    refine ⟨h.older, fun n hn => ?_, fun _ => ⟨rfl, hok⟩, fun hstopped n hn => ?_⟩
    · simpa [hs] using h.tracked n hn
    · have hnone := (h.taken (.inl hstopped)).1
      simp [hnone] at hn
  | hangUp =>
    obtain ⟨stream, hs, rfl⟩ : ∃ stream, s.stopper = .hangingUp stream ∧
        { s with stopper := .idle, shut := s.shut ++ stream.toList, stopped := true } = t := by
      grind [MjpegSource.step]
    refine ⟨h.older, fun n hn => ?_, fun _ => h.taken (.inr ⟨stream, hs⟩), by simp⟩
    rcases h.tracked n hn with hstream | hstream | hshut
    · exact .inl hstream
    · obtain rfl := StopPlace.hangingUp.inj (hs.symm.trans hstream)
      exact .inr (.inr (by simp))
    · exact .inr (.inr (List.mem_append_left _ hshut))
  | testLoop | openFails | frame | endOfStream | readFails | store | testFrame | handle | testPause
  | wake =>
    obtain ⟨r, rfl, hstream, htracked, hopened⟩ : ∃ r, { s with reader := r } = t ∧
        r.stream? = s.reader.stream? ∧ r.tracked? = s.reader.tracked? ∧ ∀ n, r ≠ .opened n := by
      grind [MjpegSource.step, ReaderPlace.stream?, ReaderPlace.tracked?]
    exact h.move hstream htracked hopened

/-- **A stop hangs up**, in every run in which `stop` takes the stream neither while the reader has
one that it has not tracked, nor before the opener returns one. -/
theorem stop_hangs_up {ms : List SourceMove} {s : MjpegSource}
    (h : Run (restrict TakesClear (ofPartial step)) {} ms s) : s.HangsUp := by
  have hreleased : s.Released := by
    refine h.invariant released_initial fun s m t hs hstep => ?_
    exact hs.step hstep.2 hstep.1
  exact hreleased.hangsUp

/-- A whole `stop`. -/
def stopMoves : List SourceMove := [.setStop, .take, .hangUp]

/-- The source is stopped while the reader is in a blocking read. -/
def stoppedReading : List SourceMove := [.testLoop, .openStream, .track] ++ stopMoves

theorem stop_while_reading :
    ∃ s ∈ stoppedReading.foldlM step {}, s.reader = .reading 0 ∧ 0 ∈ s.shut := by
  have hstop : Run (restrict TakesClear (ofPartial step))
      { stream := some 0, reader := .reading 0, openedCount := 1 } stopMoves
      { stop := true, reader := .reading 0, openedCount := 1, shut := [0], stopped := true } :=
    .cons ⟨trivial, rfl⟩ (.cons ⟨by simp [TakesClear], rfl⟩ (.cons ⟨trivial, rfl⟩ .nil))
  have hrun : Run (restrict TakesClear (ofPartial step)) {} stoppedReading _ :=
    .cons ⟨trivial, rfl⟩ (.cons ⟨by simp [TakesClear, HasTaken], rfl⟩ (.cons ⟨trivial, rfl⟩ hstop))
  exact ⟨_, rfl, rfl, (stop_hangs_up hrun rfl).1 0 rfl⟩

/-- The source is stopped while the opener connects. -/
def stoppedOpening : List SourceMove := [.testLoop] ++ stopMoves ++ [.openStream, .track]

theorem stop_while_opening : ∃ s ∈ stoppedOpening.foldlM step {}, ¬ s.HangsUp := by
  refine ⟨_, rfl, fun h => ?_⟩
  have hshut := (h rfl).1 0 rfl
  simp at hshut

end MjpegSource

end FlashforgeObico
