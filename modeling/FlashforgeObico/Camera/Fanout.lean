import FlashforgeObico.Camera.Relay

/-!
# Any number of viewers

`CameraReserver` serves each request for a stream on a thread of its own, and all of them read the
frames of the one `MjpegSource`. Here a source, the clock, `_stopping` and any number of such
threads are one system, in which viewers come at any time. `viewers_are_relayed` says that each of
them gets what it would get without the others, `ends_for_a_reason` when a stream ends, and
`stopped_streams_end` and `stalled_streams_end` that they do end if their clients read what is
written or go away.
-/

namespace FlashforgeObico

open Py Transition

/-- The thread of a request for the stream: its place in `_stream`, when it began to wait, and what
it has written, as in `Relay`. -/
structure Viewer where
  place : StreamPlace := .looping
  since : ℚ := 0
  last : ℚ := 0
  written : Bytes := []
  delivered : List Stored := []
  deriving DecidableEq

/-- A step of the thread of a request: it tests `_stopping`, returns from `wait_for_new_frame` with
a frame or without one, returns from `wfile.write` when its client has taken the part, or breaks off
after some bytes of it when its client is gone. Which of the last two comes, and when, is up to the
client. -/
inductive ViewerMove
  | test
  | newFrame
  | timeout
  | write
  | breakOff (sent : ℕ)
  deriving DecidableEq

/-- The same, as a step of a relay. -/
def ViewerMove.relay : ViewerMove → RelayMove
  | .test => .test
  | .newFrame => .newFrame
  | .timeout => .timeout
  | .write => .write
  | .breakOff sent => .breakOff sent

/-- A source, `_stopping`, and the threads of all requests for the stream, in their order. -/
structure Fanout where
  /-- What the clock shows. -/
  now : ℚ := 0
  stores : List Stored := []
  latest : Option Stored := none
  stopping : Bool := false
  viewers : List Viewer := []
  deriving DecidableEq

/-- What can happen: time passes, the source stores a frame, `stop` sets `_stopping`, a request for
the stream comes in, and the threads of the requests take steps. -/
inductive FanoutMove
  | tick (now : ℚ)
  | store (jpeg : Bytes)
  | stop
  | connect
  | viewer (n : ℕ) (m : ViewerMove)
  deriving DecidableEq

namespace Fanout

/-- `self._latest is not None and self._latest[1] > after`: the frame. -/
def newFrame? (s : Fanout) (after : ℚ) : Option Stored :=
  s.latest.filter fun frame => after < frame.arrived

/-- A step of the thread of a request, when it is possible. It waits for `staleAfter` seconds. -/
def viewerStep (staleAfter : ℚ) (s : Fanout) (v : Viewer) : ViewerMove → Option Viewer
  | .test =>
    if v.place = .looping then
      some { v with place := if s.stopping then .ended else .waiting, since := s.now }
    else none
  | .newFrame =>
    if v.place = .waiting then
      (s.newFrame? v.last).map fun frame =>
        { v with place := .writing frame, last := frame.arrived }
    else none
  | .timeout =>
    if v.place = .waiting ∧ s.newFrame? v.last = none ∧ v.since + staleAfter ≤ s.now then
      some { v with place := .ended }
    else none
  | .write =>
    match v.place with
    | .writing frame => some { v with
        place := .looping
        written := v.written ++ framePart frame.jpeg
        delivered := v.delivered ++ [frame] }
    | _ => none
  | .breakOff sent =>
    match v.place with
    | .writing frame => some { v with
        place := .ended
        written := v.written ++ (framePart frame.jpeg).take sent
        delivered := v.delivered ++ [frame] }
    | _ => none

/-- What a move does, when it is possible. -/
def step (staleAfter : ℚ) (s : Fanout) : FanoutMove → Option Fanout
  | .tick now => if s.now ≤ now then some { s with now } else none
  | .store jpeg =>
    let frame := ⟨s.stores.length, jpeg, s.now⟩
    some { s with latest := some frame, stores := s.stores ++ [frame] }
  | .stop => some { s with stopping := true }
  | .connect => some { s with viewers := s.viewers ++ [{}] }
  | .viewer n m => do
    let v ← s.viewers[n]?
    let v ← s.viewerStep staleAfter v m
    some { s with viewers := s.viewers.set n v }

/-- The source and one viewer. -/
def relay (s : Fanout) (v : Viewer) : Relay where
  stores := s.stores
  latest := s.latest
  stopping := s.stopping
  place := v.place
  last := v.last
  written := v.written
  delivered := v.delivered

/-- The `n`-th viewer; before it has come, it is as it is then. -/
def viewer (s : Fanout) (n : ℕ) : Viewer := (s.viewers[n]?).getD {}

variable {staleAfter : ℚ} {s t : Fanout} {m : FanoutMove} {ms : List FanoutMove} {n : ℕ}
  {v v' : Viewer} {a : ViewerMove}

/-- What a step of a viewer does. -/
inductive Stepped (staleAfter : ℚ) (s : Fanout) (v : Viewer) : ViewerMove → Viewer → Prop
  | stops (hplace : v.place = .looping) (hstop : s.stopping = true) :
    Stepped staleAfter s v .test { v with place := .ended, since := s.now }
  | waits (hplace : v.place = .looping) (hstop : s.stopping = false) :
    Stepped staleAfter s v .test { v with place := .waiting, since := s.now }
  | newFrame {frame : Stored} (hplace : v.place = .waiting)
    (hframe : s.newFrame? v.last = some frame) :
    Stepped staleAfter s v .newFrame { v with place := .writing frame, last := frame.arrived }
  | timeout (hplace : v.place = .waiting) (hframe : s.newFrame? v.last = none)
    (hstale : v.since + staleAfter ≤ s.now) :
    Stepped staleAfter s v .timeout { v with place := .ended }
  | write {frame : Stored} (hplace : v.place = .writing frame) :
    Stepped staleAfter s v .write { v with
      place := .looping
      written := v.written ++ framePart frame.jpeg
      delivered := v.delivered ++ [frame] }
  | breakOff {frame : Stored} {sent : ℕ} (hplace : v.place = .writing frame) :
    Stepped staleAfter s v (.breakOff sent) { v with
      place := .ended
      written := v.written ++ (framePart frame.jpeg).take sent
      delivered := v.delivered ++ [frame] }

theorem stepped (h : s.viewerStep staleAfter v a = some v') : Stepped staleAfter s v a v' := by
  cases a with
  | test =>
    obtain ⟨hplace, h⟩ := Option.ite_none_right_eq_some.mp h
    obtain rfl := Option.some.inj h
    cases hstop : s.stopping with
    | true => exact .stops hplace hstop
    | false => exact .waits hplace hstop
  | newFrame =>
    obtain ⟨hplace, h⟩ := Option.ite_none_right_eq_some.mp h
    obtain ⟨frame, hframe, rfl⟩ := Option.map_eq_some_iff.mp h
    exact .newFrame hplace hframe
  | timeout =>
    obtain ⟨⟨hplace, hframe, hstale⟩, h⟩ := Option.ite_none_right_eq_some.mp h
    obtain rfl := Option.some.inj h
    exact .timeout hplace hframe hstale
  | write =>
    rw [viewerStep] at h
    split at h
    · obtain rfl := Option.some.inj h
      exact .write ‹_›
    · cases h
  | breakOff sent =>
    rw [viewerStep] at h
    split at h
    · obtain rfl := Option.some.inj h
      exact .breakOff ‹_›
    · cases h

/-- A step of a viewer is a step of the relay that it is with the source. -/
theorem relay_step (h : s.viewerStep staleAfter v a = some v') :
    (s.relay v).step a.relay = some (s.relay v') := by
  cases stepped h with
  | stops hplace hstop => simp [relay, Relay.step, ViewerMove.relay, hplace, hstop]
  | waits hplace hstop => simp [relay, Relay.step, ViewerMove.relay, hplace, hstop]
  | newFrame hplace hframe =>
    have hnew : (s.relay v).newFrame? = some _ := hframe
    have hwaiting : (s.relay v).place = .waiting := hplace
    rw [ViewerMove.relay, Relay.step, if_pos hwaiting, hnew]
    rfl
  | timeout hplace hframe =>
    have hnew : (s.relay v).place = .waiting ∧ (s.relay v).newFrame? = none := ⟨hplace, hframe⟩
    rw [ViewerMove.relay, Relay.step, if_pos hnew]
    rfl
  | write hplace => simp [relay, Relay.step, ViewerMove.relay, hplace]
  | breakOff hplace => simp [relay, Relay.step, ViewerMove.relay, hplace]

/-! ## Each viewer by itself -/

theorem viewer_of_getElem? (h : s.viewers[n]? = some v) : s.viewer n = v := by
  rw [viewer, h, Option.getD_some]

theorem viewer_connect :
    ({ s with viewers := s.viewers ++ [{}] } : Fanout).viewer n = s.viewer n := by
  rw [viewer, viewer, List.getElem?_append]
  split_ifs with hn
  · rfl
  · rw [List.getElem?_eq_none (not_lt.mp hn)]
    cases n - s.viewers.length <;> rfl

theorem viewer_set (h : s.viewers[n]? = some v) (k : ℕ) :
    ({ s with viewers := s.viewers.set n v' } : Fanout).viewer k =
      if k = n then v' else s.viewer k := by
  obtain ⟨hn, -⟩ := List.getElem?_eq_some_iff.mp h
  rw [viewer, viewer, List.getElem?_set]
  split_ifs with hkn hnk hnk
  · rfl
  · exact absurd hkn.symm hnk
  · exact absurd hnk.symm hkn
  · rfl

/-- The steps of a viewer. -/
def movesOf (n : ℕ) : FanoutMove → Bool
  | .viewer k _ => k = n
  | _ => false

theorem step_viewer (h : s.step staleAfter (.viewer n a) = some t) :
    ∃ v v', s.viewers[n]? = some v ∧ s.viewerStep staleAfter v a = some v' ∧
      t = { s with viewers := s.viewers.set n v' } := by
  obtain ⟨v, hv, h⟩ := Option.bind_eq_some_iff.mp h
  obtain ⟨v', hv', h⟩ := Option.bind_eq_some_iff.mp h
  exact ⟨v, v', hv, hv', (Option.some.inj h).symm⟩

/-- A step of a viewer is a step of it, and of nothing else. -/
theorem own_step (h : s.step staleAfter (.viewer n a) = some t) :
    s.viewerStep staleAfter (s.viewer n) a = some (t.viewer n) ∧
      ∃ vs, t = { s with viewers := vs } := by
  obtain ⟨v, v', hv, hstep, rfl⟩ := step_viewer h
  rw [viewer_set hv, if_pos rfl, viewer_of_getElem? hv]
  exact ⟨hstep, _, rfl⟩

/-- Another step leaves a viewer as it is. -/
theorem other_step (h : s.step staleAfter m = some t) (hm : movesOf n m = false) :
    t.viewer n = s.viewer n := by
  cases m with
  | tick now =>
    obtain ⟨-, h⟩ := Option.ite_none_right_eq_some.mp h
    obtain rfl := Option.some.inj h
    rfl
  | store | stop =>
    obtain rfl := Option.some.inj h
    rfl
  | connect =>
    obtain rfl := Option.some.inj h
    exact viewer_connect
  | viewer k a =>
    obtain ⟨v, v', hv, -, rfl⟩ := step_viewer h
    have hnk : n ≠ k := fun hnk => of_decide_eq_false hm hnk.symm
    rw [viewer_set hv, if_neg hnk]

/-- A step is a step of the relay of a viewer and the source, or none. -/
theorem relay_viewer_step (h : s.step staleAfter m = some t) (n : ℕ) :
    t.relay (t.viewer n) = s.relay (s.viewer n) ∨
      ∃ l, (s.relay (s.viewer n)).step l = some (t.relay (t.viewer n)) := by
  rcases hn : movesOf n m with _ | _
  · rw [other_step h hn]
    cases m with
    | tick now =>
      obtain ⟨-, h⟩ := Option.ite_none_right_eq_some.mp h
      obtain rfl := Option.some.inj h
      exact .inl rfl
    | store jpeg =>
      obtain rfl := Option.some.inj h
      exact .inr ⟨.store jpeg s.now, rfl⟩
    | stop =>
      obtain rfl := Option.some.inj h
      exact .inr ⟨.stop, rfl⟩
    | connect =>
      obtain rfl := Option.some.inj h
      exact .inl rfl
    | viewer k a =>
      obtain ⟨-, -, -, -, rfl⟩ := step_viewer h
      exact .inl rfl
  · cases m with
    | viewer k a =>
      obtain rfl : k = n := of_decide_eq_true hn
      obtain ⟨hstep, vs, hvs⟩ := own_step h
      refine .inr ⟨a.relay, (relay_step hstep).trans ?_⟩
      rw [hvs]
      rfl
    | _ => cases hn

theorem faithful_of_run (h : Run (ofPartial (step staleAfter)) {} ms s) (n : ℕ) :
    (s.relay (s.viewer n)).Faithful := by
  obtain ⟨ls, hrun⟩ : ∃ ls, Run (ofPartial Relay.step) {} ls (s.relay (s.viewer n)) :=
    h.project (f := fun s : Fanout => s.relay (s.viewer n)) fun _ _ _ hm => relay_viewer_step hm n
  exact hrun.invariant Relay.faithful_initial fun _ _ _ hs hm => hs.step hm

/-- The moves but those of the other viewers. -/
def concerns (n : ℕ) : FanoutMove → Bool
  | .viewer k _ => k = n
  | _ => true

/-- Two states that are the same for a viewer. -/
def SameFor (n : ℕ) (s t : Fanout) : Prop :=
  ∃ vs, t = { s with viewers := vs } ∧ vs.length = s.viewers.length ∧ vs[n]? = s.viewers[n]?

theorem viewerStep_viewers (vs : List Viewer) (v : Viewer) (a : ViewerMove) :
    ({ s with viewers := vs } : Fanout).viewerStep staleAfter v a =
      s.viewerStep staleAfter v a := by
  cases a <;> rfl

theorem SameFor.step {s' : Fanout} (h : SameFor n s s') (hm : s.step staleAfter m = some t)
    (hn : concerns n m = true) : ∃ t', s'.step staleAfter m = some t' ∧ SameFor n t t' := by
  obtain ⟨vs, rfl, hlength, hget⟩ := h
  cases m with
  | tick now =>
    obtain ⟨hnow, hm⟩ := Option.ite_none_right_eq_some.mp hm
    obtain rfl := Option.some.inj hm
    exact ⟨_, if_pos hnow, vs, rfl, hlength, hget⟩
  | store jpeg =>
    obtain rfl := Option.some.inj hm
    exact ⟨_, rfl, vs, rfl, hlength, hget⟩
  | stop =>
    obtain rfl := Option.some.inj hm
    exact ⟨_, rfl, vs, rfl, hlength, hget⟩
  | connect =>
    obtain rfl := Option.some.inj hm
    refine ⟨_, rfl, vs ++ [({} : Viewer)], rfl, ?_, ?_⟩
    · rw [List.length_append, List.length_append, hlength]
    · rw [List.getElem?_append, List.getElem?_append, hlength, hget]
  | viewer k a =>
    obtain rfl : k = n := of_decide_eq_true hn
    obtain ⟨v, v', hv, hstep, rfl⟩ := step_viewer hm
    refine ⟨{ s with viewers := vs.set k v' }, ?_, vs.set k v', rfl, ?_, ?_⟩
    · simp [Fanout.step, hget, hv, viewerStep_viewers, hstep]
    · rw [List.length_set, List.length_set, hlength]
    · rw [List.getElem?_set, List.getElem?_set, hlength, hget]

theorem SameFor.other {s' : Fanout} (h : SameFor n s s') (hm : s.step staleAfter m = some t)
    (hn : concerns n m = false) : SameFor n t s' := by
  obtain ⟨vs, rfl, hlength, hget⟩ := h
  cases m with
  | viewer k a =>
    have hkn : k ≠ n := of_decide_eq_false hn
    obtain ⟨v, v', hv, hstep, rfl⟩ := step_viewer hm
    refine ⟨vs, rfl, ?_, ?_⟩
    · rw [List.length_set, hlength]
    · rw [List.getElem?_set_ne hkn, hget]
  | _ => cases hn

/-- **Viewers.** In every interleaving of a source and any number of viewers, what a viewer gets is
what it would get in the same run without the steps of the others; and wherever its stream is cut,
the parser yields the frames that it has received in full, which are stores in their order. -/
theorem viewers_are_relayed (hrun : Run (ofPartial (step staleAfter)) {} ms s)
    (hmax : ∀ frame ∈ s.stores, frame.jpeg.length ≤ maxFrameBytes) (n : ℕ)
    {received : Bytes} (hreceived : received <+: (s.viewer n).written) :
    (∃ t, Run (ofPartial (step staleAfter)) {} (ms.filter (concerns n)) t ∧
        t.stores = s.stores ∧ t.viewer n = s.viewer n) ∧
      iterMjpegFrames received =
        { frames := receivedInFull ((s.viewer n).delivered.map Stored.jpeg) received.length } ∧
      (s.viewer n).delivered.Sublist s.stores ∧
      s.stores.map Stored.number = List.range s.stores.length := by
  have hfaithful := faithful_of_run hrun n
  have hsub : (s.viewer n).delivered.Sublist s.stores :=
    (Relay.delivered_sublist_taken _).trans hfaithful.taken
  refine ⟨?_, iterFrames_received rfl ?_ (hreceived.trans hfaithful.written), hsub,
    hfaithful.numbers⟩
  · obtain ⟨t, ht, vs, rfl, -, hget⟩ := hrun.filter (R := SameFor n) (p := concerns n)
      ⟨[], rfl, rfl, rfl⟩ (fun _ _ _ _ h hm hn => h.step hm hn) fun _ _ _ _ h hm hn => h.other hm hn
    exact ⟨_, ht, rfl, congrArg (Option.getD · ({} : Viewer)) hget⟩
  · intro jpeg hjpeg
    obtain ⟨frame, hframe, rfl⟩ := List.mem_map.mp hjpeg
    exact hmax frame (hsub.subset hframe)

/-- Two viewers: one gets a frame, and is gone while it is sent the next one; the other one comes
later, gets that, and waits until the camera is stale. -/
def twoViewers : List FanoutMove :=
  [.connect, .tick 1, .store [0xFF], .viewer 0 .test, .viewer 0 .newFrame, .connect,
    .viewer 1 .test, .viewer 0 .write, .tick 2, .store [0xD8], .viewer 1 .newFrame, .viewer 0 .test,
    .viewer 0 .newFrame, .viewer 1 .write, .viewer 0 (.breakOff 9), .viewer 1 .test, .tick 20,
    .viewer 1 .timeout]

theorem two_viewers_are_relayed :
    ∃ s ∈ twoViewers.foldlM (step 15) {}, (iterMjpegFrames (s.viewer 0).written).frames = [[0xFF]] ∧
      ∃ t ∈ (twoViewers.filter (concerns 0)).foldlM (step 15) {}, t.viewer 0 = s.viewer 0 := by
  have heval : (twoViewers.foldlM (step 15) {}).map (fun s : Fanout =>
      (decide (∀ frame ∈ s.stores, frame.jpeg.length ≤ maxFrameBytes),
        receivedInFull ((s.viewer 0).delivered.map Stored.jpeg) (s.viewer 0).written.length)) =
      some (true, [[0xFF]]) := by
    decide +kernel
  obtain ⟨s, hs, heval⟩ := Option.map_eq_some_iff.mp heval
  obtain ⟨hstores, hframes⟩ := Prod.mk.inj heval
  obtain ⟨⟨t, ht, -, htwo⟩, hparsed, -, -⟩ :=
    viewers_are_relayed (run_ofPartial.mpr hs) (of_decide_eq_true hstores) 0 (List.prefix_refl _)
  exact ⟨s, hs, (congrArg Parsed.frames hparsed).trans hframes, t, run_ofPartial.mp ht, htwo⟩

/-! ## The end of a stream -/

/-- No frame, or none that is newer than `staleAfter` seconds. -/
def Stale (staleAfter : ℚ) (s : Fanout) : Prop :=
  ∀ frame ∈ s.stores, frame.arrived + staleAfter ≤ s.now

/-- The invariant: the newest frame is the last store, and a viewer has its last frame from before
it began to wait. -/
structure Timed (s : Fanout) : Prop where
  clock : 0 ≤ s.now
  latest : s.latest = s.stores.getLast?
  stores : s.stores.Pairwise fun frame frame' => frame.arrived ≤ frame'.arrived
  arrived : ∀ frame ∈ s.stores, frame.arrived ≤ s.now
  last : ∀ v ∈ s.viewers, v.last ≤ s.now
  since : ∀ v ∈ s.viewers, v.place = .waiting → v.last ≤ v.since

theorem timed_initial : Timed {} := by
  constructor <;> simp

theorem Timed.latest_mem (h : s.Timed) {frame : Stored} (hframe : s.latest = some frame) :
    frame ∈ s.stores :=
  List.mem_of_getLast? (h.latest.symm.trans hframe)

/-- The newest frame has arrived last. -/
theorem Timed.arrived_le (h : s.Timed) {frame newest : Stored} (hnewest : s.latest = some newest)
    (hframe : frame ∈ s.stores) : frame.arrived ≤ newest.arrived := by
  obtain ⟨older, holder⟩ := List.getLast?_eq_some_iff.mp (h.latest.symm.trans hnewest)
  have hstores := h.stores
  rw [holder] at hframe hstores
  rcases List.mem_append.mp hframe with hframe | hframe
  · exact (List.pairwise_append.mp hstores).2.2 frame hframe newest List.mem_cons_self
  · rw [List.mem_singleton.mp hframe]

/-- A viewer for which there is no new frame has waited for longer than any frame is old. -/
theorem Timed.stale (h : s.Timed) (hv : v ∈ s.viewers) (hplace : v.place = .waiting)
    (hframe : s.newFrame? v.last = none) (hstale : v.since + staleAfter ≤ s.now) :
    s.Stale staleAfter := by
  intro frame hmem
  obtain ⟨newest, hnewest⟩ : ∃ newest, s.latest = some newest := by
    rw [h.latest, ← Option.isSome_iff_exists, List.getLast?_isSome]
    exact List.ne_nil_of_mem hmem
  have hold : newest.arrived ≤ v.last := by
    rw [newFrame?, hnewest, Option.filter_eq_none_iff] at hframe
    simpa using hframe newest rfl
  calc frame.arrived + staleAfter
    _ ≤ newest.arrived + staleAfter := add_le_add_left (h.arrived_le hnewest hmem) _
    _ ≤ v.since + staleAfter := add_le_add_left (hold.trans (h.since v hv hplace)) _
    _ ≤ s.now := hstale

/-- A step of a viewer. -/
theorem Timed.viewer (h : s.Timed) (hlast : v'.last ≤ s.now)
    (hsince : v'.place = .waiting → v'.last ≤ v'.since) :
    Timed { s with viewers := s.viewers.set n v' } := by
  refine ⟨h.clock, h.latest, h.stores, h.arrived, fun w hw => ?_, fun w hw => ?_⟩
  · rcases List.mem_or_eq_of_mem_set hw with hw | rfl
    · exact h.last w hw
    · exact hlast
  · rcases List.mem_or_eq_of_mem_set hw with hw | rfl
    · exact h.since w hw
    · exact hsince

theorem Timed.step (h : s.Timed) (hm : s.step staleAfter m = some t) : t.Timed := by
  cases m with
  | tick now =>
    obtain ⟨hnow, hm⟩ := Option.ite_none_right_eq_some.mp hm
    obtain rfl := Option.some.inj hm
    exact ⟨h.clock.trans hnow, h.latest, h.stores,
      fun frame hframe => (h.arrived frame hframe).trans hnow,
      fun v hv => (h.last v hv).trans hnow, h.since⟩
  | store jpeg =>
    obtain rfl := Option.some.inj hm
    refine ⟨h.clock, by simp, ?_, ?_, h.last, h.since⟩
    · refine List.pairwise_append.mpr ⟨h.stores, List.pairwise_singleton _ _, ?_⟩
      intro frame hframe frame' hframe'
      rw [List.mem_singleton.mp hframe']
      exact h.arrived frame hframe
    · intro frame hframe
      rcases List.mem_append.mp hframe with hframe | hframe
      · exact h.arrived frame hframe
      · rw [List.mem_singleton.mp hframe]
  | stop =>
    obtain rfl := Option.some.inj hm
    exact ⟨h.clock, h.latest, h.stores, h.arrived, h.last, h.since⟩
  | connect =>
    obtain rfl := Option.some.inj hm
    refine ⟨h.clock, h.latest, h.stores, h.arrived, fun v hv => ?_, fun v hv => ?_⟩
    · rcases List.mem_append.mp hv with hv | hv
      · exact h.last v hv
      · rw [List.mem_singleton.mp hv]
        exact h.clock
    · rcases List.mem_append.mp hv with hv | hv
      · exact h.since v hv
      · rw [List.mem_singleton.mp hv]
        exact fun _ => le_rfl
  | viewer k a =>
    obtain ⟨v, v', hv, hstep, rfl⟩ := step_viewer hm
    have hlast := h.last v (List.mem_of_getElem? hv)
    cases stepped hstep with
    | stops | timeout | write | breakOff => exact h.viewer hlast fun hplace => by cases hplace
    | waits => exact h.viewer hlast fun _ => hlast
    | newFrame hplace hframe =>
      have hlatest := (Option.filter_eq_some_iff.mp hframe).1
      exact h.viewer (h.arrived _ (h.latest_mem hlatest)) fun hplace => by cases hplace

/-- Why the stream of a viewer has ended: `stop`, or its connection, or it has waited in vain, which
it does only for a stale camera. -/
def EndsFor (staleAfter : ℚ) (n : ℕ) (ms : List FanoutMove) (s : Fanout) : Prop :=
  s.stopping = true ∨ (∃ sent, .viewer n (.breakOff sent) ∈ ms) ∨
    ∃ before after u, ms = before ++ .viewer n .timeout :: after ∧
      Run (ofPartial (step staleAfter)) {} before u ∧ u.Stale staleAfter

theorem EndsFor.mono (h : EndsFor staleAfter n ms s) (hstop : s.stopping = true → t.stopping = true)
    (m : FanoutMove) : EndsFor staleAfter n (ms ++ [m]) t := by
  rcases h with hs | ⟨sent, hsent⟩ | ⟨before, after, u, rfl, hrun, hstale⟩
  · exact .inl (hstop hs)
  · exact .inr (.inl ⟨sent, List.mem_append_left _ hsent⟩)
  · exact .inr (.inr ⟨before, after ++ [m], u, by simp, hrun, hstale⟩)

theorem stopping_step (hm : s.step staleAfter m = some t) (hstop : s.stopping = true) :
    t.stopping = true := by
  cases m with
  | tick now =>
    obtain ⟨-, hm⟩ := Option.ite_none_right_eq_some.mp hm
    obtain rfl := Option.some.inj hm
    exact hstop
  | stop =>
    obtain rfl := Option.some.inj hm
    rfl
  | store | connect =>
    obtain rfl := Option.some.inj hm
    exact hstop
  | viewer k a =>
    obtain ⟨v, v', hv, hstep, rfl⟩ := step_viewer hm
    exact hstop

/-- **Why a stream ends.** In every interleaving, the stream of a viewer ends when the server stops,
or the viewer is gone, or when no frame of the camera is less than `stale_after_s` old. -/
theorem ends_for_a_reason (hrun : Run (ofPartial (step staleAfter)) {} ms s)
    (hended : (s.viewer n).place = .ended) : EndsFor staleAfter n ms s := by
  induction hrun with
  | nil => cases hended
  | @snoc ms t m s hrun hm ih =>
    rcases hn : movesOf n m with _ | _
    · rw [other_step hm hn] at hended
      exact (ih hended).mono (stopping_step hm) m
    cases m with
    | viewer k a =>
      obtain rfl : k = n := of_decide_eq_true hn
      obtain ⟨v, v', hv, hstep, rfl⟩ := step_viewer hm
      rw [viewer_set hv, if_pos rfl] at hended
      cases stepped hstep with
      | stops hplace hstop => exact .inl hstop
      | timeout hplace hframe hstale =>
        have htimed : t.Timed :=
          hrun.invariant timed_initial fun _ _ _ hs hm => hs.step hm
        refine .inr (.inr ⟨ms, [], t, rfl, hrun, ?_⟩)
        exact htimed.stale (List.mem_of_getElem? hv) hplace hframe hstale
      | @breakOff frame sent hplace =>
        exact .inr (.inl ⟨sent, List.mem_append_right _ List.mem_cons_self⟩)
      | waits | newFrame | write => cases hended
    | _ => cases hn

theorem second_viewer_ends_for_a_reason :
    ∃ s ∈ twoViewers.foldlM (step 15) {}, EndsFor 15 1 twoViewers s := by
  have heval : (twoViewers.foldlM (step 15) {}).map (fun s : Fanout => (s.viewer 1).place) =
      some .ended := by
    decide +kernel
  obtain ⟨s, hs, hended⟩ := Option.map_eq_some_iff.mp heval
  exact ⟨s, hs, ends_for_a_reason (run_ofPartial.mpr hs) hended⟩

/-! ## Streams end -/

/-- A write of a viewer, of all of a part or of some bytes of it. -/
def writesOf (n : ℕ) : FanoutMove → Bool
  | .viewer k .write => k = n
  | .viewer k (.breakOff _) => k = n
  | _ => false

/-- The source stores nothing. -/
def StoresNothing : FanoutMove → Prop
  | .store _ => False
  | _ => True

instance : DecidablePred StoresNothing
  | .store _ => .isFalse id
  | .tick _ | .stop | .connect | .viewer _ _ => .isTrue trivial

theorem writesOf_eq_false (h : movesOf n m = false) : writesOf n m = false := by
  cases m with
  | viewer k a => cases a <;> first | rfl | exact h
  | _ => rfl

section Ranks

/-- How many steps a viewer can take once the server stops. -/
def stoppedRank (v : Viewer) : ℕ :=
  match v.place with
  | .waiting => 3
  | .writing _ => 2
  | .looping => 1
  | .ended => 0

/-- How many of them write. -/
def stoppedWrites (v : Viewer) : ℕ :=
  match v.place with
  | .waiting | .writing _ => 1
  | .looping | .ended => 0

theorem stoppedRank_step (hstop : s.stopping = true) (h : Stepped staleAfter s v a v') :
    stoppedRank v' + 1 ≤ stoppedRank v ∧
      stoppedWrites v' + (if writesOf n (.viewer n a) = true then 1 else 0) ≤ stoppedWrites v := by
  cases h with
  | stops hplace | newFrame hplace | timeout hplace | write hplace | breakOff hplace =>
    simp [stoppedRank, stoppedWrites, writesOf, hplace]
  | waits hplace hgoes =>
    rw [hstop] at hgoes
    cases hgoes

/-- How many steps a viewer can take while the source stores nothing. -/
def stalledRank (s : Fanout) (v : Viewer) : ℕ :=
  (match v.place with
    | .writing _ => 3
    | .looping => 2
    | .waiting => 1
    | .ended => 0) + if (s.newFrame? v.last).isSome then 3 else 0

/-- How many of them write. -/
def stalledWrites (s : Fanout) (v : Viewer) : ℕ :=
  (match v.place with
    | .writing _ => 1
    | .looping | .waiting | .ended => 0) + if (s.newFrame? v.last).isSome then 1 else 0

theorem newFrame?_arrived {frame : Stored} {after : ℚ} (h : s.newFrame? after = some frame) :
    s.newFrame? frame.arrived = none := by
  obtain ⟨hlatest, -⟩ := Option.filter_eq_some_iff.mp h
  simp [newFrame?, hlatest]

theorem stalledRank_step (h : Stepped staleAfter s v a v') :
    stalledRank s v' + 1 ≤ stalledRank s v ∧
      stalledWrites s v' + (if writesOf n (.viewer n a) = true then 1 else 0) ≤
        stalledWrites s v := by
  cases h with
  | stops hplace | waits hplace | timeout hplace | write hplace | breakOff hplace =>
    simp only [stalledRank, stalledWrites, writesOf, hplace, decide_true, if_true,
      Bool.false_eq_true, if_false]
    omega
  | newFrame hplace hframe =>
    simp [stalledRank, stalledWrites, writesOf, hplace, hframe, newFrame?_arrived hframe]

/-- The newest frame stays if none is stored. -/
theorem latest_step (hm : StoresNothing m) (h : s.step staleAfter m = some t) :
    t.latest = s.latest := by
  cases m with
  | tick now =>
    obtain ⟨-, h⟩ := Option.ite_none_right_eq_some.mp h
    obtain rfl := Option.some.inj h
    rfl
  | store jpeg => exact hm.elim
  | stop | connect =>
    obtain rfl := Option.some.inj h
    rfl
  | viewer k a =>
    obtain ⟨-, -, -, -, rfl⟩ := step_viewer h
    rfl

theorem stoppedRank_le (v : Viewer) : stoppedRank v ≤ 3 ∧ stoppedWrites v ≤ 1 := by
  rcases hplace : v.place <;> simp [stoppedRank, stoppedWrites, hplace]

theorem stalledRank_le (s : Fanout) (v : Viewer) : stalledRank s v ≤ 6 ∧ stalledWrites s v ≤ 2 := by
  rcases hplace : v.place <;> rcases hframe : s.newFrame? v.last <;>
    simp [stalledRank, stalledWrites, hplace, hframe]

/-- A rank that some of the steps of a viewer lower, and no other step raises, bounds their
number. -/
theorem countP_le_rank {move : Fanout → FanoutMove → Fanout → Prop} {I : Fanout → Prop}
    (rank : Fanout → Viewer → ℕ) (p : FanoutMove → Bool) (hrun : Run move s ms t) (h0 : I s)
    (hmove : ∀ t m u, I t → move t m u → I u ∧ t.step staleAfter m = some u ∧
      ∀ v, rank u v = rank t v)
    (hviewer : ∀ t a v v', I t → Stepped staleAfter t v a v' →
      rank t v' + (if p (.viewer n a) = true then 1 else 0) ≤ rank t v)
    (hp : ∀ m, movesOf n m = false → p m = false) : ms.countP p ≤ rank s (s.viewer n) := by
  have hrank : ∀ t m u, I t → move t m u →
      I u ∧ rank u (u.viewer n) + (if p m = true then 1 else 0) ≤ rank t (t.viewer n) := by
    intro t m u ht hm
    obtain ⟨hu, hstep, hsame⟩ := hmove t m u ht hm
    refine ⟨hu, ?_⟩
    rw [hsame]
    rcases hn : movesOf n m with _ | _
    · rw [other_step hstep hn, hp m hn]
      exact le_rfl
    · cases m with
      | viewer k a =>
        obtain rfl : k = n := of_decide_eq_true hn
        exact hviewer t a _ _ ht (stepped (own_step hstep).1)
      | _ => cases hn
  exact (Nat.le_add_right _ _).trans (hrun.countP_add_rank_le h0 hrank).2

end Ranks

/-- A viewer has ended; or its thread is in a write, which has no timeout and returns when the
client has taken the part or is gone; or it can take a step, for which it waits no longer than until
`staleAfter` seconds have passed since it began to wait. -/
def GoesOn (staleAfter : ℚ) (s : Fanout) (v : Viewer) (n : ℕ) : Prop :=
  v.place = .ended ∨ (∃ frame, v.place = .writing frame) ∨
    ∃ now ≤ max s.now (v.since + staleAfter), ∃ a u,
      Run (ofPartial (step staleAfter)) s [.tick now, .viewer n a] u

/-- A step of a viewer that is possible at a later time. -/
theorem goesOn_of_step (hv : s.viewers[n]? = some v) {now : ℚ} (hnow : s.now ≤ now)
    (hbound : now ≤ max s.now (v.since + staleAfter))
    (hstep : ({ s with now } : Fanout).viewerStep staleAfter v a = some v') :
    GoesOn staleAfter s v n := by
  refine .inr (.inr ⟨now, hbound, a, { s with now, viewers := s.viewers.set n v' },
    .cons (if_pos hnow) (.cons ?_ .nil)⟩)
  simp [ofPartial, Fanout.step, hv, hstep]

theorem goesOn (staleAfter : ℚ) (s : Fanout) (n : ℕ) :
    ∀ v ∈ s.viewers[n]?, GoesOn staleAfter s v n := by
  intro v hv
  cases hp : v.place with
  | ended => exact .inl hp
  | writing frame => exact .inr (.inl ⟨frame, hp⟩)
  | looping => exact goesOn_of_step (a := .test) hv le_rfl (le_max_left _ _) (if_pos hp)
  | waiting =>
    cases hframe : s.newFrame? v.last with
    | some frame =>
      have hstep : s.viewerStep staleAfter v .newFrame =
          some { v with place := .writing frame, last := frame.arrived } :=
        (if_pos hp).trans (congrArg _ hframe)
      exact goesOn_of_step hv le_rfl (le_max_left _ _) hstep
    | none =>
      refine goesOn_of_step (a := .timeout) hv (le_max_left _ _) le_rfl (if_pos ?_)
      exact ⟨hp, hframe, le_max_right _ _⟩

/-- **Stopped streams end.** Once the server stops, a viewer takes at most three more steps, one of
which writes, whatever the camera and the others do; and until its stream has ended it can take one,
after its timeout at the latest, unless it is in a write. -/
theorem stopped_streams_end (hstop : s.stopping = true)
    (hrun : Run (ofPartial (step staleAfter)) s ms t) (n : ℕ) :
    ms.countP (movesOf n) ≤ 3 ∧ ms.countP (writesOf n) ≤ 1 ∧
      ∀ v ∈ t.viewers[n]?, GoesOn staleAfter t v n := by
  have hmoves := countP_le_rank (n := n) (fun _ v => stoppedRank v) (movesOf n) hrun hstop
    (fun t m u ht hm => ⟨stopping_step hm ht, hm, fun _ => rfl⟩)
    (fun t a v v' ht h => by simpa [movesOf] using (stoppedRank_step (n := n) ht h).1)
    fun _ hm => hm
  have hwrites := countP_le_rank (n := n) (fun _ v => stoppedWrites v) (writesOf n) hrun hstop
    (fun t m u ht hm => ⟨stopping_step hm ht, hm, fun _ => rfl⟩)
    (fun t a v v' ht h => (stoppedRank_step ht h).2) fun _ => writesOf_eq_false
  exact ⟨hmoves.trans (stoppedRank_le _).1, hwrites.trans (stoppedRank_le _).2,
    goesOn staleAfter t n⟩

/-- A viewer that is sent a frame when the server stops, and another one that waits. -/
def stopped : Fanout where
  stopping := true
  viewers := [{ place := .writing ⟨0, [], 0⟩ }, { place := .waiting }]

/-- The first one ends. -/
def stoppedMoves : List FanoutMove := [.viewer 0 .write, .viewer 0 .test]

theorem stopped_viewer_ends : stoppedMoves.countP (writesOf 0) ≤ 1 ∧
    ∃ t ∈ stoppedMoves.foldlM (step 15) stopped, ∀ v ∈ t.viewers[1]?, GoesOn 15 t v 1 := by
  have hrun : Run (ofPartial (step 15)) stopped stoppedMoves _ := run_ofPartial.mpr rfl
  exact ⟨(stopped_streams_end rfl hrun 0).2.1, _, rfl, (stopped_streams_end rfl hrun 1).2.2⟩

/-- **Stalled streams end.** While the camera brings no frame, a viewer takes at most six steps, two
of which write; and until its stream has ended it can take one, after its timeout at the latest,
unless it is in a write. -/
theorem stalled_streams_end
    (hrun : Run (restrict (fun _ m => StoresNothing m) (ofPartial (step staleAfter))) s ms t)
    (n : ℕ) :
    ms.countP (movesOf n) ≤ 6 ∧ ms.countP (writesOf n) ≤ 2 ∧
      ∀ v ∈ t.viewers[n]?, GoesOn staleAfter t v n := by
  have hmove : ∀ (t : Fanout) m u, StoresNothing m → t.step staleAfter m = some u →
      ∀ v, stalledRank u v = stalledRank t v ∧ stalledWrites u v = stalledWrites t v := by
    intro t m u hm hstep v
    have hlatest := latest_step hm hstep
    simp [stalledRank, stalledWrites, newFrame?, hlatest]
  have hmoves := countP_le_rank (n := n) (I := fun _ => True) stalledRank (movesOf n) hrun trivial
    (fun t m u _ hm => ⟨trivial, hm.2, fun v => (hmove t m u hm.1 hm.2 v).1⟩)
    (fun t a v v' _ h => by simpa [movesOf] using (stalledRank_step (n := n) h).1) fun _ hm => hm
  have hwrites := countP_le_rank (n := n) (I := fun _ => True) stalledWrites (writesOf n) hrun
    trivial (fun t m u _ hm => ⟨trivial, hm.2, fun v => (hmove t m u hm.1 hm.2 v).2⟩)
    (fun t a v v' _ h => (stalledRank_step h).2) fun _ => writesOf_eq_false
  exact ⟨hmoves.trans (stalledRank_le _ _).1, hwrites.trans (stalledRank_le _ _).2,
    goesOn staleAfter t n⟩

/-- A viewer that is about to get the last frame of the camera. -/
def stalled : Fanout where
  now := 1
  stores := [⟨0, [0xFF], 1⟩]
  latest := some ⟨0, [0xFF], 1⟩
  viewers := [{}]

/-- It gets that, and then waits in vain. -/
def stalledMoves : List FanoutMove :=
  [.viewer 0 .test, .viewer 0 .newFrame, .viewer 0 .write, .viewer 0 .test, .tick 20,
    .viewer 0 .timeout]

theorem stalled_viewer_ends : stalledMoves.countP (movesOf 0) ≤ 6 ∧
    ∃ t ∈ stalledMoves.foldlM (guarded (fun _ m => StoresNothing m) (step 15)) stalled,
      ∀ v ∈ t.viewers[0]?, GoesOn 15 t v 0 := by
  have heval :
      (stalledMoves.foldlM (guarded (fun _ m => StoresNothing m) (step 15)) stalled).isSome := by
    decide +kernel
  obtain ⟨t, ht⟩ := Option.isSome_iff_exists.mp heval
  have hrun : Run (restrict (fun _ m => StoresNothing m) (ofPartial (step 15))) stalled
      stalledMoves t := by
    rw [restrict_ofPartial]
    exact run_ofPartial.mpr ht
  obtain ⟨hmoves, -, hgoes⟩ := stalled_streams_end hrun 0
  exact ⟨hmoves, t, ht, hgoes⟩

end Fanout

end FlashforgeObico
