import FlashforgeObico.Agent.Console
import FlashforgeObico.Camera.Relay
import FlashforgeObico.Foundations.Transition

/-!
# The pictures that Obico gets

`_pic_loop` and `_boost_loop` of `agent.py` post the newest frame of the first camera, the one at
regular intervals, the other more often while someone is viewing. They are two threads: the camera
stores frames, Obico's messages set `viewing`, and time passes between any two of their steps.
`pictures_are_fresh` says what is posted and how often, `boost_stops_with_viewing` and
`stale_camera_is_not_posted` when nothing more is.
-/

namespace FlashforgeObico

open Py Transition

/-- `PIC_MAX_AGE_S`. -/
def picMaxAgeS : ℚ := 15

/-- The two threads. -/
inductive PicKind
  | regular
  | boost
  deriving DecidableEq

/-- `PIC_INTERVAL_S` and `PIC_BOOST_INTERVAL_S`. -/
def PicKind.interval : PicKind → ℚ
  | regular => 10
  | boost => 1

/-- The place of a thread that posts pictures, with the frame it has, the time it was read, and the
time its age was checked. -/
inductive PicPlace
  /-- At the test of `stop`. -/
  | testingStop
  /-- At the test of `viewing`, in `post_boost_frame`. -/
  | testingViewing
  /-- In `_post_frame`, at `latest()`. -/
  | reading
  /-- At the test of the age of the frame. -/
  | checking (frame : Stored) (read : ℚ)
  /-- At `post_pic`. -/
  | posting (frame : Stored) (read checked : ℚ)
  /-- In `post_pic`. -/
  | awaiting
  /-- In `stop.wait`. -/
  | waiting (since : ℚ)
  | ended

/-- A picture that was posted, with the times its frame was read, its age was checked and it was
posted. -/
structure Picture where
  kind : PicKind
  frame : Stored
  read : ℚ
  checked : ℚ
  posted : ℚ

/-- The first camera, the flags, the two threads and what they posted. -/
structure Pictures where
  now : ℚ
  stores : List Stored := []
  latest : Option Stored := none
  hasCamera : Bool
  viewing : Bool := false
  stop : Bool := false
  places : PicKind → PicPlace := fun _ => .testingStop
  posts : List Picture := []

/-- What can happen. -/
inductive PicturesMove
  /-- Time passes. -/
  | elapse (d : ℚ≥0)
  /-- The camera stores a frame. -/
  | store (jpeg : Bytes)
  /-- The camera is discovered. -/
  | discover
  /-- A message of Obico. -/
  | message (message : Dict)
  | stop
  /-- A step of one of the threads. -/
  | thread (k : PicKind)

namespace Pictures

/-- Put a thread in another place. -/
def go (s : Pictures) (k : PicKind) (place : PicPlace) : Pictures :=
  { s with places := Function.update s.places k place }

theorem places_go_self (s : Pictures) (k : PicKind) (place : PicPlace) :
    (s.go k place).places k = place := Function.update_self ..

theorem places_go_of_ne (s : Pictures) {j k : PicKind} (h : j ≠ k) (place : PicPlace) :
    (s.go k place).places j = s.places j := Function.update_of_ne h ..

/-- `obico.post_pic` is called. -/
def post (s : Pictures) (picture : Picture) : Pictures := { s with posts := s.posts ++ [picture] }

/-- A step of a thread. -/
def advance (s : Pictures) (k : PicKind) : Option Pictures :=
  match s.places k with
  | .testingStop =>
    some (s.go k (if s.stop then .ended else if k = .boost then .testingViewing else .reading))
  | .testingViewing => some (s.go k (if s.viewing then .reading else .waiting s.now))
  | .reading =>
    match if s.hasCamera then s.latest else none with
    | some frame => some (s.go k (.checking frame s.now))
    | none => some (s.go k (.waiting s.now))
  | .checking frame read =>
    some (s.go k (if picMaxAgeS < s.now - frame.arrived then .waiting s.now
      else .posting frame read s.now))
  | .posting frame read checked =>
    some ((s.post { kind := k, frame, read, checked, posted := s.now }).go k .awaiting)
  | .awaiting => some (s.go k (.waiting s.now))
  | .waiting since =>
    if s.stop = true ∨ since + k.interval ≤ s.now then some (s.go k .testingStop) else none
  | .ended => none

/-- One step. -/
def step (s : Pictures) : PicturesMove → Option Pictures
  | .elapse d => some { s with now := s.now + d }
  | .store jpeg =>
    let frame := ⟨s.stores.length, jpeg, s.now⟩
    some { s with stores := s.stores ++ [frame], latest := some frame }
  | .discover => some { s with hasCamera := true }
  | .message message => some { s with viewing := Agent.viewingOf message s.viewing }
  | .stop => some { s with stop := true }
  | .thread k => s.advance k

/-- The steps of a thread, each under its guards. -/
inductive Advanced (s : Pictures) (k : PicKind) : Pictures → Prop
  | ends : s.places k = .testingStop → s.stop = true → Advanced s k (s.go k .ended)
  | boosts : s.places k = .testingStop → s.stop = false → k = .boost →
      Advanced s k (s.go k .testingViewing)
  | begins : s.places k = .testingStop → s.stop = false → k ≠ .boost →
      Advanced s k (s.go k .reading)
  | watched : s.places k = .testingViewing → s.viewing = true → Advanced s k (s.go k .reading)
  | unwatched : s.places k = .testingViewing → s.viewing = false →
      Advanced s k (s.go k (.waiting s.now))
  | reads {frame} : s.places k = .reading → s.latest = some frame →
      Advanced s k (s.go k (.checking frame s.now))
  | readsNone : s.places k = .reading → Advanced s k (s.go k (.waiting s.now))
  | stale {frame read} : s.places k = .checking frame read →
      Advanced s k (s.go k (.waiting s.now))
  | fresh {frame read} : s.places k = .checking frame read →
      s.now - frame.arrived ≤ picMaxAgeS → Advanced s k (s.go k (.posting frame read s.now))
  | posts {frame read checked} : s.places k = .posting frame read checked →
      Advanced s k ((s.post { kind := k, frame, read, checked, posted := s.now }).go k .awaiting)
  | answered : s.places k = .awaiting → Advanced s k (s.go k (.waiting s.now))
  | wakes {since} : s.places k = .waiting since → s.stop = true ∨ since + k.interval ≤ s.now →
      Advanced s k (s.go k .testingStop)

variable {s t : Pictures} {k : PicKind}

theorem advanced (h : s.advance k = some t) : s.Advanced k t := by
  rw [advance] at h
  split at h
  · split_ifs at h with hstop hboost <;> cases h
    · exact .ends ‹_› hstop
    · exact .boosts ‹_› (Bool.eq_false_iff.mpr hstop) hboost
    · exact .begins ‹_› (Bool.eq_false_iff.mpr hstop) hboost
  · split_ifs at h with hviewing <;> cases h
    · exact .watched ‹_› hviewing
    · exact .unwatched ‹_› (Bool.eq_false_iff.mpr hviewing)
  · split at h <;> cases h
    · rename_i hlatest
      split_ifs at hlatest
      exact .reads ‹_› hlatest
    · exact .readsNone ‹_›
  · split_ifs at h with hage <;> cases h
    · exact .stale ‹_›
    · exact .fresh ‹_› (not_lt.mp hage)
  · cases h
    exact .posts ‹_›
  · cases h
    exact .answered ‹_›
  · obtain ⟨hwakes, h⟩ := Option.ite_none_right_eq_some.mp h
    cases h
    exact .wakes ‹_› hwakes
  · cases h

/-! ## What is posted -/

/-- Frames that were stored after a frame arrived after it was read. -/
def NewestAt (s : Pictures) (frame : Stored) (read : ℚ) : Prop :=
  ∀ f ∈ s.stores, frame.number < f.number → read ≤ f.arrived

/-- A picture is a frame of the camera that was the newest one when it was read, and no older than
`PIC_MAX_AGE_S` when its age was checked. -/
structure Shows (s : Pictures) (p : Picture) : Prop where
  stored : p.frame ∈ s.stores
  newest : s.NewestAt p.frame p.read
  fresh : p.checked - p.frame.arrived ≤ picMaxAgeS
  read_le : p.read ≤ p.checked
  checked_le : p.checked ≤ p.posted
  posted_le : p.posted ≤ s.now

/-- The interval has passed since the last picture of a thread. -/
def Rested (s : Pictures) (k : PicKind) : Prop :=
  ∀ p ∈ s.posts, p.kind = k → p.posted + k.interval ≤ s.now

/-- A thread has a frame to post. -/
structure Holds (s : Pictures) (k : PicKind) (frame : Stored) (read : ℚ) : Prop where
  rested : s.Rested k
  stored : frame ∈ s.stores
  newest : s.NewestAt frame read
  read_le : read ≤ s.now
  order : ∀ p ∈ s.posts, p.kind = k → p.frame.number ≤ frame.number

/-- What holds at the place of a thread. -/
def AtPlace (s : Pictures) (k : PicKind) : PicPlace → Prop
  | .testingStop => s.stop = false → s.Rested k
  | .testingViewing | .reading => s.Rested k
  | .checking frame read => s.Holds k frame read
  | .posting frame read checked =>
    s.Holds k frame read ∧ checked - frame.arrived ≤ picMaxAgeS ∧ read ≤ checked ∧ checked ≤ s.now
  | .waiting since => since ≤ s.now ∧ ∀ p ∈ s.posts, p.kind = k → p.posted ≤ since
  | .awaiting | .ended => True

/-- The pictures of a thread. -/
def postsOf (s : Pictures) (k : PicKind) : List Picture := s.posts.filter fun p => p.kind = k

/-- The pictures are an interval apart, and none shows an older frame than the one before. -/
def Paced (k : PicKind) (ps : List Picture) : Prop :=
  ps.Pairwise fun p q => p.posted + k.interval ≤ q.posted ∧ p.frame.number ≤ q.frame.number

/-- The invariant. -/
structure Fresh (s : Pictures) : Prop where
  numbers : s.stores.map Stored.number = List.range s.stores.length
  latest : ∀ f ∈ s.latest, f ∈ s.stores ∧ ∀ f' ∈ s.stores, f'.number ≤ f.number
  posts : ∀ p ∈ s.posts, s.Shows p
  places : ∀ k, s.AtPlace k (s.places k)
  paced : ∀ k, Paced k (s.postsOf k)

theorem fresh_initial (now : ℚ) (hasCamera : Bool) : Fresh { now, hasCamera } where
  numbers := rfl
  latest := by simp
  posts := by simp
  places k hstop p hp := by cases hp
  paced k := .nil

/-- The two states differ by time and new frames only, as far as the pictures are concerned. -/
structure Later (s t : Pictures) : Prop where
  now : s.now ≤ t.now
  stores : ∀ f ∈ s.stores, f ∈ t.stores
  newer : ∀ f ∈ t.stores, f ∈ s.stores ∨ s.now ≤ f.arrived
  posts : t.posts = s.posts
  stop : s.stop = true → t.stop = true

theorem Later.newestAt (h : s.Later t) {frame : Stored} {read : ℚ} (hnewest : s.NewestAt frame read)
    (hread : read ≤ s.now) : t.NewestAt frame read := by
  intro f hf hnumber
  rcases h.newer f hf with hf | hf
  · exact hnewest f hf hnumber
  · exact hread.trans hf

theorem Later.rested (h : s.Later t) (hrested : s.Rested k) : t.Rested k := by
  intro p hp hk
  rw [h.posts] at hp
  exact (hrested p hp hk).trans h.now

theorem Later.holds (h : s.Later t) {frame : Stored} {read : ℚ} (hholds : s.Holds k frame read) :
    t.Holds k frame read where
  rested := h.rested hholds.rested
  stored := h.stores _ hholds.stored
  newest := h.newestAt hholds.newest hholds.read_le
  read_le := hholds.read_le.trans h.now
  order := by
    rw [h.posts]
    exact hholds.order

theorem Later.shows (h : s.Later t) {p : Picture} (hp : s.Shows p) : t.Shows p where
  stored := h.stores _ hp.stored
  newest := h.newestAt hp.newest (hp.read_le.trans (hp.checked_le.trans hp.posted_le))
  fresh := hp.fresh
  read_le := hp.read_le
  checked_le := hp.checked_le
  posted_le := hp.posted_le.trans h.now

theorem Later.atPlace (h : s.Later t) {place : PicPlace} (hs : s.AtPlace k place) :
    t.AtPlace k place := by
  cases place with
  | testingStop =>
    intro hstop
    refine h.rested (hs ?_)
    rw [Bool.eq_false_iff] at hstop ⊢
    exact fun hs => hstop (h.stop hs)
  | testingViewing | reading => exact h.rested hs
  | checking frame read => exact h.holds hs
  | posting frame read checked =>
    obtain ⟨hholds, hfresh, hread, hchecked⟩ := hs
    exact ⟨h.holds hholds, hfresh, hread, hchecked.trans h.now⟩
  | waiting since =>
    obtain ⟨hsince, hposts⟩ := hs
    refine ⟨hsince.trans h.now, ?_⟩
    rw [h.posts]
    exact hposts
  | awaiting | ended => trivial

/-- A step of another thread. -/
theorem Fresh.later (h : s.Fresh) (hst : s.Later t) (hplaces : t.places = s.places)
    (hnumbers : t.stores.map Stored.number = List.range t.stores.length)
    (hlatest : ∀ f ∈ t.latest, f ∈ t.stores ∧ ∀ f' ∈ t.stores, f'.number ≤ f.number) : t.Fresh where
  numbers := hnumbers
  latest := hlatest
  posts p hp := hst.shows (h.posts p (hst.posts ▸ hp))
  places k := by
    rw [hplaces]
    exact hst.atPlace (h.places k)
  paced k := by
    rw [postsOf, hst.posts]
    exact h.paced k

/-- The place of a thread doesn't matter to what holds at a place. -/
theorem atPlace_go {j : PicKind} {place place' : PicPlace} (hs : s.AtPlace k place) :
    (s.go j place').AtPlace k place := by
  have hsame : s.Later (s.go j place') := ⟨le_rfl, fun _ hf => hf, fun _ hf => .inl hf, rfl, id⟩
  exact hsame.atPlace hs

/-- A step of a thread that posts nothing. -/
theorem Fresh.go (h : s.Fresh) {place : PicPlace} (hplace : s.AtPlace k place) :
    (s.go k place).Fresh where
  numbers := h.numbers
  latest := h.latest
  posts p hp := by
    obtain ⟨hstored, hnewest, hfresh, hread, hchecked, hposted⟩ := h.posts p hp
    exact ⟨hstored, hnewest, hfresh, hread, hchecked, hposted⟩
  places j := by
    by_cases hj : j = k
    · subst hj
      rw [places_go_self]
      exact atPlace_go hplace
    · rw [places_go_of_ne _ hj]
      exact atPlace_go (h.places j)
  paced := h.paced

section Post

variable {p : Picture}

theorem forall_mem_post {P : Picture → Prop} (h : ∀ q ∈ s.posts, P q) (hp : P p) :
    ∀ q ∈ (s.post p).posts, P q := by
  intro q hq
  rcases List.mem_append.mp hq with hq | hq
  · exact h q hq
  · obtain rfl := List.mem_singleton.mp hq
    exact hp

/-- What one thread posts does nothing to the other. -/
theorem atPlace_post (hk : p.kind ≠ k) {place : PicPlace} (hs : s.AtPlace k place) :
    (s.post p).AtPlace k place := by
  have hrested : s.Rested k → (s.post p).Rested k := fun hrested =>
    forall_mem_post hrested fun hp => absurd hp hk
  have hholds : ∀ {frame read}, s.Holds k frame read → (s.post p).Holds k frame read :=
    fun hholds => ⟨hrested hholds.rested, hholds.stored, hholds.newest, hholds.read_le,
      forall_mem_post hholds.order fun hp => absurd hp hk⟩
  cases place with
  | testingStop => exact fun hstop => hrested (hs hstop)
  | testingViewing | reading => exact hrested hs
  | checking frame read => exact hholds hs
  | posting frame read checked => exact ⟨hholds hs.1, hs.2⟩
  | waiting since => exact ⟨hs.1, forall_mem_post hs.2 fun hp => absurd hp hk⟩
  | awaiting | ended => trivial

theorem postsOf_post_self : (s.post p).postsOf p.kind = s.postsOf p.kind ++ [p] := by
  simp [postsOf, post]

theorem postsOf_post_of_ne (hk : p.kind ≠ k) : (s.post p).postsOf k = s.postsOf k := by
  simp [postsOf, post, hk]

theorem Fresh.post (h : s.Fresh)
    (hplace : s.places p.kind = .posting p.frame p.read p.checked) (hposted : p.posted = s.now) :
    ((s.post p).go p.kind .awaiting).Fresh := by
  obtain ⟨hholds, hfresh, hread, hchecked⟩ :
      s.AtPlace p.kind (.posting p.frame p.read p.checked) := hplace ▸ h.places p.kind
  refine ⟨h.numbers, h.latest, forall_mem_post (fun q hq => ?_) ?_, fun j => ?_, fun j => ?_⟩
  · obtain ⟨hstored, hnewest, hfresh, hread, hchecked, hposted⟩ := h.posts q hq
    exact ⟨hstored, hnewest, hfresh, hread, hchecked, hposted⟩
  · exact ⟨hholds.stored, hholds.newest, hfresh, hread, hposted ▸ hchecked, hposted.le⟩
  · by_cases hj : j = p.kind
    · subst hj
      rw [places_go_self]
      trivial
    · rw [places_go_of_ne _ hj]
      exact atPlace_go (atPlace_post (Ne.symm hj) (h.places j))
  · by_cases hj : p.kind = j
    · subst hj
      have hpaced : Paced p.kind (s.postsOf p.kind ++ [p]) := by
        refine List.pairwise_append.mpr ⟨h.paced _, List.pairwise_singleton _ _, ?_⟩
        intro q hq q' hq'
        obtain rfl := List.mem_singleton.mp hq'
        obtain ⟨hmem, hkind⟩ := List.mem_filter.mp hq
        have hkind : q.kind = q'.kind := of_decide_eq_true hkind
        refine ⟨?_, hholds.order q hmem hkind⟩
        rw [hposted]
        exact hholds.rested q hmem hkind
      rw [← postsOf_post_self] at hpaced
      exact hpaced
    · have hpaced : Paced j ((s.post p).postsOf j) := by
        rw [postsOf_post_of_ne hj]
        exact h.paced j
      exact hpaced

end Post

theorem Fresh.advance (h : s.Fresh) (hm : s.advance k = some t) : t.Fresh := by
  have hplaces := h.places k
  cases advanced hm with
  | ends _ _ => exact h.go trivial
  | boosts hplace hstop | begins hplace hstop =>
    rw [hplace] at hplaces
    exact h.go (hplaces hstop)
  | watched hplace _ =>
    rw [hplace] at hplaces
    exact h.go hplaces
  | unwatched | readsNone | stale | answered =>
    exact h.go ⟨le_rfl, fun p hp _ => (h.posts p hp).posted_le⟩
  | @reads frame hplace hlatest =>
    rw [hplace] at hplaces
    obtain ⟨hmem, hmax⟩ := h.latest frame hlatest
    refine h.go ⟨hplaces, hmem, fun f hf hnumber => ?_, le_rfl, fun p hp _ => ?_⟩
    · exact absurd (hmax f hf) (not_le.mpr hnumber)
    · exact hmax _ (h.posts p hp).stored
  | @fresh frame read hplace hage =>
    rw [hplace] at hplaces
    exact h.go ⟨hplaces, hage, hplaces.read_le, le_rfl⟩
  | @posts frame read checked hplace =>
    exact h.post (p := { kind := k, frame, read, checked, posted := s.now }) hplace rfl
  | @wakes since hplace hwakes =>
    rw [hplace] at hplaces
    obtain ⟨hsince, hposts⟩ := hplaces
    refine h.go fun hstop p hp hk => ?_
    rcases hwakes with hwakes | hwakes
    · rw [hstop] at hwakes
      cases hwakes
    · exact (add_le_add_left (hposts p hp hk) _).trans hwakes

theorem Fresh.step (h : s.Fresh) {m : PicturesMove} (hm : s.step m = some t) : t.Fresh := by
  cases m with
  | elapse d =>
    obtain rfl := Option.some.inj hm
    have hnow : s.now ≤ s.now + d := le_add_of_nonneg_right d.coe_nonneg
    exact h.later ⟨hnow, fun _ hf => hf, fun _ hf => .inl hf, rfl, id⟩ rfl h.numbers h.latest
  | store jpeg =>
    obtain rfl := Option.some.inj hm
    have hnumbers : (s.stores ++ [(⟨s.stores.length, jpeg, s.now⟩ : Stored)]).map Stored.number =
        List.range (s.stores.length + 1) := by
      rw [List.map_append, h.numbers, List.range_succ]
      rfl
    have hlast : ∀ f ∈ s.stores ++ [(⟨s.stores.length, jpeg, s.now⟩ : Stored)],
        f.number ≤ s.stores.length := by
      intro f hf
      have hmem := List.mem_map_of_mem (f := Stored.number) hf
      rw [hnumbers, List.mem_range] at hmem
      exact Nat.le_of_lt_succ hmem
    refine h.later ⟨le_rfl, fun _ hf => List.mem_append_left _ hf, fun f hf => ?_, rfl, id⟩ rfl
      ?_ fun f hf => ?_
    · exact (List.mem_append.mp hf).imp_right fun hf => by rw [List.mem_singleton.mp hf]
    · rw [List.length_append]
      exact hnumbers
    · obtain rfl := Option.some.inj hf
      exact ⟨List.mem_append_right _ (List.mem_singleton_self _), hlast⟩
  | discover | message message =>
    obtain rfl := Option.some.inj hm
    exact h.later ⟨le_rfl, fun _ hf => hf, fun _ hf => .inl hf, rfl, id⟩ rfl h.numbers h.latest
  | stop =>
    obtain rfl := Option.some.inj hm
    exact h.later ⟨le_rfl, fun _ hf => hf, fun _ hf => .inl hf, rfl, fun _ => rfl⟩ rfl h.numbers
      h.latest
  | thread k => exact h.advance hm

/-- **Pictures are fresh.** In every interleaving each picture that is posted shows a frame of the
camera that was the newest one when it was read, and was no older than `PIC_MAX_AGE_S` when that was
checked. The pictures of a thread are its interval apart, and no older frame follows a newer one. -/
theorem pictures_are_fresh {now : ℚ} {hasCamera : Bool} {ms : List PicturesMove}
    (h : Run (ofPartial step) { now, hasCamera } ms s) :
    s.stores.map Stored.number = List.range s.stores.length ∧ (∀ p ∈ s.posts, s.Shows p) ∧
      ∀ k, Paced k (s.postsOf k) := by
  have hfresh : s.Fresh := h.invariant (fresh_initial now hasCamera) fun _ _ _ hs hm => hs.step hm
  exact ⟨hfresh.numbers, hfresh.posts, hfresh.paced⟩

/-- A message that says that someone is viewing. -/
def viewingMessage : Dict := [("remote_status", .obj [("viewing", .bool true)])]

/-- Someone is viewing, and a boosted picture is posted. -/
def watching : List PicturesMove :=
  [.message viewingMessage, .store [0xFF], .thread .boost, .thread .boost, .thread .boost,
    .thread .boost, .thread .boost]

theorem watched_picture_is_fresh : ∃ s ∈ watching.foldlM step { now := 0, hasCamera := true },
    (s.postsOf .boost).length = 1 ∧ ∀ p ∈ s.posts, s.Shows p := by
  have hposts : (watching.foldlM step { now := 0, hasCamera := true }).map
      (fun s => (s.postsOf .boost).length) = some 1 := by decide +kernel
  obtain ⟨s, hs, hlength⟩ := Option.map_eq_some_iff.mp hposts
  exact ⟨s, hs, hlength, (pictures_are_fresh (run_ofPartial.mpr hs)).2.1⟩

/-! ## When nothing more is posted -/

/-- One thread does nothing to the other. -/
theorem advance_of_ne {j : PicKind} (hj : j ≠ k) (hm : s.advance j = some t) :
    t.places k = s.places k ∧ t.postsOf k = s.postsOf k := by
  cases advanced hm with
  | posts => exact ⟨places_go_of_ne _ hj.symm _, postsOf_post_of_ne hj⟩
  | _ => exact ⟨places_go_of_ne _ hj.symm _, rfl⟩

/-- The pictures that a thread may still post before it tests `viewing` again. -/
def underway (s : Pictures) (k : PicKind) : ℕ :=
  match s.places k with
  | .reading | .checking _ _ | .posting _ _ _ => 1
  | _ => 0

/-- The pictures that a thread may still post before it tests the age of a frame again. -/
def checked (s : Pictures) (k : PicKind) : ℕ :=
  match s.places k with
  | .posting _ _ _ => 1
  | _ => 0

/-- A message doesn't say that someone is viewing, when nobody was. -/
def KeepsUnwatched : PicturesMove → Prop
  | .message message => Agent.viewingOf message false = false
  | _ => True

theorem underway_step (hs : s.viewing = false) {m : PicturesMove} (hm : s.step m = some t)
    (hok : KeepsUnwatched m) : t.viewing = false ∧
      (t.postsOf .boost).length + t.underway .boost ≤
        (s.postsOf .boost).length + s.underway .boost := by
  cases m with
  | message message =>
    obtain rfl := Option.some.inj hm
    refine ⟨?_, le_rfl⟩
    change Agent.viewingOf message s.viewing = false
    rw [hs]
    exact hok
  | elapse | store | discover | stop =>
    obtain rfl := Option.some.inj hm
    exact ⟨hs, le_rfl⟩
  | thread j =>
    by_cases hj : j = .boost
    · subst hj
      cases advanced hm with
      | watched _ hviewing =>
        rw [hs] at hviewing
        cases hviewing
      | begins _ _ hne => exact absurd rfl hne
      | posts hplace =>
        refine ⟨hs, ?_⟩
        simp [underway, go, post, postsOf, hplace]
      | ends hplace | boosts hplace | unwatched hplace | reads hplace | readsNone hplace
      | stale hplace | fresh hplace | answered hplace | wakes hplace =>
        refine ⟨hs, Nat.add_le_add_left ?_ _⟩
        simp [underway, go, hplace]
    · obtain ⟨hplace, hposts⟩ := advance_of_ne hj hm
      refine ⟨?_, ?_⟩
      · cases advanced hm <;> exact hs
      · rw [hposts, underway, hplace, underway]

theorem underway_le (s : Pictures) (k : PicKind) : s.underway k ≤ 1 := by
  unfold underway
  split <;> decide

/-- **Boosted pictures stop when nobody is viewing**: after that at most one more is posted, until
a message says that someone is. -/
theorem boost_stops_with_viewing (hs : s.viewing = false) {ms : List PicturesMove}
    (h : Run (restrict (fun _ m => KeepsUnwatched m) (ofPartial step)) s ms t) :
    (t.postsOf .boost).length ≤ (s.postsOf .boost).length + 1 := by
  obtain ⟨-, hposts⟩ : t.viewing = false ∧ (t.postsOf .boost).length + t.underway .boost ≤
      (s.postsOf .boost).length + s.underway .boost := by
    refine h.invariant (I := fun u => u.viewing = false ∧
      (u.postsOf .boost).length + u.underway .boost ≤
        (s.postsOf .boost).length + s.underway .boost) ⟨hs, le_rfl⟩ fun u m v hu hm => ?_
    obtain ⟨hviewing, hle⟩ := underway_step hu.1 hm.2 hm.1
    exact ⟨hviewing, hle.trans hu.2⟩
  have hone := underway_le s .boost
  omega

instance (m : PicturesMove) : Decidable (KeepsUnwatched m) := by
  cases m <;> unfold KeepsUnwatched <;> infer_instance

/-- A message that says that nobody is viewing any more. -/
def awayMessage : Dict := [("remote_status", .obj [("viewing", .bool false)])]

/-- The viewing stops while a boosted picture is under way. -/
def leaving : List PicturesMove :=
  [.message viewingMessage, .store [0xFF], .thread .boost, .thread .boost, .thread .boost,
    .thread .boost, .message awayMessage]

/-- The picture is posted, and a round of `_boost_loop` later nothing is. -/
def afterLeaving : List PicturesMove :=
  [.thread .boost, .thread .boost, .store [0xFE], .elapse 1, .thread .boost, .thread .boost,
    .thread .boost]

theorem one_more_is_posted : ∃ s ∈ leaving.foldlM step { now := 0, hasCamera := true },
    ∃ t ∈ afterLeaving.foldlM (guarded (fun _ m => KeepsUnwatched m) step) s,
      (s.postsOf .boost).length = 0 ∧ (t.postsOf .boost).length = 1 ∧
        (t.postsOf .boost).length ≤ (s.postsOf .boost).length + 1 := by
  have hposts : ((leaving.foldlM step { now := 0, hasCamera := true }).bind fun s =>
      (afterLeaving.foldlM (guarded (fun _ m => KeepsUnwatched m) step) s).map fun t =>
        (s.viewing, (s.postsOf .boost).length, (t.postsOf .boost).length)) =
      some (false, 0, 1) := by decide +kernel
  obtain ⟨s, hs, hposts⟩ := Option.bind_eq_some_iff.mp hposts
  obtain ⟨t, ht, hposts⟩ := Option.map_eq_some_iff.mp hposts
  obtain ⟨hviewing, hbefore, hafter⟩ : s.viewing = false ∧ (s.postsOf .boost).length = 0 ∧
      (t.postsOf .boost).length = 1 := by simpa using hposts
  have hrun : Run (restrict (fun _ m => KeepsUnwatched m) (ofPartial step)) s afterLeaving t := by
    rw [restrict_ofPartial]
    exact run_ofPartial.mpr ht
  exact ⟨s, hs, t, ht, hbefore, hafter, boost_stops_with_viewing hviewing hrun⟩

/-- Every frame is older than `PIC_MAX_AGE_S`. -/
def AllStale (s : Pictures) : Prop := ∀ f ∈ s.stores, picMaxAgeS < s.now - f.arrived

/-- A step that stores no frame. -/
def StoresNothing : PicturesMove → Prop
  | .store _ => False
  | _ => True

theorem checked_step (hfresh : s.Fresh) (hs : s.AllStale) {m : PicturesMove}
    (hm : s.step m = some t) (hok : StoresNothing m) : t.AllStale ∧
      (t.postsOf k).length + t.checked k ≤ (s.postsOf k).length + s.checked k := by
  cases m with
  | store jpeg => exact hok.elim
  | elapse d =>
    obtain rfl := Option.some.inj hm
    refine ⟨fun f hf => (hs f hf).trans_le (sub_le_sub_right ?_ _), le_rfl⟩
    exact le_add_of_nonneg_right d.coe_nonneg
  | discover | message message | stop =>
    obtain rfl := Option.some.inj hm
    exact ⟨hs, le_rfl⟩
  | thread j =>
    refine ⟨by cases advanced hm <;> exact hs, ?_⟩
    by_cases hj : j = k
    · subst hj
      cases advanced hm with
      | @fresh frame read hplace hage =>
        have hplaces := hfresh.places j
        rw [hplace] at hplaces
        exact absurd hage (not_le.mpr (hs frame hplaces.stored))
      | posts hplace => simp [checked, go, post, postsOf, hplace]
      | begins hplace | ends hplace | boosts hplace | watched hplace | unwatched hplace
      | reads hplace | readsNone hplace | stale hplace | answered hplace | wakes hplace =>
        refine Nat.add_le_add_left ?_ _
        simp [checked, go, hplace]
    · obtain ⟨hplace, hposts⟩ := advance_of_ne hj hm
      rw [hposts, checked, hplace, checked]

theorem checked_le (s : Pictures) (k : PicKind) : s.checked k ≤ 1 := by
  unfold checked
  split <;> decide

/-- **A stale camera is not posted**: once every frame is older than `PIC_MAX_AGE_S`, each thread
posts at most one more picture, until a frame is stored. -/
theorem stale_camera_is_not_posted {now : ℚ} {hasCamera : Bool} {ms ls : List PicturesMove}
    (h : Run (ofPartial step) { now, hasCamera } ms s) (hs : s.AllStale)
    (hrun : Run (restrict (fun _ m => StoresNothing m) (ofPartial step)) s ls t) (k : PicKind) :
    (t.postsOf k).length ≤ (s.postsOf k).length + 1 := by
  have hfresh : s.Fresh := h.invariant (fresh_initial now hasCamera) fun _ _ _ hs hm => hs.step hm
  obtain ⟨-, -, hposts⟩ : t.Fresh ∧ t.AllStale ∧
      (t.postsOf k).length + t.checked k ≤ (s.postsOf k).length + s.checked k := by
    refine hrun.invariant (I := fun u => u.Fresh ∧ u.AllStale ∧
      (u.postsOf k).length + u.checked k ≤ (s.postsOf k).length + s.checked k)
      ⟨hfresh, hs, le_rfl⟩ fun u m v hu hm => ?_
    obtain ⟨hu, hstale, hle⟩ := hu
    obtain ⟨hstale', hle'⟩ := checked_step (k := k) hu hstale hm.2 hm.1
    exact ⟨hu.step hm.2, hstale', hle'.trans hle⟩
  have hone := checked_le s k
  omega

/-- The camera stores one frame, and no other for a while. -/
def stalling : List PicturesMove := [.store [0xFF], .elapse 16]

/-- The state after that. -/
def stalled : Pictures where
  now := 0 + (16 : ℚ≥0)
  stores := [⟨0, [0xFF], 0⟩]
  latest := some ⟨0, [0xFF], 0⟩
  hasCamera := true

/-- The first steps of `_pic_loop`. -/
def regularRound : List PicturesMove := [.thread .regular, .thread .regular, .thread .regular]

theorem stalled_camera_is_not_posted : ∃ t ∈ regularRound.foldlM step stalled,
    (t.postsOf .regular).length ≤ (stalled.postsOf .regular).length + 1 := by
  have hrun : Run (ofPartial step) { now := 0, hasCamera := true } stalling stalled :=
    run_ofPartial.mpr rfl
  have hround : Run (restrict (fun _ m => StoresNothing m) (ofPartial step)) stalled
      regularRound _ :=
    .cons ⟨trivial, rfl⟩ <| .cons ⟨trivial, rfl⟩ <| .cons ⟨trivial, rfl⟩ .nil
  refine ⟨_, rfl, stale_camera_is_not_posted hrun ?_ hround _⟩
  intro f hf
  obtain rfl := List.mem_singleton.mp hf
  decide +kernel

end Pictures

end FlashforgeObico
