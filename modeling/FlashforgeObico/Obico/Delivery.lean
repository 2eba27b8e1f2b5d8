import FlashforgeObico.Obico.Server

/-!
# What becomes of the messages

`_pump` takes a message off the queue before it sends it, so the message is lost when `ws.send`
raises. `send` drops the oldest message when it has found the queue full, but in between the run
thread may take a message, and what is dropped then was not the oldest of a full queue.
`nothing_lost_iff` says that in the runs without these two, and in no others, every message that is
queued is delivered, dropped in overflow, on the queue or about to be sent.
-/

namespace FlashforgeObico

open Transition

/-- The message that a thread is about to queue. -/
def SendPlace.message? {μ : Type} : SendPlace μ → Option μ
  | .idle => none
  | .putting message | .dropping message => some message

namespace ObicoServer

variable {π μ : Type} {s t : ObicoServer π μ} {m : ServerMove π μ}

/-- The message that was taken off the queue and not sent yet. -/
def held (s : ObicoServer π μ) : List μ :=
  match s.place with
  | .sending message => [message]
  | _ => []

/-- The messages for which `ws.send` returned, in all sessions. -/
def sentMessages (s : ObicoServer π μ) : List μ := s.delivered.map Prod.snd

/-- The messages that were sent are a subsequence of those that were queued, the queue is bounded,
and every message is sent, about to be sent, on the queue, or was dropped as the oldest of a full
queue. -/
structure NothingLost (s : ObicoServer π μ) : Prop where
  order : s.sentMessages.Sublist s.queued
  bounded : s.queue.length ≤ queueMax
  account : s.queued.Perm (s.sentMessages ++ s.held ++ s.queue ++ s.dropped.map Prod.fst)
  full : ∀ d ∈ s.dropped, d.2 = queueMax

/-- `ws.send` does not raise, and a message is dropped from a full queue only. -/
def SendsWell (s : ObicoServer π μ) : ServerMove π μ → Prop
  | .sendFails => False
  | .drop _ => s.queue = [] ∨ s.queue.length = queueMax
  | _ => True

/-- No `ws.send` has raised, and messages were dropped from a full queue only. -/
def Lossless (s : ObicoServer π μ) : Prop := s.lost = [] ∧ ∀ d ∈ s.dropped, d.2 = queueMax

/-- What holds in every run: the account has an entry for the messages whose `ws.send` raised. -/
structure Accounted (s : ObicoServer π μ) : Prop where
  order : (s.sentMessages ++ s.held ++ s.queue).Sublist s.queued
  bounded : s.queue.length ≤ queueMax
  account : s.queued.Perm (s.sentMessages ++ s.held ++ s.queue ++ s.dropped.map Prod.fst ++ s.lost)

theorem accounted_initial : Accounted ({} : ObicoServer π μ) := by
  constructor <;> simp [sentMessages, held]

theorem held_of_sending {message : μ} (h : s.place = .sending message) : s.held = [message] := by
  simp [held, h]

theorem held_of_not_sending (h : ∀ message, s.place ≠ .sending message) : s.held = [] := by
  unfold held
  split
  · exact absurd ‹_› (h _)
  · rfl

/-- The message that leaves the queue, or is sent, or is lost in a step. -/
def leaving (s : ObicoServer π μ) : ServerMove π μ → Option μ
  | .sent | .sendFails => s.held.head?
  | .drop _ => s.queue.head?
  | _ => none

/-- The messages are where they were. -/
structure SameMessages (s t : ObicoServer π μ) : Prop where
  held : t.held = s.held
  queue : t.queue = s.queue
  queued : t.queued = s.queued
  delivered : t.delivered = s.delivered
  dropped : t.dropped = s.dropped
  lost : t.lost = s.lost

/-- A step that leaves the messages alone. -/
theorem Accounted.frame (h : s.Accounted) (hsame : s.SameMessages t) : t.Accounted := by
  obtain ⟨horder, hbounded, haccount⟩ := h
  obtain ⟨hheld, hqueue, hqueued, hdelivered, hdropped, hlost⟩ := hsame
  constructor
  · rwa [sentMessages, hheld, hqueue, hqueued, hdelivered]
  · rwa [hqueue]
  · rwa [sentMessages, hheld, hqueue, hqueued, hdelivered, hdropped, hlost]

/-- The account of a state in which nothing was lost. -/
theorem Accounted.nothingLost_iff (h : s.Accounted) : s.NothingLost ↔ s.Lossless := by
  constructor
  · rintro ⟨-, -, haccount, hfull⟩
    refine ⟨?_, hfull⟩
    have hlength := h.account.length_eq
    rw [List.length_append, ← haccount.length_eq] at hlength
    exact List.length_eq_zero_iff.mp (by omega)
  · rintro ⟨hlost, hfull⟩
    refine ⟨?_, h.bounded, ?_, hfull⟩
    · exact ((List.sublist_append_left _ _).trans (List.sublist_append_left _ _)).trans h.order
    · simpa [hlost] using h.account

theorem Accounted.put (h : s.Accounted) {message : μ} (hroom : s.queue.length < queueMax) :
    (s.enqueue message).Accounted := by
  classical
  refine ⟨?_, ?_, ?_⟩
  · show (s.sentMessages ++ s.held ++ (s.queue ++ [message])).Sublist (s.queued ++ [message])
    rw [← List.append_assoc]
    exact h.order.append (List.Sublist.refl _)
  · show (s.queue ++ [message]).length ≤ queueMax
    simpa [Nat.succ_le_iff] using hroom
  · show (s.queued ++ [message]).Perm (s.sentMessages ++ s.held ++ (s.queue ++ [message]) ++
      s.dropped.map Prod.fst ++ s.lost)
    refine List.perm_iff_count.mpr fun x => ?_
    have hx := h.account.count_eq x
    simp only [List.count_append] at hx ⊢
    omega

theorem Accounted.drop (h : s.Accounted) {oldest : μ} {queue : List μ}
    (hq : s.queue = oldest :: queue) :
    (s.discard oldest queue).Accounted := by
  classical
  refine ⟨?_, ?_, ?_⟩
  · show (s.sentMessages ++ s.held ++ queue).Sublist s.queued
    have horder := h.order
    rw [hq] at horder
    exact ((List.sublist_cons_self oldest queue).append_left _).trans horder
  · show queue.length ≤ queueMax
    have hbounded := h.bounded
    simp only [hq, List.length_cons] at hbounded
    omega
  · show s.queued.Perm (s.sentMessages ++ s.held ++ queue ++
      (s.dropped ++ [(oldest, s.queue.length)]).map Prod.fst ++ s.lost)
    refine List.perm_iff_count.mpr fun x => ?_
    have hx := h.account.count_eq x
    rw [hq, ← List.singleton_append] at hx
    simp only [List.map_append, List.map_singleton, List.count_append] at hx ⊢
    omega

theorem Accounted.get (h : s.Accounted) {message : μ} {queue : List μ} (hheld : s.held = [])
    (hq : s.queue = message :: queue) : ({ s with queue }.go (.sending message)).Accounted := by
  obtain ⟨horder, hbounded, haccount⟩ := h
  rw [hheld, hq] at horder haccount
  refine ⟨?_, ?_, ?_⟩
  · show (s.sentMessages ++ [message] ++ queue).Sublist s.queued
    simpa using horder
  · show queue.length ≤ queueMax
    simp only [hq, List.length_cons] at hbounded
    omega
  · show s.queued.Perm (s.sentMessages ++ [message] ++ queue ++ s.dropped.map Prod.fst ++ s.lost)
    simpa using haccount

theorem Accounted.sent (h : s.Accounted) {message : μ} (hheld : s.held = [message]) :
    ({ s with delivered := s.delivered ++ [(s.attempts, message)] }.go .testingStop).Accounted := by
  have hsent : sentMessages ({ s with delivered := s.delivered ++ [(s.attempts, message)] }.go
      .testingStop) = s.sentMessages ++ [message] := by simp [sentMessages, go]
  obtain ⟨horder, hbounded, haccount⟩ := h
  rw [hheld] at horder haccount
  refine ⟨?_, hbounded, ?_⟩
  · rw [hsent]
    show (s.sentMessages ++ [message] ++ [] ++ s.queue).Sublist s.queued
    simpa using horder
  · rw [hsent]
    show s.queued.Perm
      (s.sentMessages ++ [message] ++ [] ++ s.queue ++ s.dropped.map Prod.fst ++ s.lost)
    simpa using haccount

theorem Accounted.sendFails (h : s.Accounted) {message : μ} (hheld : s.held = [message]) :
    ({ s with lost := s.lost ++ [message] }.go (.closing true)).Accounted := by
  classical
  obtain ⟨horder, hbounded, haccount⟩ := h
  rw [hheld] at horder haccount
  refine ⟨?_, hbounded, ?_⟩
  · show (s.sentMessages ++ [] ++ s.queue).Sublist s.queued
    have hless : (s.sentMessages ++ []).Sublist (s.sentMessages ++ [message]) :=
      (List.nil_sublist _).append_left _
    exact (hless.append_right _).trans horder
  · show s.queued.Perm (s.sentMessages ++ [] ++ s.queue ++ s.dropped.map Prod.fst ++
      (s.lost ++ [message]))
    refine List.perm_iff_count.mpr fun x => ?_
    have hx := haccount.count_eq x
    simp only [List.count_append, List.count_nil] at hx ⊢
    omega

section Steps

variable [DecidableEq π]

/-- What a step does to the messages. -/
inductive Traffic (s : ObicoServer π μ) : ServerMove π μ → ObicoServer π μ → Prop
  | send {p message} : s.senders p = .idle →
      Traffic s (.send p message) (s.moveSender p (.putting message))
  | put {p message} : s.senders p = .putting message → s.queue.length < queueMax →
      Traffic s (.put p) ((s.enqueue message).moveSender p .idle)
  | drop {p message oldest queue} : s.senders p = .dropping message → s.queue = oldest :: queue →
      Traffic s (.drop p) ((s.discard oldest queue).moveSender p (.putting message))
  | get {message queue} : s.place = .getting → s.queue = message :: queue →
      Traffic s .get ({ s with queue }.go (.sending message))
  | sent {message} : s.place = .sending message → Traffic s .sent
      ({ s with delivered := s.delivered ++ [(s.attempts, message)] }.go .testingStop)
  | sendFails {message} : s.place = .sending message →
      Traffic s .sendFails ({ s with lost := s.lost ++ [message] }.go (.closing true))
  | silent {m : ServerMove π μ} {t : ObicoServer π μ} : s.leaving m = none → s.SameMessages t →
      (∀ p, (t.senders p).message? = (s.senders p).message?) → Traffic s m t

theorem message?_moveSender {p : π} {place : SendPlace μ}
    (h : place.message? = (s.senders p).message?)
    (q : π) : ((s.moveSender p place).senders q).message? = (s.senders q).message? := by
  by_cases hq : q = p
  · subst hq
    simpa [moveSender] using h
  · simp [moveSender, hq]

theorem traffic (hm : s.step m = some t) : s.Traffic m t := by
  cases stepped hm with
  | send hp => exact .send hp
  | put hp hroom => exact .put hp hroom
  | drop hp hq => exact .drop hp hq
  | get hplace hq => exact .get hplace hq
  | sent hplace => exact .sent hplace
  | sendFails hplace => exact .sendFails hplace
  | full hp _ =>
    exact .silent rfl ⟨rfl, rfl, rfl, rfl, rfl, rfl⟩ (message?_moveSender (by rw [hp]; rfl))
  | dropNone hp hq =>
    exact .silent (by rw [leaving, hq]; rfl) ⟨rfl, rfl, rfl, rfl, rfl, rfl⟩
      (message?_moveSender (by rw [hp]; rfl))
  | stop | readerStops _ _ | readerGoesOn _ _ | frame _ | noFrame _ | failed _ | dispatched _
  | dispatchRaises _ => exact .silent rfl ⟨rfl, rfl, rfl, rfl, rfl, rfl⟩ fun _ => rfl
  | run hplace _ | endRun hplace _ | connect hplace | connectFails hplace | stopPump hplace _
  | goOn hplace _ | raise hplace _ | noFailure hplace _ | timeout hplace _ | close hplace
  | wake hplace =>
    refine .silent rfl ⟨?_, rfl, rfl, rfl, rfl, rfl⟩ fun _ => rfl
    rw [held_of_not_sending (s := s) (by simp [hplace]), held_of_not_sending]
    simp [go, ObicoServer.raise]
  | pause hplace =>
    refine .silent rfl ⟨?_, rfl, rfl, rfl, rfl, rfl⟩ fun _ => rfl
    rw [held_of_not_sending (s := s) (by simp [hplace]), held_of_not_sending]
    rcases hrun : s.shouldRun with _ | _ <;> simp [go]

/-- A message is delivered when its `ws.send` returns. -/
theorem delivered_step (hm : s.step m = some t) : t.delivered = s.delivered ∨
    ∃ message, m = .sent ∧ s.place = .sending message ∧
      t.delivered = s.delivered ++ [(s.attempts, message)] := by
  cases traffic hm with
  | sent hplace => exact .inr ⟨_, rfl, hplace, rfl⟩
  | silent _ hsame _ => exact .inl hsame.delivered
  | _ => exact .inl rfl

theorem Accounted.step (h : s.Accounted) (hm : s.step m = some t) : t.Accounted := by
  cases traffic hm with
  | send _ => exact h.frame ⟨rfl, rfl, rfl, rfl, rfl, rfl⟩
  | put _ hroom => exact (h.put hroom).frame ⟨rfl, rfl, rfl, rfl, rfl, rfl⟩
  | drop _ hq => exact (h.drop hq).frame ⟨rfl, rfl, rfl, rfl, rfl, rfl⟩
  | get hplace hq => exact h.get (held_of_not_sending (by simp [hplace])) hq
  | sent hplace => exact h.sent (held_of_sending hplace)
  | sendFails hplace => exact h.sendFails (held_of_sending hplace)
  | silent _ hsame _ => exact h.frame hsame

/-- A step loses nothing exactly when `SendsWell` allows it. -/
theorem lossless_step (hm : s.step m = some t) :
    t.Lossless ↔ s.Lossless ∧ s.SendsWell m := by
  cases stepped hm with
  | @drop p message oldest queue hp hq =>
    have hsome : s.queue ≠ [] := by simp [hq]
    show (s.lost = [] ∧ ∀ d ∈ s.dropped ++ [(oldest, s.queue.length)], d.2 = queueMax) ↔
      s.Lossless ∧ (s.queue = [] ∨ s.queue.length = queueMax)
    simp only [Lossless, List.forall_mem_append, List.forall_mem_singleton, hsome,
      false_or, and_assoc]
  | dropNone hp hq => exact ⟨fun hs => ⟨hs, .inl hq⟩, And.left⟩
  | sendFails hplace =>
    refine iff_of_false (fun ht => ?_) fun hs => hs.2
    exact absurd ht.1 (by simp [go])
  | _ => exact ⟨fun hs => ⟨hs, trivial⟩, And.left⟩

/-- **Nothing is lost exactly in the runs in which no `ws.send` raises and messages are dropped from
a full queue only.** -/
theorem nothing_lost_iff {ms : List (ServerMove π μ)} {s : ObicoServer π μ}
    (h : Run (ofPartial step) {} ms s) :
    s.NothingLost ↔ Run (restrict SendsWell (ofPartial step)) {} ms s := by
  have haccounted : s.Accounted := h.invariant accounted_initial fun _ _ _ hs hm => hs.step hm
  rw [haccounted.nothingLost_iff]
  constructor
  · intro hs
    clear haccounted
    induction h with
    | nil => exact .nil
    | snoc _ hm ih =>
      obtain ⟨hlossless, hok⟩ := (lossless_step hm).mp hs
      exact (ih hlossless).snoc ⟨hok, hm⟩
  · intro hwell
    refine hwell.invariant (I := Lossless) ⟨rfl, by simp⟩ fun s m t hs hm => ?_
    exact (lossless_step hm.2).mpr ⟨hs, hm.1⟩

end Steps

/-- The thread that sends queues a message, and the run thread connects. -/
def connecting : List (ServerMove Unit ℕ) := [.send () 1, .put (), .testRun, .connect]

/-- The run thread takes the message off the queue, and its `ws.send` returns. -/
def delivering : List (ServerMove Unit ℕ) := connecting ++ [.testStop, .testFailure, .get, .sent]

/-- The same, but `ws.send` raises. -/
def failing : List (ServerMove Unit ℕ) := connecting ++ [.testStop, .testFailure, .get, .sendFails]

theorem sent_message_is_not_lost :
    ∃ s ∈ delivering.foldlM step ({} : ObicoServer Unit ℕ), s.NothingLost := by
  have hrun : Run (ofPartial step) ({} : ObicoServer Unit ℕ) delivering _ := run_ofPartial.mpr rfl
  refine ⟨_, rfl, (nothing_lost_iff hrun).mpr ?_⟩
  refine .cons ⟨trivial, rfl⟩ <| .cons ⟨trivial, rfl⟩ <| .cons ⟨trivial, rfl⟩ <|
    .cons ⟨trivial, rfl⟩ ?_
  exact .cons ⟨trivial, rfl⟩ <| .cons ⟨trivial, rfl⟩ <| .cons ⟨trivial, rfl⟩ <|
    .cons ⟨trivial, rfl⟩ .nil

/-- The socket fails when the message is sent. -/
theorem message_is_lost_with_the_socket :
    ∃ s ∈ failing.foldlM step ({} : ObicoServer Unit ℕ), s.held = [] ∧ ¬ s.NothingLost := by
  refine ⟨_, rfl, rfl, fun h => ?_⟩
  exact absurd h.account.length_eq (by decide)

/-! ## The newest message -/

/-- What has become of the message that was queued last: it is on the queue, about to be sent, the
last one that was sent, or the last one whose `ws.send` raised. -/
inductive Kept (s : ObicoServer π μ) (newest : μ) : Prop
  | waiting : s.queue.getLast? = some newest → Kept s newest
  | sending : s.queue = [] → s.held = [newest] → Kept s newest
  | sent : s.queue = [] → s.held = [] → s.sentMessages.getLast? = some newest → Kept s newest
  | lost : s.queue = [] → s.held = [] → s.lost.getLast? = some newest → Kept s newest

/-- No thread is in `send`. -/
def Quiet (s : ObicoServer π μ) : Prop := ∀ p, (s.senders p).message? = none

/-- The invariant: what is on the queue was queued last, and so was what is kept, unless a thread is
about to queue another message. -/
structure KeepsNewest (s : ObicoServer π μ) : Prop where
  suffix : s.queue <:+ s.queued
  kept : s.Quiet → ∀ newest ∈ s.queued.getLast?, s.Kept newest

theorem keepsNewest_initial : KeepsNewest ({} : ObicoServer π μ) :=
  ⟨List.suffix_refl _, fun _ newest hnewest => by cases hnewest⟩

theorem Kept.frame {newest : μ} (h : s.Kept newest) (hsame : s.SameMessages t) : t.Kept newest := by
  obtain ⟨hheld, hqueue, -, hdelivered, -, hlost⟩ := hsame
  cases h with
  | waiting hlast => exact .waiting (hqueue ▸ hlast)
  | sending hnil hlast => exact .sending (hqueue.trans hnil) (hheld.trans hlast)
  | sent hnil hnone hlast =>
    refine .sent (hqueue.trans hnil) (hheld.trans hnone) ?_
    rwa [sentMessages, hdelivered]
  | lost hnil hnone hlast =>
    exact .lost (hqueue.trans hnil) (hheld.trans hnone) (hlost ▸ hlast)

/-- The run thread takes a message. -/
theorem Kept.get {newest message : μ} {queue : List μ} (h : s.Kept newest)
    (hq : s.queue = message :: queue) : ({ s with queue }.go (.sending message)).Kept newest := by
  cases h with
  | waiting hlast =>
    rw [hq] at hlast
    cases queue with
    | nil =>
      obtain rfl : message = newest := Option.some.inj hlast
      exact .sending rfl rfl
    | cons next queue => exact .waiting (by rwa [List.getLast?_cons_cons] at hlast)
  | sending hnil | sent hnil | lost hnil =>
    rw [hq] at hnil
    cases hnil

variable [DecidableEq π]

theorem KeepsNewest.step (h : s.KeepsNewest) (hm : s.step m = some t) : t.KeepsNewest := by
  obtain ⟨hsuffix, hkept⟩ := h
  cases traffic hm with
  | @send p message hp =>
    refine ⟨hsuffix, fun hquiet => ?_⟩
    have hp := hquiet p
    simp [moveSender, SendPlace.message?] at hp
  | @put p message hp hroom =>
    refine ⟨?_, fun _ newest hnewest => .waiting ?_⟩
    · exact (List.suffix_append_inj_of_length_eq (by simp)).mpr ⟨hsuffix, rfl⟩
    · change (s.queued ++ [message]).getLast? = some newest at hnewest
      change (s.queue ++ [message]).getLast? = some newest
      rwa [List.getLast?_concat] at hnewest ⊢
  | @drop p message oldest queue hp hq =>
    refine ⟨?_, fun hquiet => ?_⟩
    · rw [hq] at hsuffix
      exact (List.suffix_cons oldest queue).trans hsuffix
    · have hp := hquiet p
      simp [moveSender, SendPlace.message?] at hp
  | @get message queue hplace hq =>
    rw [hq] at hsuffix
    exact ⟨(List.suffix_cons message queue).trans hsuffix,
      fun hquiet newest hnewest => (hkept hquiet newest hnewest).get hq⟩
  | @sent message hplace =>
    refine ⟨hsuffix, fun hquiet newest hnewest => ?_⟩
    cases hkept hquiet newest hnewest with
    | waiting hlast => exact .waiting hlast
    | sending hnil hheld =>
      rw [held_of_sending hplace] at hheld
      obtain rfl := List.singleton_inj.mp hheld
      exact .sent hnil rfl (by simp [sentMessages, go])
    | sent hnil hheld | lost hnil hheld =>
      rw [held_of_sending hplace] at hheld
      cases hheld
  | @sendFails message hplace =>
    refine ⟨hsuffix, fun hquiet newest hnewest => ?_⟩
    cases hkept hquiet newest hnewest with
    | waiting hlast => exact .waiting hlast
    | sending hnil hheld =>
      rw [held_of_sending hplace] at hheld
      obtain rfl := List.singleton_inj.mp hheld
      exact .lost hnil rfl (by simp [go])
    | sent hnil hheld | lost hnil hheld =>
      rw [held_of_sending hplace] at hheld
      cases hheld
  | silent _ hsame hsenders =>
    refine ⟨?_, fun hquiet newest hnewest => ?_⟩
    · rwa [hsame.queue, hsame.queued]
    · rw [hsame.queued] at hnewest
      exact (hkept (fun p => (hsenders p).symm.trans (hquiet p)) newest hnewest).frame hsame

/-- **The newest message is never dropped.** In every interleaving, what is on the queue are the
messages that were queued last; and once no thread is in `send`, the newest of all is on the queue,
about to be sent, or the last that was sent, unless its own `ws.send` raised. -/
theorem newest_is_kept {ms : List (ServerMove π μ)} (h : Run (ofPartial step) {} ms s) :
    s.queue <:+ s.queued ∧ (s.Quiet → ∀ newest ∈ s.queued.getLast?, s.Kept newest) := by
  have hkeeps : s.KeepsNewest := h.invariant keepsNewest_initial fun _ _ _ hs hm => hs.step hm
  exact ⟨hkeeps.suffix, hkeeps.kept⟩

theorem sent_message_is_the_newest :
    ∃ s ∈ delivering.foldlM step ({} : ObicoServer Unit ℕ), s.Kept 1 := by
  have hrun : Run (ofPartial step) ({} : ObicoServer Unit ℕ) delivering _ := run_ofPartial.mpr rfl
  exact ⟨_, rfl, (newest_is_kept hrun).2 (fun _ => rfl) 1 rfl⟩

end ObicoServer

end FlashforgeObico
