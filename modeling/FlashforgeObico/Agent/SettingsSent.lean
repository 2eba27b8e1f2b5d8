import FlashforgeObico.Agent.Publish
import FlashforgeObico.Obico.Delivery
import FlashforgeObico.Obico.Supervision

/-!
# Settings and sessions

`_send_status` sends `settings` until `_settings_sent` is set, which it sets as soon as a message is
on the queue. What Obico gets depends on the websocket: a message on the queue can be dropped, its
`ws.send` can raise, and each session is to begin with `settings`. Here the threads that publish,
the flag and the websocket are one system.

As long as no message with `settings` has left the queue, the next status message that is sent
carries them (`NextCarries`). `settings_come_first` says what follows for the sessions: each begins
with `settings` when none connects after such a message has left the queue, and `send` drops none
from a session that is waiting for it. Nothing resets `_settings_sent`, so a session that connects
later learns nothing.
-/

namespace FlashforgeObico

open Transition

/-- What the agent queues for Obico: a status message, or the event of `post_printer_event`. -/
inductive Outgoing
  | status (message : Message)
  | printerEvent (event : PrinterEvent)
  deriving DecidableEq

namespace Outgoing

/-- Whether a message is a status message. -/
def isStatus : Outgoing → Bool
  | status _ => true
  | printerEvent _ => false

/-- Whether a message carries `settings`. -/
def carriesSettings : Outgoing → Bool
  | status message => message.settings.isSome
  | printerEvent _ => false

theorem isStatus_of_carriesSettings {m : Outgoing} (h : m.carriesSettings = true) :
    m.isStatus = true := by
  cases m
  · rfl
  · cases h

end Outgoing

/-- `None if self._settings_sent else build_settings(self._webcams())`. -/
def settingsFor (settingsSent : Bool) (webcams : List Webcam) : Option Settings :=
  if settingsSent then none else some (buildSettings webcams)

/-- The websocket, the flag `_settings_sent`, and which threads are in `_send_status`. -/
structure Uplink (π : Type) where
  server : ObicoServer π Outgoing := {}
  settingsSent : Bool := false
  publishing : π → Bool := fun _ => false

/-- A step of a thread that publishes, or of the websocket. -/
inductive UplinkMove (π : Type)
  /-- `_send_status` builds a message and calls `send`. -/
  | report (p : π) (status : Option Status) (currentPrintTs : ℤ) (event : Option Event)
      (webcams : List Webcam)
  /-- `post_printer_event` calls `send`. -/
  | printerEvent (p : π) (event : PrinterEvent)
  /-- `send` has returned, and `_send_status` sets `_settings_sent`. -/
  | mark (p : π)
  | server (m : ServerMove π Outgoing)

namespace Uplink

variable {π : Type} {u v : Uplink π} {m : UplinkMove π}

/-- The messages that are not sent yet, in order. -/
def upcoming (u : Uplink π) : List Outgoing := u.server.held ++ u.server.queue

/-- The messages that have left the queue. -/
def gone (u : Uplink π) : List Outgoing :=
  u.server.sentMessages ++ u.server.lost ++ u.server.dropped.map Prod.fst

/-- A session is connected that hasn't sent a status message yet. -/
def Waiting (u : Uplink π) : Prop :=
  u.server.InPump ∧ ∀ d ∈ u.server.delivered, d.1 = u.server.attempts → d.2.isStatus = false

/-- No session connects after a message with `settings` has left the queue, and `send` drops none
while a session waits for its first status message. -/
def Introduces (u : Uplink π) : UplinkMove π → Prop
  | .server .connect => ∀ m ∈ u.gone, m.carriesSettings = false
  | .server (.drop _) => u.Waiting → ∀ m ∈ u.server.queue.head?, m.carriesSettings = false
  | _ => True

/-- The first status message that was sent in a session. -/
def firstStatus (u : Uplink π) (n : ℕ) : Option (ℕ × Outgoing) :=
  u.server.delivered.find? fun d => d.1 = n && d.2.isStatus

/-- The first status message of every session carries `settings`, and `settings` have been delivered
once a status message has. -/
structure Learned (u : Uplink π) : Prop where
  first : ∀ n, ∀ d ∈ u.firstStatus n, d.2.carriesSettings = true
  known : (∃ d ∈ u.server.delivered, d.2.isStatus = true) →
    ∃ d ∈ u.server.delivered, d.2.carriesSettings = true

/-- No status message has been queued yet. -/
structure Unintroduced (u : Uplink π) : Prop where
  unset : u.settingsSent = false
  carried : ∀ p, ∀ m ∈ (u.server.senders p).message?, m.isStatus = true → m.carriesSettings = true
  queueing : ∀ p, u.publishing p = true → ∃ m ∈ (u.server.senders p).message?, m.isStatus = true

/-- The next status message that is sent will carry `settings`. -/
inductive NextCarries (u : Uplink π) : Prop
  | queued {m : Outgoing} : u.upcoming.find? Outgoing.isStatus = some m → m.carriesSettings = true →
      NextCarries u
  | unintroduced : u.upcoming.find? Outgoing.isStatus = none → u.Unintroduced → NextCarries u

variable [DecidableEq π]

/-- One step; `none` when the thread is elsewhere. -/
def step (u : Uplink π) : UplinkMove π → Option (Uplink π)
  | .report p status currentPrintTs event webcams =>
    if u.publishing p then none
    else
      let message := buildMessage status currentPrintTs event (settingsFor u.settingsSent webcams)
      (u.server.step (.send p (.status message))).map fun server =>
        { u with server, publishing := Function.update u.publishing p true }
  | .printerEvent p event =>
    if u.publishing p then none
    else (u.server.step (.send p (.printerEvent event))).map fun server => { u with server }
  | .mark p =>
    match u.publishing p, u.server.senders p with
    | true, .idle =>
      some { u with settingsSent := true, publishing := Function.update u.publishing p false }
    | _, _ => none
  | .server (.send _ _) => none
  | .server m => (u.server.step m).map fun server => { u with server }

/-- The steps, each under its guards. -/
inductive Stepped (u : Uplink π) : UplinkMove π → Uplink π → Prop
  | report {p status currentPrintTs event webcams} : u.server.senders p = .idle →
      Stepped u (.report p status currentPrintTs event webcams)
        { u with
          server := u.server.moveSender p (.putting
            (.status (buildMessage status currentPrintTs event
              (settingsFor u.settingsSent webcams))))
          publishing := Function.update u.publishing p true }
  | printerEvent {p event} : u.publishing p = false → u.server.senders p = .idle →
      Stepped u (.printerEvent p event)
        { u with server := u.server.moveSender p (.putting (.printerEvent event)) }
  | mark {p} : u.publishing p = true → u.server.senders p = .idle →
      Stepped u (.mark p)
        { u with settingsSent := true, publishing := Function.update u.publishing p false }
  | server {m server} : (∀ p message, m ≠ .send p message) → u.server.step m = some server →
      Stepped u (.server m) { u with server }

theorem stepped (h : u.step m = some v) : u.Stepped m v := by
  cases m with
  | report p status currentPrintTs event webcams =>
    obtain ⟨-, hm⟩ := Option.ite_none_left_eq_some.mp h
    obtain ⟨server, hserver, rfl⟩ := Option.map_eq_some_iff.mp hm
    cases ObicoServer.stepped hserver with
    | send hp => exact .report hp
  | printerEvent p event =>
    obtain ⟨hpublishing, hm⟩ := Option.ite_none_left_eq_some.mp h
    obtain ⟨server, hserver, rfl⟩ := Option.map_eq_some_iff.mp hm
    cases ObicoServer.stepped hserver with
    | send hp => exact .printerEvent (Bool.eq_false_iff.mpr hpublishing) hp
  | mark p =>
    simp only [step] at h
    split at h <;> cases h
    exact .mark ‹_› ‹_›
  | server m =>
    cases m with
    | send p message => cases h
    | _ =>
      simp only [step, Option.map_eq_some_iff] at h
      obtain ⟨server, hserver, rfl⟩ := h
      exact .server (by simp) hserver

/-! ## The next status message -/

omit [DecidableEq π] in
theorem NextCarries.of_upcoming (h : u.NextCarries)
    (hfind : v.upcoming.find? Outgoing.isStatus = u.upcoming.find? Outgoing.isStatus)
    (hset : v.settingsSent = u.settingsSent) (hpublishing : v.publishing = u.publishing)
    (hsenders : ∀ p, (v.server.senders p).message? = (u.server.senders p).message?) :
    v.NextCarries := by
  rcases h with ⟨hm, hcarries⟩ | ⟨hnone, hunset, hcarried, hqueueing⟩
  · exact .queued (hfind.trans hm) hcarries
  · refine .unintroduced (hfind.trans hnone) ⟨hset.trans hunset, fun p m hm => ?_, fun p hp => ?_⟩
    · exact hcarried p m (hsenders p ▸ hm)
    · rw [hsenders p]
      exact hqueueing p (hpublishing ▸ hp)

omit [DecidableEq π] in
/-- A message without `settings` that leaves is not the next status message. -/
theorem NextCarries.find?_remove (h : u.NextCarries) {l₁ l₂ : List Outgoing} {x : Outgoing}
    (hu : u.upcoming = l₁ ++ x :: l₂) (hx : x.carriesSettings = false) :
    (l₁ ++ l₂).find? Outgoing.isStatus = u.upcoming.find? Outgoing.isStatus := by
  have hsplit := congrArg (List.find? Outgoing.isStatus) hu
  rw [List.find?_append] at hsplit
  rw [hsplit, List.find?_append]
  rcases hl : l₁.find? Outgoing.isStatus with _ | m
  · rcases hstatus : x.isStatus with _ | _
    · rw [List.find?_cons_of_neg (by simp [hstatus])]
    · rw [hl, List.find?_cons_of_pos hstatus] at hsplit
      rcases h with ⟨hm, hcarries⟩ | ⟨hnone, -⟩
      · obtain rfl : x = _ := Option.some.inj (hsplit.symm.trans hm)
        simp [hx] at hcarries
      · cases hnone.symm.trans hsplit
  · rfl

/-- What leaves is gone. -/
theorem gone_server {sm : ServerMove π Outgoing} {server : ObicoServer π Outgoing}
    (hm : u.server.step sm = some server) {x : Outgoing} :
    x ∈ Uplink.gone { u with server } ↔ x ∈ u.gone ∨ x ∈ u.server.leaving sm := by
  cases ObicoServer.traffic hm with
  | send _ | put _ _ | get _ _ =>
    simp [gone, ObicoServer.leaving, ObicoServer.sentMessages, ObicoServer.moveSender,
      ObicoServer.enqueue,
      ObicoServer.go]
  | drop _ hq =>
    simp [gone, ObicoServer.leaving, ObicoServer.sentMessages, ObicoServer.moveSender,
      ObicoServer.discard, hq]
    tauto
  | sent hplace | sendFails hplace =>
    simp [gone, ObicoServer.leaving, ObicoServer.sentMessages, ObicoServer.go,
      ObicoServer.held_of_sending hplace]
    tauto
  | silent hleaving hsame _ =>
    simp [gone, hleaving, ObicoServer.sentMessages, hsame.delivered, hsame.lost, hsame.dropped]

/-- The first status message that is queued carries `settings`. -/
theorem NextCarries.put (h : u.NextCarries) {p : π} {message : Outgoing}
    (hp : u.server.senders p = .putting message) :
    NextCarries { u with server := (u.server.enqueue message).moveSender p .idle } := by
  have hupcoming : upcoming { u with server := (u.server.enqueue message).moveSender p .idle } =
      u.upcoming ++ [message] := (List.append_assoc _ _ _).symm
  have hmessage : message ∈ (u.server.senders p).message? := by rw [hp]; rfl
  rcases h with ⟨hfind, hcarries⟩ | ⟨hnone, hunset, hcarried, hqueueing⟩
  · refine .queued ?_ hcarries
    rw [hupcoming, List.find?_append, hfind]
    rfl
  · rcases hstatus : message.isStatus with _ | _
    · refine .unintroduced ?_ ⟨hunset, fun q x hx => ?_, fun q hq => ?_⟩
      · rw [hupcoming, List.find?_append, hnone]
        simp [hstatus]
      · by_cases hqp : q = p
        · subst hqp
          simp [ObicoServer.moveSender, SendPlace.message?] at hx
        · exact hcarried q x (by simpa [ObicoServer.moveSender, ObicoServer.enqueue, hqp] using hx)
      · have hqp : q ≠ p := by
          rintro rfl
          obtain ⟨x, hx, hxstatus⟩ := hqueueing q hq
          obtain rfl : message = x := Option.some.inj (hmessage.symm.trans hx)
          simp [hstatus] at hxstatus
        simpa [ObicoServer.moveSender, ObicoServer.enqueue, hqp] using hqueueing q hq
    · refine .queued (m := message) ?_ (hcarried p message hmessage hstatus)
      rw [hupcoming, List.find?_append, hnone]
      simp [hstatus]

/-- While no message with `settings` leaves, the next status message carries them. -/
theorem NextCarries.server {sm : ServerMove π Outgoing} {server : ObicoServer π Outgoing}
    (h : u.NextCarries) (hsend : ∀ p message, sm ≠ .send p message)
    (hm : u.server.step sm = some server)
    (hleaving : ∀ x ∈ u.server.leaving sm, x.carriesSettings = false) :
    NextCarries { u with server } := by
  cases ObicoServer.traffic hm with
  | @send p message _ => exact absurd rfl (hsend p message)
  | put hp _ => exact h.put hp
  | @drop p message oldest queue hp hq =>
    have holdest : oldest.carriesSettings = false :=
      hleaving oldest (by simp [ObicoServer.leaving, hq])
    have hsplit : u.upcoming = u.server.held ++ oldest :: queue := by rw [upcoming, hq]
    have hmessage : (SendPlace.putting message).message? =
        ((u.server.discard oldest queue).senders p).message? :=
      (congrArg SendPlace.message? hp).symm
    exact h.of_upcoming (h.find?_remove hsplit holdest) rfl rfl
      (ObicoServer.message?_moveSender hmessage)
  | @get message queue hplace hq =>
    refine h.of_upcoming ?_ rfl rfl fun _ => rfl
    rw [upcoming, upcoming, hq, ObicoServer.held_of_not_sending (s := u.server) (by simp [hplace])]
    rfl
  | @sent message hplace | @sendFails message hplace =>
    -- written or lost, the message leaves
    have hheld := ObicoServer.held_of_sending hplace
    have hmessage : message.carriesSettings = false :=
      hleaving message (by simp [ObicoServer.leaving, hheld])
    have hsplit : u.upcoming = [] ++ message :: u.server.queue := by rw [upcoming, hheld]; rfl
    exact h.of_upcoming (h.find?_remove hsplit hmessage) rfl rfl fun _ => rfl
  | silent _ hsame hsenders =>
    refine h.of_upcoming ?_ rfl rfl hsenders
    rw [upcoming, upcoming, hsame.held, hsame.queue]

omit [DecidableEq π] in
theorem carriesSettings_report {status : Option Status} {currentPrintTs : ℤ} {event : Option Event}
    {webcams : List Webcam} (hunset : u.settingsSent = false) :
    (Outgoing.status (buildMessage status currentPrintTs event
      (settingsFor u.settingsSent webcams))).carriesSettings = true := by
  rw [hunset]
  rfl

/-- While no message with `settings` leaves, the next status message carries them. -/
theorem NextCarries.step (h : u.NextCarries) (hm : u.step m = some v)
    (hleaving : ∀ sm, m = .server sm → ∀ x ∈ u.server.leaving sm, x.carriesSettings = false) :
    v.NextCarries := by
  cases stepped hm with
  | server hsend hserver => exact h.server hsend hserver (hleaving _ rfl)
  | @report p status currentPrintTs event webcams hp =>
    rcases h with ⟨hfind, hcarries⟩ | ⟨hnone, hunset, hcarried, hqueueing⟩
    · exact .queued hfind hcarries
    · refine .unintroduced hnone ⟨hunset, fun q x hx hstatus => ?_, fun q hq => ?_⟩
      · by_cases hqp : q = p
        · subst hqp
          obtain rfl : _ = x := by simpa [ObicoServer.moveSender, SendPlace.message?] using hx
          exact carriesSettings_report hunset
        · exact hcarried q x (by simpa [ObicoServer.moveSender, hqp] using hx) hstatus
      · by_cases hqp : q = p
        · subst hqp
          simp [ObicoServer.moveSender, SendPlace.message?, Outgoing.isStatus]
        · simpa [ObicoServer.moveSender, hqp] using hqueueing q (by simpa [hqp] using hq)
  | @printerEvent p event hpublishing hp =>
    rcases h with ⟨hfind, hcarries⟩ | ⟨hnone, hunset, hcarried, hqueueing⟩
    · exact .queued hfind hcarries
    · refine .unintroduced hnone ⟨hunset, fun q x hx hstatus => ?_, fun q hq => ?_⟩
      · by_cases hqp : q = p
        · subst hqp
          obtain rfl : _ = x := by simpa [ObicoServer.moveSender, SendPlace.message?] using hx
          cases hstatus
        · exact hcarried q x (by simpa [ObicoServer.moveSender, hqp] using hx) hstatus
      · have hqp : q ≠ p := by
          rintro rfl
          simp [hpublishing] at hq
        simpa [ObicoServer.moveSender, hqp] using hqueueing q hq
  | @mark p hpublishing hp =>
    rcases h with ⟨hfind, hcarries⟩ | ⟨-, -, -, hqueueing⟩
    · exact .queued hfind hcarries
    · obtain ⟨x, hx, -⟩ := hqueueing p hpublishing
      simp [hp, SendPlace.message?] at hx

/-- As long as no message with `settings` has left the queue, the next status message carries
them. -/
def Ready (u : Uplink π) : Prop := (∀ x ∈ u.gone, x.carriesSettings = false) → u.NextCarries

theorem Ready.step (h : u.Ready) (hm : u.step m = some v) : v.Ready := by
  intro hgone
  cases stepped hm with
  | @server sm server hsend hserver =>
    have hboth := fun x hx => hgone x ((gone_server hserver).mpr hx)
    exact (h fun x hx => hboth x (.inl hx)).server hsend hserver fun x hx => hboth x (.inr hx)
  | report hp => exact (h hgone).step hm (by simp)
  | printerEvent hpublishing hp => exact (h hgone).step hm (by simp)
  | mark hpublishing hp => exact (h hgone).step hm (by simp)

/-- What holds while every step is one that `Introduces` allows. -/
structure Introduced (u : Uplink π) : Prop where
  ready : u.Ready
  waiting : u.Waiting → u.NextCarries
  first : ∀ n, ∀ d ∈ u.firstStatus n, d.2.carriesSettings = true

omit [DecidableEq π] in
theorem introduced_initial : Introduced ({} : Uplink π) := by
  have hnext : NextCarries ({} : Uplink π) :=
    .unintroduced rfl ⟨rfl, by simp [SendPlace.message?], by simp⟩
  exact ⟨fun _ => hnext, fun _ => hnext, by simp [firstStatus]⟩

/-- A session that waits for its first status message has just connected, or has been waiting. -/
theorem waiting_before {sm : ServerMove π Outgoing} {server : ObicoServer π Outgoing}
    (hm : u.server.step sm = some server) (hv : Waiting { u with server }) :
      sm = .connect ∨ u.Waiting := by
  refine (ObicoServer.inPump_step hm hv.1).imp_right fun ⟨hpump, hattempts⟩ =>
    ⟨hpump, fun d hd hn => ?_⟩
  refine hv.2 d ?_ (hn.trans hattempts.symm)
  rcases ObicoServer.delivered_step hm with hsame | ⟨message, -, -, hmore⟩
  · exact hsame ▸ hd
  · exact hmore ▸ List.mem_append_left _ hd

/-- No message with `settings` leaves a session that goes on waiting. -/
theorem leaving_waiting {sm : ServerMove π Outgoing} {server : ObicoServer π Outgoing}
    (hm : u.server.step sm = some server) (hok : u.Introduces (.server sm)) (hu : u.Waiting)
    (hv : Waiting { u with server }) : ∀ x ∈ u.server.leaving sm, x.carriesSettings = false := by
  intro x hx
  cases ObicoServer.traffic hm with
  | drop hp hq => exact hok hu x hx
  | @sent message hplace =>
    obtain rfl : message = x := by
      simpa [ObicoServer.leaving, ObicoServer.held_of_sending hplace] using hx
    have hstatus : message.isStatus = false :=
      hv.2 (u.server.attempts, message) (by simp [ObicoServer.go]) rfl
    by_contra hcarries
    rw [Outgoing.isStatus_of_carriesSettings (by simpa using hcarries)] at hstatus
    cases hstatus
  | sendFails hplace =>
    exact absurd hv.1 (by simp [ObicoServer.InPump, ObicoServer.pumpSteps, ObicoServer.go])
  | silent hleaving _ _ => simp [hleaving] at hx
  | _ => cases hx

omit [DecidableEq π] in
/-- The message that is being sent carries `settings` when it is the first status message of a
session. -/
theorem NextCarries.of_sending (h : u.NextCarries) {message : Outgoing}
    (hplace : u.server.place = .sending message) (hstatus : message.isStatus = true) :
    message.carriesSettings = true := by
  have hfirst : u.upcoming.find? Outgoing.isStatus = some message := by
    rw [upcoming, ObicoServer.held_of_sending hplace]
    exact List.find?_cons_of_pos hstatus
  rcases h with ⟨hm, hcarries⟩ | ⟨hnone, -⟩
  · rwa [Option.some.inj (hfirst.symm.trans hm)]
  · cases hfirst.symm.trans hnone

theorem Introduced.step (h : u.Introduced) (hok : u.Introduces m) (hm : u.step m = some v) :
    v.Introduced := by
  obtain ⟨hready, hwaiting, hfirst⟩ := h
  cases stepped hm with
  | report hp => exact ⟨hready.step hm, fun hv => (hwaiting hv).step hm (by simp), hfirst⟩
  | printerEvent _ hp => exact ⟨hready.step hm, fun hv => (hwaiting hv).step hm (by simp), hfirst⟩
  | mark _ hp => exact ⟨hready.step hm, fun hv => (hwaiting hv).step hm (by simp), hfirst⟩
  | @server sm server hsend hserver =>
    refine ⟨hready.step hm, fun hv => ?_, ?_⟩
    · rcases waiting_before hserver hv with rfl | hu
      · exact (hready hok).server hsend hserver (by simp [ObicoServer.leaving])
      · exact (hwaiting hu).server hsend hserver (leaving_waiting hserver hok hu hv)
    · rcases ObicoServer.delivered_step hserver with hsame | ⟨message, -, hplace, hmore⟩
      · intro n d hd
        rw [firstStatus, hsame] at hd
        exact hfirst n d hd
      · intro n d hd
        rw [firstStatus, hmore, List.find?_append] at hd
        rcases hbefore : u.firstStatus n with _ | d'
        · have hnone := List.find?_eq_none.mp hbefore
          obtain ⟨⟨rfl, hstatus⟩, rfl⟩ : (u.server.attempts = n ∧ message.isStatus = true) ∧
              (u.server.attempts, message) = d := by
            rw [show u.server.delivered.find? _ = none from hbefore, Option.none_or] at hd
            simpa [List.find?_singleton] using hd
          have hu : u.Waiting := by
            refine ⟨by simp [ObicoServer.InPump, ObicoServer.pumpSteps, hplace], fun d hd hn => ?_⟩
            simpa [hn] using hnone d hd
          exact (hwaiting hu).of_sending hplace hstatus
        · rw [show u.server.delivered.find? _ = some d' from hbefore] at hd
          obtain rfl : d' = d := Option.some.inj hd
          exact hfirst n d' hbefore

/-- **In the runs in which no session connects after a message with `settings` has left the queue,
and `send` drops none from a session that waits for it, each session begins with `settings`.** -/
theorem settings_come_first {ms : List (UplinkMove π)} {u : Uplink π}
    (h : Run (restrict Introduces (ofPartial step)) {} ms u) : u.Learned := by
  have hintroduced : u.Introduced :=
    h.invariant introduced_initial fun _ _ _ hu hm => hu.step hm.1 hm.2
  refine ⟨hintroduced.first, fun ⟨d, hd, hstatus⟩ => ?_⟩
  obtain ⟨d', hd'⟩ := Option.isSome_iff_exists.mp
    (List.find?_isSome.mpr ⟨d, hd, by simp [hstatus]⟩ : (u.firstStatus d.1).isSome)
  exact ⟨d', List.mem_of_find?_eq_some hd', hintroduced.first d.1 d' hd'⟩

/-- `_send_status` of the agent's model is a report, a `put` and a mark. -/
theorem sendStatus_steps {a : Agent} {now : Time} {status : Option Status}
    (event : Option Event) {p : π}
    (hstatus : buildStatus a.snapshot a.tracker a.stateText now = .ok status)
    (hset : u.settingsSent = a.settingsSent) (hpublishing : u.publishing p = false)
    (hp : u.server.senders p = .idle) (hroom : u.server.queue.length < queueMax) :
    ∃ message v, (Agent.sendStatus event now a).2.trace = a.trace ++ [.sent message a.tracker] ∧
      [.report p status a.tracker.currentPrintTs event a.webcams, .server (.put p),
        .mark p].foldlM step u =
        some v ∧
      v.server.queue = u.server.queue ++ [.status message] ∧
      v.settingsSent = (Agent.sendStatus event now a).2.settingsSent := by
  have hsent : settingsFor u.settingsSent a.webcams = a.settings := by
    rw [hset]
    rfl
  have hreport : u.step (.report p status a.tracker.currentPrintTs event a.webcams) =
      some { u with
        server := u.server.moveSender p
          (.putting (.status (buildMessage status a.tracker.currentPrintTs event a.settings)))
        publishing := Function.update u.publishing p true } := by
    simp [step, ObicoServer.step, hpublishing, hp, hsent]
  rw [Agent.sendStatus_of_ok event hstatus, List.foldlM_cons, hreport]
  refine ⟨_, { u with
    server := ((u.server.moveSender p (.putting (.status
      (buildMessage status a.tracker.currentPrintTs event a.settings)))).enqueue (.status
      (buildMessage status a.tracker.currentPrintTs event a.settings))).moveSender p .idle
    settingsSent := true
    publishing := Function.update (Function.update u.publishing p true) p false }, rfl,
      ?_, rfl, rfl⟩
  simp [step, ObicoServer.step, ObicoServer.moveSender, ObicoServer.enqueue, hroom]

/-- The first status message is queued, the run thread connects and sends it. -/
def introduction : List (UplinkMove Unit) :=
  [.report () none (-1) none [], .server (.put ()), .mark (), .server .testRun, .server .connect,
    .server (.readerTest 1), .server .testStop, .server .testFailure, .server .get, .server .sent]

/-- The session fails, the run thread connects again and sends the next status message. -/
def reconnection : List (UplinkMove Unit) :=
  [.server (.receive 1 (.failed .other)), .server .testStop, .server .testFailure, .server .close,
    .server .pause, .server .wake, .server .testRun, .server .connect, .report () none (-1) none [],
    .server (.put ()), .mark (), .server .testStop, .server .testFailure, .server .get,
      .server .sent]

theorem first_session_learns :
    ∃ u ∈ introduction.foldlM step ({} : Uplink Unit), (u.firstStatus 1).isSome ∧ u.Learned := by
  refine ⟨_, rfl, rfl, settings_come_first
    (show Run (restrict Introduces (ofPartial step)) {} introduction _ from ?_)⟩
  iterate 4 refine .cons ⟨trivial, rfl⟩ ?_
  refine .cons ⟨List.forall_mem_nil _, rfl⟩ ?_
  iterate 5 refine .cons ⟨trivial, rfl⟩ ?_
  exact .nil

/-- The second session learns nothing. -/
theorem second_session_learns_nothing :
    ∃ u ∈ (introduction ++ reconnection).foldlM step ({} : Uplink Unit),
      (u.firstStatus 2).isSome ∧ ¬ u.Learned := by
  refine ⟨_, rfl, rfl, fun h => ?_⟩
  exact absurd (h.first 2 _ rfl) (by decide)

end Uplink

end FlashforgeObico
