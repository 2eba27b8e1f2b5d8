import FlashforgeObico.Foundations.Utf8
import FlashforgeObico.Agent.Routes
import FlashforgeObico.Agent.Run
import FlashforgeObico.Obico.Supervision

/-!
# What Obico tells the agent

The way of a message from the socket to the agent: `_RealWs.recv` decodes the frames of one session,
its reader hands what it gets to `_dispatch`, and that gives the JSON objects of the text frames to
`handle_server_message`. Here the websocket, the readers of its sessions, of which an old one may
outlive its session, and the agent are one system. `messages_arrive` says that a run of it is a run
of each of the two, and that what is handled is what the frames say, each message once, in the order
of its session: no other frame and no timeout does anything to the agent.
-/

namespace FlashforgeObico

open Py Transition

/-! ## The socket -/

/-- `SHARED_TOKEN_CLOSE_CODE`. -/
def sharedTokenCloseCode : ℕ := 4321

/-- `websocket.ABNF.OPCODE_TEXT`. -/
def opcodeText : ℕ := 0x1

/-- `websocket.ABNF.OPCODE_BINARY`. -/
def opcodeBinary : ℕ := 0x2

/-- `websocket.ABNF.OPCODE_CLOSE`. -/
def opcodeClose : ℕ := 0x8

/-- How a `recv_data` of the socket ends. -/
inductive RecvData
  | frame (opcode : ℕ) (data : Bytes)
  | timeout
  | raises

/-- What `recv` returns. -/
inductive RecvValue
  | str (text : List Char)
  | bytes (data : Bytes)

/-- How a `recv` ends. -/
inductive RecvEnd
  | returns (value : RecvValue)
  | timeout
  | raises (e : ReceiveError)

/-- `int.from_bytes(data[:2], "big") if len(data) >= 2 else 0`. -/
def closeCode : Bytes → ℕ
  | b :: c :: _ => b.toNat * 256 + c.toNat
  | _ => 0

/-- A turn of the loop of `_RealWs.recv`; `none` when it goes on, after a ping or a pong. -/
def recvTurn : RecvData → Option RecvEnd
  | .frame opcode data =>
    if opcode = opcodeText then some (.returns (.str (decodeUtf8 data)))
    else if opcode = opcodeBinary then some (.returns (.bytes data))
    else if opcode = opcodeClose then
      some (.raises (if closeCode data = sharedTokenCloseCode then .sharedTokenClosed else .other))
    else none
  | .timeout => some .timeout
  | .raises => some (.raises .other)

/-- A close frame with code 4321. -/
def RecvData.ClosesSharedToken (x : RecvData) : Prop :=
  ∃ data, x = .frame opcodeClose data ∧ closeCode data = sharedTokenCloseCode

theorem closesSharedToken_iff {x : RecvData} :
    x.ClosesSharedToken ↔ recvTurn x = some (.raises .sharedTokenClosed) := by
  constructor
  · rintro ⟨data, rfl, hcode⟩
    simp [recvTurn, opcodeText, opcodeBinary, opcodeClose, hcode]
  · intro h
    rcases x with ⟨opcode, data⟩ | _ | _
    · simp only [recvTurn] at h
      split_ifs at h with htext hbinary hclose hcode
      · cases h
      · cases h
      · exact ⟨data, hclose ▸ rfl, hcode⟩
      · cases h
    · cases h
    · cases h

/-- The message of Obico that a step handles. -/
def Label.message? : Label → Option Dict
  | .message m => some m
  | _ => none

section Downlink

/- `json.loads`, on text. -/
variable (loads : List Char → Except LoadsError Json)

/-- What `_dispatch` gives to `on_message`, if anything; `json.loads` may raise something that is no
`ValueError`. -/
def messageOf : RecvValue → Except LoadsError (Option Dict)
  | .bytes _ => .ok none
  | .str text =>
    match loads text with
    | .ok (.obj message) => .ok (some message)
    | .ok _ => .ok none
    | .error .valueError => .ok none
    | .error .other => .error .other

/-- The message that a frame brings. -/
def RecvData.message? (x : RecvData) : Option Dict :=
  match recvTurn x with
  | some (.returns value) => ((messageOf loads value).toOption).join
  | _ => none

/-! ## The websocket and the agent -/

/-- The websocket, the agent, and what the readers have received and not yet dispatched. -/
structure Downlink (π μ : Type) where
  server : ObicoServer π μ := {}
  agent : Agent
  hand : ℕ → Option RecvValue := fun _ => none

/-- A step of a reader, of another thread of the websocket or of the agent. -/
inductive DownlinkMove (π μ : Type)
  /-- A `recv_data` of the reader of a session ends. -/
  | recvData (n : ℕ) (x : RecvData)
  | dispatch (n : ℕ)
  | server (m : ServerMove π μ)
  | agent (l : Label)

namespace Downlink

variable {π μ : Type}

/-- What is left to the reader of a session after a step of the websocket. -/
def move (d : Downlink π μ) (server : ObicoServer π μ) (n : ℕ) (value : Option RecvValue) :
    Downlink π μ :=
  { d with server, hand := Function.update d.hand n value }

variable [DecidableEq π]

/-- One step; `none` when the thread is elsewhere, or when the process has ended. -/
def step (d : Downlink π μ) (m : DownlinkMove π μ) : Option (Downlink π μ) :=
  if d.agent.exited then none
  else match m with
    | .recvData n x =>
      match recvTurn x with
      | none => if d.server.readers n = .receiving then some d else none
      | some (.returns value) =>
        (d.server.step (.receive n .frame)).map fun server => d.move server n (some value)
      | some .timeout =>
        (d.server.step (.receive n .timeout)).map fun server => { d with server }
      | some (.raises e) =>
        (d.server.step (.receive n (.failed e))).map fun server => { d with server }
    | .dispatch n =>
      match (d.hand n).map (messageOf loads) with
      | none => none
      | some (.error _) =>
        (d.server.step (.dispatch n true)).map fun server => d.move server n none
      | some (.ok none) =>
        (d.server.step (.dispatch n false)).map fun server => d.move server n none
      | some (.ok (some message)) =>
        (d.server.step (.dispatch n false)).map fun server =>
          { d.move server n none with agent := d.agent.step (.message message) }
    | .server (.receive _ _) => none
    | .server (.dispatch _ _) => none
    | .server m => (d.server.step m).map fun server => { d with server }
    | .agent (.message _) => none
    | .agent l => some { d with agent := d.agent.step l }

/-- The steps, each under its guards. -/
inductive Stepped (d : Downlink π μ) : DownlinkMove π μ → Downlink π μ → Prop
  | waits {n x} : recvTurn x = none → Stepped d (.recvData n x) d
  | receives {n x value server} : recvTurn x = some (.returns value) →
      d.server.step (.receive n .frame) = some server →
      Stepped d (.recvData n x) (d.move server n (some value))
  | timesOut {n x server} : recvTurn x = some .timeout →
      d.server.step (.receive n .timeout) = some server →
      Stepped d (.recvData n x) { d with server }
  | fails {n x e server} : recvTurn x = some (.raises e) →
      d.server.step (.receive n (.failed e)) = some server →
      Stepped d (.recvData n x) { d with server }
  | ignores {n value raises server} : d.hand n = some value →
      (messageOf loads value).toOption.join = none →
      d.server.step (.dispatch n raises) = some server →
      Stepped d (.dispatch n) (d.move server n none)
  | handles {n value message server} : d.hand n = some value →
      messageOf loads value = .ok (some message) →
      d.server.step (.dispatch n false) = some server →
      Stepped d (.dispatch n)
        { d.move server n none with agent := d.agent.step (.message message) }
  | server {m server} : (∀ n r, m ≠ .receive n r) → (∀ n r, m ≠ .dispatch n r) →
      d.server.step m = some server → Stepped d (.server m) { d with server }
  | agent {l} : l.message? = none → Stepped d (.agent l) { d with agent := d.agent.step l }

variable {loads} {d d' : Downlink π μ} {m : DownlinkMove π μ}

theorem stepped (h : d.step loads m = some d') : d.Stepped loads m d' := by
  obtain ⟨-, h⟩ := Option.ite_none_left_eq_some.mp h
  cases m with
  | recvData n x =>
    dsimp only at h
    rcases hturn : recvTurn x with _ | value | _ | e <;> simp only [hturn] at h
    · obtain ⟨-, h⟩ := Option.ite_none_right_eq_some.mp h
      obtain rfl := Option.some.inj h
      exact .waits hturn
    · obtain ⟨server, hserver, rfl⟩ := Option.map_eq_some_iff.mp h
      exact .receives hturn hserver
    · obtain ⟨server, hserver, rfl⟩ := Option.map_eq_some_iff.mp h
      exact .timesOut hturn hserver
    · obtain ⟨server, hserver, rfl⟩ := Option.map_eq_some_iff.mp h
      exact .fails hturn hserver
  | dispatch n =>
    dsimp only at h
    rcases hhand : d.hand n with _ | value
    · simp [hhand] at h
    rcases hmessage : messageOf loads value with e | _ | message <;>
      simp only [hhand, Option.map_some, hmessage] at h
    · obtain ⟨server, hserver, rfl⟩ := Option.map_eq_some_iff.mp h
      exact .ignores hhand (by rw [hmessage]; rfl) hserver
    · obtain ⟨server, hserver, rfl⟩ := Option.map_eq_some_iff.mp h
      exact .ignores hhand (by rw [hmessage]; rfl) hserver
    · obtain ⟨server, hserver, rfl⟩ := Option.map_eq_some_iff.mp h
      exact .handles hhand hmessage hserver
  | server m =>
    cases m with
    | receive n r => cases h
    | dispatch n r => cases h
    | _ =>
      obtain ⟨server, hserver, rfl⟩ := Option.map_eq_some_iff.mp h
      exact .server (by simp) (by simp) hserver
  | agent l =>
    cases l with
    | message message => cases h
    | _ =>
      obtain rfl := Option.some.inj h
      exact .agent rfl

/-! ## What arrives -/

/-- How the `recv_data` of the reader of a session ended, in order. -/
def incoming (n : ℕ) (ms : List (DownlinkMove π μ)) : List RecvData :=
  ms.filterMap fun m => match m with
    | .recvData k x => if k = n then some x else none
    | _ => none

/-- The steps that the agent takes without Obico. -/
def ownSteps (ms : List (DownlinkMove π μ)) : List Label :=
  ms.filterMap fun m => match m with
    | .agent l => some l
    | _ => none

variable (loads) in
/-- The message that the reader of a session has received and not yet handled. -/
def inHand (d : Downlink π μ) (n : ℕ) : Option Dict :=
  (d.hand n).bind fun value => (messageOf loads value).toOption.join

variable (loads) in
/-- The agent has taken its own steps, and has handled what the readers have received: the messages
of each session in order, each once, except for the one in the hand of the reader. -/
structure Handled (a : Agent) (ms : List (DownlinkMove π μ)) (d : Downlink π μ) (ls : List Label)
    (handled : List (ℕ × Dict)) : Prop where
  run : d.agent = a.run ls
  own : ls.filter (fun l => l.message?.isNone) = ownSteps ms
  messages : ls.filterMap Label.message? = handled.map Prod.snd
  sessions : ∀ n, (handled.filter fun h => h.1 = n).map Prod.snd ++ (d.inHand loads n).toList =
    (incoming n ms).filterMap (RecvData.message? loads)

variable (loads) in
/-- The invariant. -/
structure Arrived (a : Agent) (ms : List (DownlinkMove π μ)) (d : Downlink π μ) : Prop where
  server : ∃ ss, Run (ofPartial ObicoServer.step) {} ss d.server
  held : ∀ n, d.hand n ≠ none → d.server.readers n = .dispatching
  handled : ∃ ls handled, Handled loads a ms d ls handled
  closed : ∀ n, d.server.TokenClosed n ↔ ∃ x ∈ incoming n ms, x.ClosesSharedToken

theorem arrived_initial (a : Agent) :
    Arrived loads a [] ({ agent := a } : Downlink π μ) where
  server := ⟨[], .nil⟩
  held n hn := absurd rfl hn
  handled := ⟨[], [], rfl, rfl, rfl, fun n => rfl⟩
  closed n := by simp [ObicoServer.TokenClosed, incoming]

section Lists

variable {n k : ℕ} {x : RecvData} {ms : List (DownlinkMove π μ)}

omit [DecidableEq π] in
theorem incoming_recvData : incoming n (ms ++ [DownlinkMove.recvData k x]) =
    incoming n ms ++ if k = n then [x] else [] := by
  rw [incoming, List.filterMap_append, incoming]
  split_ifs with hk <;> simp [hk]

omit [DecidableEq π] in
theorem incoming_other (h : ∀ k x, m ≠ .recvData k x) :
    incoming n (ms ++ [m]) = incoming n ms := by
  rw [incoming, List.filterMap_append, incoming]
  cases m with
  | recvData k x => exact absurd rfl (h k x)
  | _ => simp

omit [DecidableEq π] in
theorem ownSteps_agent (l : Label) :
    ownSteps (ms ++ [(DownlinkMove.agent l : DownlinkMove π μ)]) = ownSteps ms ++ [l] := by
  simp [ownSteps]

omit [DecidableEq π] in
theorem ownSteps_other (h : ∀ l, m ≠ .agent l) : ownSteps (ms ++ [m]) = ownSteps ms := by
  rw [ownSteps, List.filterMap_append, ownSteps]
  cases m with
  | agent l => exact absurd rfl (h l)
  | _ => simp

end Lists

/-- A step of another thread than the readers leaves what they record, and who is dispatching. -/
theorem reader_of_other {s t : ObicoServer π μ} {m : ServerMove π μ} (hc : s.Consistent)
    (hm : s.step m = some t) (hreceive : ∀ n r, m ≠ .receive n r)
    (hdispatch : ∀ n r, m ≠ .dispatch n r) :
    t.failure = s.failure ∧ ∀ n, s.readers n = .dispatching → t.readers n = .dispatching := by
  cases ObicoServer.stepped hm with
  | connect hplace =>
    refine ⟨rfl, fun n hn => ?_⟩
    have hne : n ≠ s.attempts := by
      rintro rfl
      rw [hc.unstarted _ (.inr ⟨rfl, hplace⟩)] at hn
      cases hn
    simpa [ObicoServer.go, ObicoServer.moveReader, hne] using hn
  | @readerStops k hreader | @readerGoesOn k hreader =>
    refine ⟨rfl, fun n hn => ?_⟩
    have hne : n ≠ k := by
      rintro rfl
      rw [hreader] at hn
      cases hn
    simpa [ObicoServer.moveReader, hne] using hn
  | frame => exact absurd rfl (hreceive _ _)
  | noFrame => exact absurd rfl (hreceive _ _)
  | failed => exact absurd rfl (hreceive _ _)
  | dispatched => exact absurd rfl (hdispatch _ _)
  | dispatchRaises => exact absurd rfl (hdispatch _ _)
  | _ => exact ⟨rfl, fun n hn => hn⟩

variable {a : Agent} {ms : List (DownlinkMove π μ)} {ls : List Label} {handled : List (ℕ × Dict)}
  {n : ℕ} {x : RecvData}

omit [DecidableEq π] in
/-- A `recv_data` ends, and the reader has what it brings. -/
theorem Handled.recvData (h : Handled loads a ms d ls handled) (hagent : d'.agent = d.agent)
    (hhand : ∀ k, (d'.inHand loads k).toList =
      (d.inHand loads k).toList ++ if n = k then (x.message? loads).toList else []) :
    Handled loads a (ms ++ [.recvData n x]) d' ls handled := by
  refine ⟨hagent.trans h.run, h.own.trans (ownSteps_other (by simp)).symm, h.messages, fun k => ?_⟩
  rw [hhand, ← List.append_assoc, h.sessions k, incoming_recvData, List.filterMap_append]
  split_ifs <;> cases hx : x.message? loads <;> simp [hx]

omit [DecidableEq π] in
/-- A step that brings nothing and handles nothing. -/
theorem Handled.other (h : Handled loads a ms d ls handled) (hagent : d'.agent = d.agent)
    (hhand : ∀ k, d'.inHand loads k = d.inHand loads k) (hrecv : ∀ k x, m ≠ .recvData k x)
    (hown : ∀ l, m ≠ .agent l) : Handled loads a (ms ++ [m]) d' ls handled := by
  refine ⟨hagent.trans h.run, h.own.trans (ownSteps_other hown).symm, h.messages, fun k => ?_⟩
  rw [hhand, incoming_other hrecv]
  exact h.sessions k

omit [DecidableEq π] in
theorem inHand_move (server : ObicoServer π μ) (value : Option RecvValue) (k : ℕ) :
    (d.move server n value).inHand loads k =
      if k = n then value.bind fun v => (messageOf loads v).toOption.join
      else d.inHand loads k := by
  by_cases hk : k = n
  · subst hk
    simp [inHand, move]
  · simp [inHand, move, hk]

omit [DecidableEq π] in
/-- A message is handled. -/
theorem Handled.handle (h : Handled loads a ms d ls handled) {message : Dict}
    (hhand : d.inHand loads n = some message) (server : ObicoServer π μ) :
    Handled loads a (ms ++ [.dispatch n])
      { d.move server n none with agent := d.agent.step (.message message) }
      (ls ++ [.message message]) (handled ++ [(n, message)]) := by
  refine ⟨?_, ?_, ?_, fun k => ?_⟩
  · rw [h.run, Agent.run, Agent.run, List.foldl_append]
    rfl
  · rw [List.filter_append, h.own, ownSteps_other (by simp)]
    exact List.append_nil _
  · rw [List.filterMap_append, h.messages, List.map_append]
    rfl
  · have hinHand : ({ d.move server n none with agent := d.agent.step (.message message) } :
        Downlink π μ).inHand loads k = if k = n then none else d.inHand loads k :=
      inHand_move server none k
    rw [incoming_other (by simp), ← h.sessions k, hinHand, List.filter_append]
    by_cases hk : k = n
    · subst hk
      simp [hhand]
    · simp [hk, Ne.symm hk]

omit [DecidableEq π] in
theorem Handled.agent (h : Handled loads a ms d ls handled) {l : Label} (hl : l.message? = none) :
    Handled loads a (ms ++ [.agent l]) { d with agent := d.agent.step l } (ls ++ [l]) handled := by
  refine ⟨?_, ?_, ?_, fun k => ?_⟩
  · rw [h.run, Agent.run, Agent.run, List.foldl_append]
    rfl
  · rw [List.filter_append, h.own, ownSteps_agent]
    simp [hl]
  · rw [List.filterMap_append, h.messages]
    simp [hl]
  · rw [incoming_other (by simp)]
    exact h.sessions k

omit [DecidableEq π] in
/-- The closing frames, after a `recv_data`. -/
theorem closed_recvData {s t : ObicoServer π μ}
    (h : ∀ k, s.TokenClosed k ↔ ∃ x ∈ incoming k ms, x.ClosesSharedToken)
    (ht : ∀ k, t.TokenClosed k ↔ s.TokenClosed k ∨ k = n ∧ x.ClosesSharedToken) (k : ℕ) :
    t.TokenClosed k ↔ ∃ y ∈ incoming k (ms ++ [.recvData n x]), y.ClosesSharedToken := by
  rw [ht, h, incoming_recvData]
  by_cases hk : k = n
  · subst hk
    simp [or_and_right, exists_or]
  · simp [hk, Ne.symm hk]

/-- A reader that isn't dispatching holds nothing, so that the others hold on to what they have. -/
theorem Arrived.moveReader (h : Arrived loads a ms d) {r : ReaderThread}
    (hreader : d.server.readers n ≠ .dispatching) : d.hand n = none ∧
      ∀ k, d.hand k ≠ none → (d.server.moveReader n r).readers k = .dispatching := by
  have hnone : d.hand n = none := by
    by_contra hhand
    exact hreader (h.held n hhand)
  refine ⟨hnone, fun k hk => ?_⟩
  have hne : k ≠ n := by
    rintro rfl
    exact hk hnone
  simpa [ObicoServer.moveReader, hne] using h.held k hk

theorem Arrived.step (h : Arrived loads a ms d) (hm : d.step loads m = some d') :
    Arrived loads a (ms ++ [m]) d' := by
  obtain ⟨⟨ss, hrun⟩, hheld, ⟨ls, handled, hh⟩, hclosed⟩ := id h
  have hc : d.server.Consistent :=
    hrun.invariant ObicoServer.consistent_initial fun _ _ _ hs hm => hs.step hm
  cases stepped hm with
  | @waits n x hturn =>
    have hnone : x.message? loads = none := by rw [RecvData.message?, hturn]
    have hopen : ¬ x.ClosesSharedToken := by rw [closesSharedToken_iff, hturn]; simp
    refine ⟨⟨ss, hrun⟩, hheld, ⟨ls, handled, hh.recvData rfl fun k => ?_⟩,
      closed_recvData hclosed fun k => (or_iff_left fun hx => hopen hx.2).symm⟩
    simp [hnone]
  | @receives n x value server hturn hserver =>
    have hopen : ¬ x.ClosesSharedToken := by rw [closesSharedToken_iff, hturn]; simp
    cases ObicoServer.stepped hserver with
    | frame hreader =>
      obtain ⟨hempty, hheld'⟩ := h.moveReader (n := n) (r := .dispatching) (by simp [hreader])
      refine ⟨⟨_, hrun.snoc hserver⟩, fun k hk => ?_,
        ⟨ls, handled, hh.recvData rfl fun k => ?_⟩,
        closed_recvData hclosed fun k => (or_iff_left fun hx => hopen hx.2).symm⟩
      · by_cases hkn : k = n
        · subst hkn
          simp [move, ObicoServer.moveReader]
        · exact hheld' k (by simpa [move, hkn] using hk)
      · rw [inHand_move]
        by_cases hkn : k = n
        · subst hkn
          simp [RecvData.message?, hturn, inHand, hempty]
        · simp [hkn, Ne.symm hkn]
  | @timesOut n x server hturn hserver =>
    have hnone : x.message? loads = none := by rw [RecvData.message?, hturn]
    have hopen : ¬ x.ClosesSharedToken := by rw [closesSharedToken_iff, hturn]; simp
    cases ObicoServer.stepped hserver with
    | noFrame hreader =>
      obtain ⟨-, hheld'⟩ := h.moveReader (n := n) (r := .testing) (by simp [hreader])
      refine ⟨⟨_, hrun.snoc hserver⟩, hheld', ⟨ls, handled, hh.recvData rfl fun k => ?_⟩,
        closed_recvData hclosed fun k => (or_iff_left fun hx => hopen hx.2).symm⟩
      simp [hnone, inHand]
  | @fails n x e server hturn hserver =>
    have hnone : x.message? loads = none := by rw [RecvData.message?, hturn]
    cases ObicoServer.stepped hserver with
    | failed hreader =>
      obtain ⟨-, hheld'⟩ := h.moveReader (n := n) (r := .ended) (by simp [hreader])
      refine ⟨⟨_, hrun.snoc hserver⟩, hheld', ⟨ls, handled, hh.recvData rfl fun k => ?_⟩,
        closed_recvData hclosed fun k => ?_⟩
      · simp [hnone, inHand]
      · rw [ObicoServer.tokenClosed_failed, closesSharedToken_iff, hturn]
        simp
  | @ignores n value raises server hhand hnone hserver =>
    have hinHand : d.inHand loads n = none := by rw [inHand, hhand]; exact hnone
    have hmoves : ∃ r, server = d.server.moveReader n r := by
      cases ObicoServer.stepped hserver with
      | dispatched => exact ⟨_, rfl⟩
      | dispatchRaises => exact ⟨_, rfl⟩
    obtain ⟨r, rfl⟩ := hmoves
    refine ⟨⟨_, hrun.snoc hserver⟩, fun k hk => ?_,
      ⟨ls, handled, hh.other rfl (fun k => ?_) (by simp) (by simp)⟩, fun k => ?_⟩
    · have hkn : k ≠ n := by
        rintro rfl
        simp [move] at hk
      simpa [move, ObicoServer.moveReader, hkn] using hheld k (by simpa [move, hkn] using hk)
    · rw [inHand_move]
      split_ifs with hkn
      · rw [hkn, hinHand]
        rfl
      · rfl
    · rw [incoming_other (by simp)]
      exact hclosed k
  | @handles n value message server hhand hmessage hserver =>
    have hinHand : d.inHand loads n = some message := by
      rw [inHand, hhand, Option.bind_some, hmessage]
      rfl
    cases ObicoServer.stepped hserver with
    | dispatched hreader =>
      refine ⟨⟨_, hrun.snoc hserver⟩, fun k hk => ?_, ⟨_, _, hh.handle hinHand _⟩, fun k => ?_⟩
      · have hkn : k ≠ n := by
          rintro rfl
          simp [move] at hk
        simpa [move, ObicoServer.moveReader, hkn] using hheld k (by simpa [move, hkn] using hk)
      · rw [incoming_other (by simp)]
        exact hclosed k
  | @server m server hreceive hdispatch hserver =>
    obtain ⟨hfailure, hreaders⟩ := reader_of_other hc hserver hreceive hdispatch
    refine ⟨⟨_, hrun.snoc hserver⟩, fun k hk => hreaders k (hheld k hk),
      ⟨ls, handled, hh.other rfl (fun _ => rfl) (by simp) (by simp)⟩, fun k => ?_⟩
    rw [incoming_other (by simp), ← hclosed, ObicoServer.TokenClosed, ObicoServer.TokenClosed,
      hfailure]
  | @agent l hl =>
    refine ⟨⟨ss, hrun⟩, hheld, ⟨_, handled, hh.agent hl⟩, fun k => ?_⟩
    rw [incoming_other (by simp)]
    exact hclosed k

variable (loads) in
/-- **The messages of Obico arrive.** A run of the websocket and the agent is a run of each. What
the agent has handled is what the text frames of each session say, in order and each once, but for
the last, which its reader may have in hand; all other steps of the agent are its own. A session has
been closed with code 4321 exactly when a close frame says so. -/
theorem messages_arrive (h : Run (ofPartial (step loads)) { agent := a } ms d) :
    (∃ ss, Run (ofPartial ObicoServer.step) {} ss d.server) ∧
      (∃ ls handled, Handled loads a ms d ls handled) ∧
      ∀ n, d.server.TokenClosed n ↔ ∃ x ∈ incoming n ms, x.ClosesSharedToken := by
  have harrived : Arrived loads a ms d :=
    h.history (I := fun ms d => Arrived loads a ms d) (arrived_initial a)
      fun _ _ _ _ hs hm => hs.step hm
  exact ⟨harrived.server, harrived.handled, harrived.closed⟩

/-- A message that asks for a pause, as text. -/
def pauseText : List Char := "\x7b\"commands\": [\x7b\"cmd\": \"pause\"\x7d]\x7d".toList

/-- That message. -/
def pauseMessage : Dict := [("commands", .arr [.obj [("cmd", .str "pause")]])]

/-- `json.loads`, on that text. -/
def pauseLoads (text : List Char) : Except LoadsError Json :=
  if text = pauseText then .ok (.obj pauseMessage) else .error .valueError

/-- A session receives a ping and the message, and is closed with code 4321. -/
def pausing : List (DownlinkMove Unit ℕ) :=
  [.server .testRun, .server .connect, .server (.readerTest 1), .recvData 1 (.frame 0x9 []),
    .recvData 1 (.frame opcodeText (ascii pauseText)), .dispatch 1, .server (.readerTest 1),
    .recvData 1 (.frame opcodeClose [0x10, 0xE1])]

theorem pause_arrives : ∃ d ∈ pausing.foldlM (step pauseLoads)
      ({ agent := Agent.bare } : Downlink Unit ℕ),
    (∃ ls handled, Handled pauseLoads Agent.bare pausing d ls handled) ∧
      d.server.TokenClosed 1 ∧ d.agent.commands = [.pause] := by
  have hrun : Run (ofPartial (step pauseLoads)) ({ agent := Agent.bare } : Downlink Unit ℕ)
      pausing _ := run_ofPartial.mpr rfl
  obtain ⟨-, hhandled, hclosed⟩ := messages_arrive pauseLoads hrun
  refine ⟨_, rfl, hhandled, (hclosed 1).mpr ?_, rfl⟩
  exact ⟨.frame opcodeClose [0x10, 0xE1], by simp [incoming, pausing], _, rfl, rfl⟩

end Downlink

end Downlink

end FlashforgeObico
