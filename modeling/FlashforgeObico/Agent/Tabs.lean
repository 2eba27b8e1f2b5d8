import FlashforgeObico.Agent.Attribution
import FlashforgeObico.Agent.StartPrint
import FlashforgeObico.Agent.Page

/-!
# From the tap to the printer

The page is open in any number of tabs, each in a browser of its own. What they post reaches the
agent in any order, or not at all, and is served in threads of its own while the agent polls and
executes commands. `what_is_done_was_tapped` says that each start that the printer is asked for, and
each command that the console queues, is for a request that one of the tabs has posted, and no two
for the same one; a tab has posted a command only while the status permitted it, and, if nothing
that came to it can be taken for markup, a start for two taps on the file only.
-/

namespace FlashforgeObico

open Py Transition Trace

/-- The request of a page that an effect is for. -/
def Effect.asked? : Effect → Option PageRequest
  | .printGcode fileName _ _ => some (.print fileName)
  | .queued .console .pause => some .pause
  | .queued .console .resume => some .resume
  | _ => none

/-- The tabs, the requests that have reached the agent, and the agent with the threads that serve
them. A request is known by its tab and by its place among the requests of the tab. -/
structure Tabs where
  pages : ℕ → Page := fun _ => {}
  arrived : List (ℕ × ℕ) := []
  console : Console (ℕ × ℕ)

/-- A step of a tab, of a thread that serves a request, or of the agent. -/
inductive TabsMove
  | page (t : ℕ) (m : PageMove)
  /-- A request reaches the agent. A start gets this reply to `gcodeList`. -/
  | arrives (id : ℕ × ℕ) (reply : Except FlashforgeError Dict)
  /-- A start that was let pass is requested. -/
  | request (id : ℕ × ℕ) (answer : Except FlashforgeError Unit)
  | agent (l : Label)

/-- The steps of a tab. -/
def movesOf (t : ℕ) (ms : List TabsMove) : List PageMove :=
  ms.filterMap fun m =>
    match m with
    | .page t' m => if t' = t then some m else none
    | _ => none

/-- What the handler of a route does with the agent first, by what the body is decoded to. -/
def Endpoint.move (id : ℕ × ℕ) (reply : Except FlashforgeError Dict) :
    Endpoint → Except RouteError Json → Option (ConsoleMove (ℕ × ℕ))
  | .job, .ok (.str action) => some (.agent (.request action))
  | .print, .ok (.str name) => some (.guard id name reply)
  | _, _ => none

namespace Tabs

/- The browsers of the tabs, `json.loads`, on bytes, and how `JSON.stringify` writes numbers. -/
variable (browser : ℕ → Browser) (loads : Bytes → Except LoadsError Json) (int : ℤ → List Char)
  (float : Double → List Char)

/-- What a request that reaches the agent makes it do. -/
def move (request : PageRequest) (id : ℕ × ℕ) (reply : Except FlashforgeError Dict) :
    Option (ConsoleMove (ℕ × ℕ)) :=
  request.endpoint.move id reply
    (requested loads request.endpoint.key (request.bytes int float))

/-- One step, when it is possible. Each request reaches the agent once at most. -/
def step (s : Tabs) : TabsMove → Option Tabs
  | .page t m =>
    ((s.pages t).step (browser t) m).map fun page => { s with pages := Function.update s.pages t page }
  | .arrives id reply => do
    let request ← (s.pages id.1).sent[id.2]?
    if id ∈ s.arrived then none
    else match move loads int float request id reply with
      | none => some { s with arrived := id :: s.arrived }
      | some m => (s.console.step m).map fun console =>
          { s with arrived := id :: s.arrived, console }
  | .request id answer =>
    (s.console.step (.request id answer)).map fun console => { s with console }
  | .agent (.request _) => none
  | .agent l => (s.console.step (.agent l)).map fun console => { s with console }

end Tabs

/-! ## What the steps do -/

/-- A step of a page only adds to what it has posted. -/
theorem Page.sent_step {b : Browser} {page page' : Page} {m : PageMove}
    (h : page.step b m = some page') :
    ∃ requests, page'.sent = page.sent ++ requests := by
  have hsame {page' : Page} (hsent : page'.sent = page.sent) :
      ∃ requests, page'.sent = page.sent ++ requests := ⟨[], by rw [hsent, List.append_nil]⟩
  cases m with
  | status st =>
    obtain rfl := Option.some.inj h
    apply hsame
    unfold Page.render
    split <;> rfl
  | fetched | startAnswered =>
    obtain ⟨_, -, h⟩ := Option.bind_eq_some_iff.mp h
    obtain rfl := Option.some.inj h
    exact hsame rfl
  | tapFile i fileName =>
    obtain ⟨button, -, h⟩ := Option.bind_eq_some_iff.mp h
    obtain ⟨-, h⟩ := Option.ite_none_right_eq_some.mp h
    obtain rfl := Option.some.inj h
    unfold Page.tap
    cases decodeURIComponent button.dataFile with
    | none => exact hsame rfl
    | some text =>
      dsimp only
      split_ifs
      · exact hsame rfl
      · exact ⟨_, rfl⟩
  | armExpires | redraw | postAnswered | settled =>
    obtain ⟨-, h⟩ := Option.ite_none_right_eq_some.mp h
    obtain rfl := Option.some.inj h
    exact hsame rfl
  | press request =>
    obtain ⟨-, h⟩ := Option.ite_none_right_eq_some.mp h
    obtain rfl := Option.some.inj h
    exact ⟨_, rfl⟩

namespace Console

variable {γ : Type} [DecidableEq γ] {s t : Console γ} {c : γ} {fileName : String}

theorem step_agent {l : Label} (h : s.step (.agent l) = some t) :
    s.agent.exited = false ∧ t = { s with agent := s.agent.step l } := by
  obtain ⟨hx, h⟩ := Option.ite_none_left_eq_some.mp h
  exact ⟨Bool.eq_false_iff.mpr hx, (Option.some.inj h).symm⟩

/-- A guard that lets no start pass changes nothing. -/
theorem step_guard {reply : Except FlashforgeError Dict}
    (h : s.step (.guard c fileName reply) = some t) :
    t = s ∨ ∃ mappings mark, t =
      { s with clients := Function.update s.clients c (.cleared fileName mappings mark) } := by
  obtain ⟨-, h⟩ := Option.ite_none_left_eq_some.mp h
  have hsame := Agent.guardStart_same fileName reply s.agent
  dsimp only at h
  rcases hc : s.clients c with _ | _ <;> rw [hc] at h
  · rcases hg : Agent.guardStart fileName reply s.agent with ⟨e | refusal | mappings, a⟩ <;>
      rw [hg] at h hsame <;> obtain rfl : a = s.agent := hsame <;> cases h
    · exact .inl rfl
    · exact .inl rfl
    · exact .inr ⟨mappings, _, rfl⟩
  · cases h

theorem step_request {answer : Except FlashforgeError Unit}
    (h : s.step (.request c answer) = some t) :
    ∃ fileName mappings mark, s.clients c = .cleared fileName mappings mark ∧ t =
      { agent := s.agent.log [.printGcode fileName mappings answer.toBool]
        clients := Function.update s.clients c .idle } := by
  obtain ⟨-, h⟩ := Option.ite_none_left_eq_some.mp h
  dsimp only at h
  rcases hc : s.clients c with _ | ⟨fileName, mappings, mark⟩ <;> rw [hc] at h <;> cases h
  refine ⟨fileName, mappings, mark, rfl, ?_⟩
  unfold Agent.requestStart
  rw [Agent.emit_bind]
  cases answer <;> rfl

end Console

namespace Agent

variable {a : Agent}

/-- A step that nobody asks for in a tab does nothing that is asked for there. -/
theorem asked_step {l : Label} (hl : ∀ cmd, l ≠ .request cmd) :
    (a.step l).trace.filterMap Effect.asked? = a.trace.filterMap Effect.asked? := by
  obtain ⟨es, htrace, hstarts⟩ := step_starts_nothing a l
  obtain ⟨es', htrace', hqueued⟩ := queued_step a l
  obtain rfl : es = es' := List.append_cancel_left (htrace.symm.trans htrace')
  have hobico : ∀ p ∈ l.asks, p.1 = .obico := by
    cases l with
    | request cmd => exact absurd rfl (hl cmd)
    | message m =>
      intro p hp
      obtain ⟨cmd, -, rfl⟩ := List.mem_map.mp hp
      rfl
    | _ => simp [Label.asks]
  have hnone : es.filterMap Effect.asked? = [] := by
    refine List.filterMap_eq_nil_iff.mpr fun e he => ?_
    cases e with
    | printGcode => cases hstarts _ he
    | queued source cmd =>
      have hmem : (source, cmd) ∈ es.filterMap Effect.queued? :=
        List.mem_filterMap.mpr ⟨_, he, rfl⟩
      obtain rfl : source = .obico := hobico _ (hqueued.subset hmem)
      rfl
    | _ => rfl
  rw [htrace, List.filterMap_append, hnone, List.append_nil]

/-- A request of the console is queued as it is. -/
theorem asked_step_request {request : PageRequest} {action : String} (hx : a.exited = false)
    (hjob : request.endpoint = .job) (haction : request.value = .str action) :
    (a.step (.request action)).trace.filterMap Effect.asked? =
      a.trace.filterMap Effect.asked? ++ [request] := by
  have hstep : a.step (.request action) = (requestCommand action a).2 := by
    rw [step, if_neg (by simp [hx])]
  rw [hstep, requestCommand_eq]
  cases request with
  | pause | resume =>
    obtain rfl := Json.str.inj haction
    simp [enqueueAll, Label.asks, Effect.asked?]
  | _ => cases hjob

end Agent

/-! ## The account of the requests -/

namespace Tabs

/-- What was done is accounted for by distinct requests that have arrived, and each start that the
guard has let pass is for another one. -/
structure Accounted (s : Tabs) (ids : List (ℕ × ℕ)) : Prop where
  nodup : ids.Nodup
  arrived : ∀ id ∈ ids, id ∈ s.arrived
  asked : List.Forall₂ (fun request id => (s.pages id.1).sent[id.2]? = some request)
    (s.console.agent.trace.filterMap Effect.asked?) ids
  cleared : ∀ id fileName mappings mark,
    s.console.clients id = .cleared fileName mappings mark →
      id ∈ s.arrived ∧ id ∉ ids ∧ (s.pages id.1).sent[id.2]? = some (.print fileName)

variable {browser : ℕ → Browser} {limit : ℕ} {loads : Bytes → Except LoadsError Json}
  {int : ℤ → List Char} {float : Double → List Char} {s s' : Tabs} {m : TabsMove}
  {ms : List TabsMove} {ids : List (ℕ × ℕ)} {id : ℕ × ℕ} {request : PageRequest}

/-- What a page posts makes the agent do what was tapped. -/
theorem move_eq (hloads : LoadsUtf8 limit loads) (hlimit : 1 ≤ limit) (request : PageRequest)
    (id : ℕ × ℕ) (reply : Except FlashforgeError Dict) : move loads int float request id reply =
      match request with
      | .pause => some (.agent (.request "pause"))
      | .resume => some (.agent (.request "resume"))
      | .light _ => none
      | .print fileName => some (.guard id fileName reply) := by
  rw [move, PageRequest.requested_bytes hloads hlimit]
  cases request <;> rfl

namespace Accounted

/-- The page has posted something more. -/
theorem page (h : Accounted s ids) {t : ℕ} {page : Page} {requests : List PageRequest}
    (hsent : page.sent = (s.pages t).sent ++ requests) :
    Accounted { s with pages := Function.update s.pages t page } ids := by
  have hkept {id : ℕ × ℕ} {request : PageRequest}
      (hid : (s.pages id.1).sent[id.2]? = some request) :
      (Function.update s.pages t page id.1).sent[id.2]? = some request := by
    rcases eq_or_ne id.1 t with rfl | hne
    · rw [Function.update_self, hsent,
        List.getElem?_append_left (List.getElem?_eq_some_iff.mp hid).1]
      exact hid
    · rw [Function.update_of_ne hne]
      exact hid
  refine ⟨h.nodup, h.arrived, h.asked.imp fun _ _ hid => hkept hid, ?_⟩
  intro id fileName mappings mark hc
  obtain ⟨harrived, hnew, hid⟩ := h.cleared id fileName mappings mark hc
  exact ⟨harrived, hnew, hkept hid⟩

/-- A request arrives, and nothing is done for it so far. -/
theorem arrive (h : Accounted s ids) (id : ℕ × ℕ) :
    Accounted { s with arrived := id :: s.arrived } ids := by
  refine ⟨h.nodup, fun id' hid' => List.mem_cons_of_mem _ (h.arrived id' hid'), h.asked, ?_⟩
  intro id' fileName mappings mark hc
  obtain ⟨harrived, hnew, hid'⟩ := h.cleared id' fileName mappings mark hc
  exact ⟨List.mem_cons_of_mem _ harrived, hnew, hid'⟩

/-- Something is done for a request for which nothing was done before. -/
theorem asks (h : Accounted s ids) {console : Console (ℕ × ℕ)}
    (hsent : (s.pages id.1).sent[id.2]? = some request) (harrived : id ∈ s.arrived)
    (hnew : id ∉ ids)
    (hasked : console.agent.trace.filterMap Effect.asked? =
      s.console.agent.trace.filterMap Effect.asked? ++ [request])
    (hclients : ∀ id' fileName mappings mark,
      console.clients id' = .cleared fileName mappings mark →
        id' ≠ id ∧ s.console.clients id' = .cleared fileName mappings mark) :
    Accounted { s with console } (ids ++ [id]) := by
  refine ⟨?_, ?_, ?_, ?_⟩
  · rw [List.nodup_append_comm, List.singleton_append]
    exact List.nodup_cons.mpr ⟨hnew, h.nodup⟩
  · exact List.forall_mem_append.mpr ⟨h.arrived, List.forall_mem_singleton.mpr harrived⟩
  · dsimp only
    rw [hasked]
    exact List.rel_append h.asked (.cons hsent .nil)
  · intro id' fileName mappings mark hc
    obtain ⟨hne, hc'⟩ := hclients id' fileName mappings mark hc
    obtain ⟨harrived', hnew', hid'⟩ := h.cleared id' fileName mappings mark hc'
    refine ⟨harrived', ?_, hid'⟩
    rw [List.mem_append, List.mem_singleton, not_or]
    exact ⟨hnew', hne⟩

/-- The guard of a start that has arrived lets it pass. -/
theorem clear (h : Accounted s ids) {fileName : String} {mappings : List MaterialMapping}
    {mark : ℕ} (hsent : (s.pages id.1).sent[id.2]? = some (.print fileName))
    (harrived : id ∈ s.arrived) (hnew : id ∉ ids) :
    Accounted { s with console := { s.console with
      clients := Function.update s.console.clients id (.cleared fileName mappings mark) } } ids := by
  refine ⟨h.nodup, h.arrived, h.asked, fun id' fileName' mappings' mark' hc => ?_⟩
  rcases eq_or_ne id' id with rfl | hne
  · have hname : fileName = fileName' := by
      have hcleared : Client.cleared fileName mappings mark = .cleared fileName' mappings' mark' := by
        simpa using hc
      exact (Client.cleared.inj hcleared).1
    subst hname
    exact ⟨harrived, hnew, hsent⟩
  · exact h.cleared id' fileName' mappings' mark' (by simpa [Function.update_of_ne hne] using hc)

/-- A request reaches the agent. -/
theorem arrives (h : Accounted s ids) (hloads : LoadsUtf8 limit loads) (hlimit : 1 ≤ limit)
    {reply : Except FlashforgeError Dict}
    (hstep : s.step browser loads int float (.arrives id reply) = some s') :
    ∃ ids', Accounted s' ids' := by
  obtain ⟨request, hsent, hstep⟩ := Option.bind_eq_some_iff.mp hstep
  obtain ⟨hnew, hstep⟩ := Option.ite_none_left_eq_some.mp hstep
  rw [move_eq hloads hlimit] at hstep
  have harrive := h.arrive id
  have hfresh : id ∉ ids := fun hid => hnew (h.arrived id hid)
  have hcommand {action : String} (hjob : request.endpoint = .job)
      (haction : request.value = .str action)
      (hstep : (s.console.step (.agent (.request action))).map (fun console =>
        { s with arrived := id :: s.arrived, console }) = some s') : ∃ ids', Accounted s' ids' := by
    obtain ⟨console, hconsole, rfl⟩ := Option.map_eq_some_iff.mp hstep
    obtain ⟨hx, rfl⟩ := Console.step_agent hconsole
    refine ⟨ids ++ [id], harrive.asks hsent List.mem_cons_self hfresh
      (Agent.asked_step_request hx hjob haction) fun id' fileName mappings mark hc => ⟨?_, hc⟩⟩
    rintro rfl
    exact hnew (h.cleared _ fileName mappings mark hc).1
  cases request with
  | pause => exact hcommand rfl rfl hstep
  | resume => exact hcommand rfl rfl hstep
  | light on =>
    obtain rfl := Option.some.inj hstep
    exact ⟨ids, harrive⟩
  | print fileName =>
    obtain ⟨console, hconsole, rfl⟩ := Option.map_eq_some_iff.mp hstep
    rcases Console.step_guard hconsole with rfl | ⟨mappings, mark, rfl⟩
    · exact ⟨ids, harrive⟩
    · exact ⟨ids, harrive.clear hsent List.mem_cons_self hfresh⟩

theorem step (h : Accounted s ids) (hloads : LoadsUtf8 limit loads) (hlimit : 1 ≤ limit)
    (hstep : s.step browser loads int float m = some s') : ∃ ids', Accounted s' ids' := by
  cases m with
  | page t m =>
    obtain ⟨page, hpage, rfl⟩ := Option.map_eq_some_iff.mp hstep
    obtain ⟨requests, hsent⟩ := Page.sent_step hpage
    exact ⟨ids, h.page hsent⟩
  | arrives id reply => exact h.arrives hloads hlimit hstep
  | request id answer =>
    obtain ⟨console, hconsole, rfl⟩ := Option.map_eq_some_iff.mp hstep
    obtain ⟨fileName, mappings, mark, hc, rfl⟩ := Console.step_request hconsole
    obtain ⟨harrived, hnew, hsent⟩ := h.cleared id fileName mappings mark hc
    refine ⟨ids ++ [id], h.asks hsent harrived hnew ?_ fun id' fileName' mappings' mark' hc' => ?_⟩
    · dsimp only
      rw [Agent.log_trace, List.filterMap_append]
      rfl
    · rcases eq_or_ne id' id with rfl | hne
      · simp at hc'
      · exact ⟨hne, by simpa [Function.update_of_ne hne] using hc'⟩
  | agent l =>
    have hagent (hl : ∀ cmd, l ≠ .request cmd)
        (hstep : (s.console.step (.agent l)).map (fun console => { s with console }) = some s') :
        ∃ ids', Accounted s' ids' := by
      obtain ⟨console, hconsole, rfl⟩ := Option.map_eq_some_iff.mp hstep
      obtain ⟨-, rfl⟩ := Console.step_agent hconsole
      refine ⟨ids, h.nodup, h.arrived, ?_, h.cleared⟩
      dsimp only
      rw [Agent.asked_step hl]
      exact h.asked
    cases l with
    | request cmd => cases hstep
    | _ => exact hagent (fun _ => nofun) hstep

end Accounted

/-- A run of the tabs is a run of each of them. -/
theorem run_page (h : Run (ofPartial (step browser loads int float)) s ms s') (t : ℕ) :
    Run (ofPartial (Page.step (browser t))) (s.pages t) (movesOf t ms) (s'.pages t) := by
  have hquiet {ms : List TabsMove} {s₁ s₂ : Tabs} {m : TabsMove}
      (hrun : Run (ofPartial (Page.step (browser t))) (s.pages t) (movesOf t ms) (s₁.pages t))
      (hpages : s₂.pages = s₁.pages) (hm : movesOf t [m] = []) :
      Run (ofPartial (Page.step (browser t))) (s.pages t) (movesOf t (ms ++ [m])) (s₂.pages t) := by
    rw [movesOf, List.filterMap_append, hpages]
    change Run _ _ (movesOf t ms ++ movesOf t [m]) _
    rw [hm, List.append_nil]
    exact hrun
  refine h.history (I := fun ms s' =>
    Run (ofPartial (Page.step (browser t))) (s.pages t) (movesOf t ms) (s'.pages t)) .nil
    fun ms s₁ m s₂ hrun hstep => ?_
  cases m with
  | page t' m =>
    obtain ⟨page, hpage, rfl⟩ := Option.map_eq_some_iff.mp hstep
    rcases eq_or_ne t' t with rfl | hne
    · have hmoves : movesOf t' (ms ++ [.page t' m]) = movesOf t' ms ++ [m] := by
        simp [movesOf]
      rw [hmoves]
      dsimp only
      rw [Function.update_self]
      exact hrun.snoc hpage
    · have hmoves : movesOf t [.page t' m] = [] := by simp [movesOf, hne]
      have hsame : Function.update s₁.pages t' page t = s₁.pages t :=
        Function.update_of_ne hne.symm page s₁.pages
      rw [movesOf, List.filterMap_append]
      change Run _ _ (movesOf t ms ++ movesOf t [.page t' m]) (Function.update s₁.pages t' page t)
      rw [hmoves, List.append_nil, hsame]
      exact hrun
  | arrives id reply =>
    obtain ⟨request, -, hstep⟩ := Option.bind_eq_some_iff.mp hstep
    obtain ⟨-, hstep⟩ := Option.ite_none_left_eq_some.mp hstep
    split at hstep
    · obtain rfl := Option.some.inj hstep
      exact hquiet hrun rfl rfl
    · obtain ⟨console, -, rfl⟩ := Option.map_eq_some_iff.mp hstep
      exact hquiet hrun rfl rfl
  | request id answer =>
    obtain ⟨console, -, rfl⟩ := Option.map_eq_some_iff.mp hstep
    exact hquiet hrun rfl rfl
  | agent l =>
    cases l with
    | request cmd => cases hstep
    | _ =>
      obtain ⟨console, -, rfl⟩ := Option.map_eq_some_iff.mp hstep
      exact hquiet hrun rfl rfl

/-- **What is done was tapped.** In every run of the tabs and the agent, the starts that the printer
is asked for and the commands that the console queues are, one for one, for distinct requests of
the tabs. A tap has posted "Pause", "Resume" and the light only where the newest status permitted
it. If nothing that came to a tab can be taken for markup, the tab has posted a start for two taps
on the file only. -/
theorem what_is_done_was_tapped (hloads : LoadsUtf8 limit loads) (hlimit : 1 ≤ limit)
    (config : Config) (cameras : List Camera) (reserver : Option (List Camera))
    (h : Run (ofPartial (step browser loads int float))
      { console := Console.atRest (Agent.initial config cameras reserver) } ms s) :
    (∃ ids : List (ℕ × ℕ), ids.Nodup ∧
      List.Forall₂ (fun request id => (s.pages id.1).sent[id.2]? = some request)
        (s.console.agent.trace.filterMap Effect.asked?) ids) ∧
      ∀ t, (s.pages t).pressed = (movesOf t ms).filterMap PageMove.press? ∧
        Along FollowsStatus (movesOf t ms) ∧
        ((∀ m ∈ movesOf t ms, m.Plain) →
          (s.pages t).starts = confirmed (Page.touches (movesOf t ms))) := by
  refine ⟨?_, fun t => ?_⟩
  · have haccounted : ∃ ids, Accounted s ids :=
      h.invariant (I := fun s => ∃ ids, Accounted s ids)
        ⟨[], List.nodup_nil, nofun, .nil, nofun⟩ fun s₁ m s₂ ⟨ids, hs⟩ hstep =>
          hs.step hloads hlimit hstep
    obtain ⟨ids, hids⟩ := haccounted
    exact ⟨ids, hids.nodup, hids.asked⟩
  · have hrun := run_page h t
    obtain ⟨halong, hcontrolled⟩ := Page.Controlled.run hrun
    exact ⟨hcontrolled.pressed, halong, fun hplain => (Page.Confirms.run hrun hplain).starts⟩

end Tabs

/-- A file is tapped in one tab, and another one twice in a second tab. -/
def tapping : List TabsMove :=
  .agent (.quietPoll (.ok (detailOf "ready" "")) 0) ::
    .page 0 (.status (statusWith (printerIn "ready"))) ::
    .page 0 (.fetched 0 (some [storedAs "a.gcode", storedAs "b.gcode"])) ::
    .page 0 (.tapFile 0 "a.gcode") :: twoTaps.map (.page 1) ++
  [.arrives (1, 0) (.ok [("gcodeList", .arr [.str "a.gcode", .str "b.gcode"])]),
    .request (1, 0) (.ok ())]

/-- The second one is started. -/
theorem second_tab_starts_its_file : ∃ s : Tabs,
    s.console.agent.trace.filterMap Effect.asked? = [.print "b.gcode"] ∧
      ∃ ids : List (ℕ × ℕ), ids.Nodup ∧
        List.Forall₂ (fun request id => (s.pages id.1).sent[id.2]? = some request)
          [.print "b.gcode"] ids ∧
      (s.pages 1).starts = confirmed (Page.touches twoTaps) := by
  have hrun : ∃ s ∈ tapping.foldlM (Tabs.step (fun _ => .plain) (utf8Loads 1) intText fun _ => [])
      { console := Console.atRest (Agent.initial
        { publicHost := "10.0.0.2", reservePort := 8081 } [] none) },
      s.console.agent.trace.filterMap Effect.asked? = [.print "b.gcode"] := by decide +kernel
  obtain ⟨s, hs, hasked⟩ := hrun
  have hmoves : movesOf 1 tapping = twoTaps := rfl
  have hplain : ∀ m ∈ movesOf 1 tapping, m.Plain := by
    rw [hmoves]
    decide +kernel
  obtain ⟨⟨ids, hnodup, hids⟩, htabs⟩ := Tabs.what_is_done_was_tapped (loadsUtf8_utf8Loads 1) le_rfl
    _ _ _ (run_ofPartial.mpr hs)
  obtain ⟨-, -, hstarts⟩ := htabs 1
  exact ⟨s, hasked, ids, hnodup, hasked ▸ hids, hmoves ▸ hstarts hplain⟩

end FlashforgeObico
