import FlashforgeObico.Agent.Frame

/-!
# Reporting a fault

`_report_fault` puts the error code of the snapshot into `_faults_reported` and then posts a
printer event; `post_printer_event` returns whether Obico accepted it, and nobody looks at that. No
code gets two accepted events, and `faults_delivered_iff` says when every recorded code has one and
every fault that still shows is reported as soon as Obico accepts events: exactly when Obico accepts
the event of each code that is recorded.
-/

namespace FlashforgeObico

open Transition

namespace Agent

/-! ## What leaves the faults alone -/

/-- How often the event of a code was posted and accepted, or posted and refused. -/
def posts (a : Agent) (code : String) (accepted : Bool) : ℕ :=
  a.trace.count (.printerEvent (faultEvent code) accepted)

/-- The recorded codes, and the events that were posted for codes. -/
def faults (a : Agent) : List String × (String → Bool → ℕ) := (a.faultsReported, a.posts)

theorem faults_log {es : List Effect}
    (h : ∀ code accepted, .printerEvent (faultEvent code) accepted ∉ es) (a : Agent) :
    (a.log es).faults = a.faults := by
  refine congrArg (Prod.mk _) ?_
  funext code accepted
  rw [posts, log_trace, List.count_append, List.count_eq_zero_of_not_mem (h code accepted),
    Nat.add_zero, posts]

theorem aloof_faults : Aloof faults where
  log {e} he := by
    refine faults_log fun code accepted hmem => ?_
    obtain rfl := List.mem_singleton.mp hmem
    exact he code rfl
  snapshot _ _ := rfl
  failures _ _ := rfl
  pending _ _ := rfl

theorem publish_keeps (now : Time) : (publish now).Keeps faults := by
  intro a
  obtain ⟨ms, hp⟩ := published a now
  have hes : ∀ code accepted, .printerEvent (faultEvent code) accepted ∉
      Effect.observed a.snapshot now (a.observed now).2 ::
        ms.map fun m => .sent m (a.observed now).1 := by simp
  refine Prod.ext (by rw [hp.eq]; rfl) ?_
  have hposts := congrArg Prod.snd (faults_log hes a)
  rw [hp.eq]
  exact hposts

theorem discovered_faults (a : Agent) : a.discovered.faults = a.faults := by
  unfold discovered
  rcases a.snapshot with _ | s
  · rfl
  · dsimp only
    split_ifs <;> rfl

/-! ## What a step records -/

/-- The poll as far as `_report_fault`, and whether it comes there. -/
def beforeReport (reply : DetailReply) (now : Time) : Method Bool := do
  if ← readPrinter reply then
    discoverCamera
    publish now
    return true
  else return false

/-- The error code that the snapshot shows when a poll comes to `_report_fault`. -/
def shownFault (a : Agent) (reply : DetailReply) (now : Time) : Option String :=
  match beforeReport reply now a with
  | (.ok true, b) => (b.snapshot.map PrinterSnapshot.errorCode).filter fun code => code ≠ ""
  | _ => none

/-- The code that a step records, with Obico's answer to its event. -/
def dueFault (a : Agent) : Label → Option (String × Bool)
  | .poll reply now answers _ =>
    if a.exited then none
    else ((a.shownFault reply now).filter fun code => code ∉ a.faultsReported).map
      fun code => (code, answers.accepts (faultEvent code))
  | _ => none

/-- The agent's record, after a code with Obico's answer to its event. -/
def recorded (faults : List String × (String → Bool → ℕ)) :
    Option (String × Bool) → List String × (String → Bool → ℕ)
  | none => faults
  | some due => (faults.1 ++ [due.1],
      fun code accepted => faults.2 code accepted + if due = (code, accepted) then 1 else 0)

theorem beforeReport_keeps (reply : DetailReply) (now : Time) :
    (beforeReport reply now).Keeps faults := by
  refine .bind (aloof_faults.readPrinter reply) fun goes => ?_
  split_ifs
  · exact .bind (.modify discovered_faults) fun _ => .bind (publish_keeps now) fun _ => .pure _
  · exact .pure _

/-- `_report_fault` records the code that shows, if it is not recorded yet. -/
theorem reportFault_faults (accepts : PrinterEvent → Bool) (b : Agent) :
    ∃ c, reportFault accepts b = (.ok (), c) ∧ c.faults = recorded b.faults
      ((((b.snapshot.map PrinterSnapshot.errorCode).filter fun code => code ≠ "").filter
        fun code => code ∉ b.faultsReported).map
          fun code => (code, accepts (faultEvent code))) := by
  rcases hs : b.snapshot with _ | s
  · exact ⟨b, by simp [reportFault, Procedure.gets_bind, hs, Procedure.pure_apply], rfl⟩
  by_cases hcode : s.errorCode = "" ∨ s.errorCode ∈ b.faultsReported
  · refine ⟨b, by simp [reportFault, Procedure.gets_bind, hs, hcode, Procedure.pure_apply], ?_⟩
    by_cases hne : s.errorCode = ""
    · simp [hne, Option.filter, recorded]
    · simp [hne, hcode.resolve_left hne, Option.filter, recorded]
  · refine ⟨(b.recordFault s.errorCode).log
      [.printerEvent (faultEvent s.errorCode) (accepts (faultEvent s.errorCode))], ?_, ?_⟩
    · simp only [reportFault, Procedure.gets_bind, id, hs, hcode, if_false]
      rfl
    · obtain ⟨hne, hnew⟩ := not_or.mp hcode
      simp only [Option.map_some, Option.filter, hne, hnew, not_false_eq_true, decide_true,
        ne_eq, if_true, recorded]
      refine Prod.ext rfl ?_
      funext code accepted
      have hiff : Effect.printerEvent (faultEvent s.errorCode) (accepts (faultEvent s.errorCode)) =
          .printerEvent (faultEvent code) accepted ↔
          (s.errorCode, accepts (faultEvent s.errorCode)) = (code, accepted) := by
        rw [Effect.printerEvent.injEq, Prod.mk.injEq]
        exact and_congr_left fun _ => ⟨faultEvent_injective, congrArg faultEvent⟩
      change List.count _ (b.trace ++ [_]) = b.posts code accepted + _
      rw [List.count_append, List.count_singleton, posts]
      simp only [beq_iff_eq, hiff]

theorem pollOnce_via_report (reply : DetailReply) (now : Time) (answers : Answers) (later : Time)
    (a : Agent) : pollOnce reply now answers later a =
      (beforeReport reply now >>= fun goes =>
        if goes then do
          reportFault answers.accepts
          servicePendingCommand answers later
        else return ()) a := by
  rw [pollOnce, beforeReport, Procedure.bind_apply, Procedure.bind_apply, Procedure.bind_apply]
  rcases readPrinter reply a with ⟨e | _ | _, b⟩
  · rfl
  · rfl
  · dsimp only
    rw [if_pos rfl, if_pos rfl, Procedure.bind_apply, Procedure.bind_apply]
    rcases discoverCamera b with ⟨e | ⟨⟩, c⟩
    · rfl
    · dsimp only
      rw [Procedure.bind_apply, Procedure.bind_apply]
      rcases publish now c with ⟨e | ⟨⟩, d⟩ <;> rfl

theorem pollOnce_faults (reply : DetailReply) (now : Time) (answers : Answers) (later : Time)
    (a : Agent) : (pollOnce reply now answers later a).2.faults = recorded a.faults
      (((a.shownFault reply now).filter fun code => code ∉ a.faultsReported).map
        fun code => (code, answers.accepts (faultEvent code))) := by
  have hkeeps := beforeReport_keeps reply now a
  rw [pollOnce_via_report, shownFault]
  rcases hb : beforeReport reply now a with ⟨e | _ | _, b⟩ <;> rw [hb] at hkeeps
  · rw [Procedure.bind_of_error hb]
    exact hkeeps
  · rw [Procedure.bind_of_ok hb]
    exact hkeeps
  · obtain ⟨c, hc, hfaults⟩ := reportFault_faults answers.accepts b
    rw [Procedure.bind_of_ok hb, if_pos rfl, Procedure.bind_of_ok hc,
      aloof_faults.servicePendingCommand publish_keeps answers later c, hfaults]
    have hreported : b.faultsReported = a.faultsReported := congrArg Prod.fst hkeeps
    rw [hreported]
    exact congrArg (recorded · _) hkeeps

/-- **What a step records**, and that it posts the event of nothing else. -/
theorem faults_step (a : Agent) (l : Label) :
    (a.step l).faults = recorded a.faults (a.dueFault l) := by
  have hother : (∀ reply now answers later, l ≠ .poll reply now answers later) →
      (a.step l).faults = a.faults := fun hl =>
    aloof_faults.step_of_not_poll publish_keeps (fun _ _ => rfl) (fun _ _ => rfl) hl a
  cases l with
  | poll reply now answers later =>
    unfold step
    split_ifs with hexited
    · simp [dueFault, hexited, recorded]
    · simp only [dueFault, hexited, Bool.false_eq_true, if_false]
      exact pollOnce_faults reply now answers later a
  | message m => exact hother (by simp)
  | request cmd => exact hother (by simp)
  | execute answers now => exact hother (by simp)

theorem faultsReported_step (a : Agent) (l : Label) :
    (a.step l).faultsReported = a.faultsReported ++ ((a.dueFault l).map Prod.fst).toList := by
  have h : (a.step l).faultsReported = (recorded a.faults (a.dueFault l)).1 :=
    congrArg Prod.fst (faults_step a l)
  rw [h]
  cases a.dueFault l <;> simp [recorded, faults]

theorem posts_step (a : Agent) (l : Label) (code : String) (accepted : Bool) :
    (a.step l).posts code accepted =
      a.posts code accepted + if a.dueFault l = some (code, accepted) then 1 else 0 := by
  have h : (a.step l).posts = (recorded a.faults (a.dueFault l)).2 :=
    congrArg Prod.snd (faults_step a l)
  rw [h]
  cases a.dueFault l <;> simp [recorded, faults]

/-- Only a code that shows and that is not recorded is due. -/
theorem not_mem_of_dueFault {a : Agent} {l : Label} {code : String} {accepted : Bool}
    (h : a.dueFault l = some (code, accepted)) : code ∉ a.faultsReported := by
  cases l with
  | poll reply now answers later =>
    simp only [dueFault] at h
    split_ifs at h
    obtain ⟨code', hcode', h⟩ := Option.map_eq_some_iff.mp h
    obtain ⟨rfl, -⟩ := Prod.mk.inj h
    simpa using (Option.filter_eq_some_iff.mp hcode').2
  | _ => cases h

/-! ## Runs -/

/-- Every recorded code has an accepted event, and no code has two. -/
structure Delivered (a : Agent) : Prop where
  accepted : ∀ code ∈ a.faultsReported, 0 < a.posts code true
  once : ∀ code, a.posts code true ≤ 1

/-- A fault that shows when a poll comes to report it, and whose event Obico accepts, has an
accepted event after the poll. -/
def Catches (a : Agent) : Label → Prop
  | .poll reply now answers later => a.exited = false → ∀ code ∈ a.shownFault reply now,
      answers.accepts (faultEvent code) = true →
        0 < (a.step (.poll reply now answers later)).posts code true
  | _ => True

/-- In every state of a run the fault events are delivered, and every poll of the run reports the
fault that still shows. -/
def DeliversFaults (a : Agent) (ls : List Label) : Prop :=
  (∀ pre, pre <+: ls → (a.run pre).Delivered) ∧ Trace.Along (fun pre l => (a.run pre).Catches l) ls

/-- Obico accepts the event of the code that a step records. -/
def AcceptsFault (a : Agent) (l : Label) : Prop := ∀ due ∈ a.dueFault l, due.2 = true

/-- A code is posted only when it is recorded, and only once. -/
structure PostsOnce (a : Agent) : Prop where
  unposted : ∀ code, code ∉ a.faultsReported → ∀ accepted, a.posts code accepted = 0
  once : ∀ code, a.posts code true ≤ 1

theorem postsOnce_initial (config : Config) (cameras : List Camera)
    (reserver : Option (List Camera)) : (initial config cameras reserver).PostsOnce :=
  ⟨fun _ _ _ => rfl, fun _ => Nat.zero_le 1⟩

theorem PostsOnce.step {a : Agent} (h : a.PostsOnce) (l : Label) : (a.step l).PostsOnce := by
  constructor
  · intro code hcode accepted
    rw [faultsReported_step, List.mem_append, not_or] at hcode
    rw [posts_step, h.unposted code hcode.1 accepted, if_neg]
    intro hdue
    exact hcode.2 (by simp [hdue])
  · intro code
    rw [posts_step]
    split_ifs with hdue
    · rw [h.unposted code (not_mem_of_dueFault hdue) true]
    · exact h.once code

theorem postsOnce_run {a : Agent} (h : a.PostsOnce) (ls : List Label) : (a.run ls).PostsOnce :=
  run_invariant h (fun _ l hb => hb.step l) ls

/-- A step keeps the events delivered exactly when Obico accepts the one that is due. -/
theorem Delivered.step_iff {a : Agent} (h : a.Delivered) (hposts : a.PostsOnce) (l : Label) :
    (a.step l).Delivered ↔ a.AcceptsFault l := by
  constructor
  · rintro hstep ⟨code, accepted⟩ hdue
    have hmem : code ∈ (a.step l).faultsReported := by
      rw [faultsReported_step, Option.mem_def.mp hdue]
      simp
    have hpos := hstep.accepted code hmem
    rw [posts_step, hposts.unposted code (not_mem_of_dueFault hdue) true,
      Option.mem_def.mp hdue] at hpos
    by_contra hrefused
    simp [hrefused] at hpos
  · intro haccepts
    refine ⟨fun code hcode => ?_, (hposts.step l).once⟩
    rw [faultsReported_step, List.mem_append] at hcode
    rw [posts_step]
    rcases hcode with hcode | hcode
    · exact Nat.lt_add_right _ (h.accepted code hcode)
    · obtain ⟨⟨code', accepted⟩, hdue, rfl⟩ : ∃ due, a.dueFault l = some due ∧ due.1 = code := by
        simpa using hcode
      obtain rfl : accepted = true := haccepts _ hdue
      rw [if_pos hdue]
      exact Nat.succ_pos _

/-- A fault that still shows is recorded, and then its event was accepted; or it is due. -/
theorem Delivered.catches {a : Agent} (h : a.Delivered) (l : Label) : a.Catches l := by
  cases l with
  | poll reply now answers later =>
    intro hexited code hshown haccepts
    rw [posts_step]
    by_cases hcode : code ∈ a.faultsReported
    · exact Nat.lt_add_right _ (h.accepted code hcode)
    · have hdue : a.dueFault (.poll reply now answers later) = some (code, true) := by
        simp [dueFault, hexited, Option.mem_def.mp hshown, Option.filter, hcode, haccepts]
      rw [if_pos hdue]
      exact Nat.succ_pos _
  | _ => trivial

/-- **Fault notifications are delivered exactly once** in a run, and the faults that still show are
reported once Obico can be reached, exactly when Obico accepts the event of every code that the run
records. -/
theorem faults_delivered_iff (config : Config) (cameras : List Camera)
    (reserver : Option (List Camera)) (ls : List Label) :
    (initial config cameras reserver).DeliversFaults ls ↔
      Trace.Along (fun pre l => ((initial config cameras reserver).run pre).AcceptsFault l) ls := by
  have hinitial := postsOnce_initial config cameras reserver
  have hempty : (initial config cameras reserver).faultsReported = [] := rfl
  generalize initial config cameras reserver = a at hinitial hempty ⊢
  induction ls using List.reverseRecOn with
  | nil =>
    refine iff_of_true ⟨fun pre hpre => ?_, Trace.along_nil⟩ Trace.along_nil
    obtain rfl := List.prefix_nil.mp hpre
    exact ⟨fun code hcode => absurd (hempty ▸ hcode : code ∈ []) List.not_mem_nil, hinitial.once⟩
  | append_singleton ls l ih =>
    have hrun : a.run (ls ++ [l]) = (a.run ls).step l := List.foldl_append ..
    rw [Trace.along_snoc]
    constructor
    · intro h
      have hls : a.DeliversFaults ls :=
        ⟨fun pre hpre => h.1 pre (hpre.trans (List.prefix_append ls [l])),
          (Trace.along_snoc.mp h.2).1⟩
      have hdelivered := h.1 (ls ++ [l]) List.prefix_rfl
      rw [hrun] at hdelivered
      exact ⟨ih.mp hls,
        ((hls.1 ls List.prefix_rfl).step_iff (postsOnce_run hinitial ls) l).mp hdelivered⟩
    · rintro ⟨haccepted, haccepts⟩
      have hls := ih.mpr haccepted
      have hdelivered := hls.1 ls List.prefix_rfl
      refine ⟨fun pre hpre => ?_, Trace.along_snoc.mpr ⟨hls.2, hdelivered.catches l⟩⟩
      rcases List.prefix_concat_iff.mp hpre with rfl | hpre
      · rw [hrun]
        exact (hdelivered.step_iff (postsOnce_run hinitial ls) l).mpr haccepts
      · exact hls.1 pre hpre

/-- Error code `E7` shows in two polls. Obico is down during the first, and accepts events then. -/
def faultWhileDown : List Label :=
  let reply : DetailReply := .ok (("errorCode", .str "E7") :: detailOf "error" "")
  [.poll reply 0 { Answers.constant reply with accepts := fun _ => false } 0, .quietPoll reply 7010]

theorem not_delivers_faultWhileDown : ¬ bare.DeliversFaults faultWhileDown := by
  intro h
  have hcode : "E7" ∈ (bare.run faultWhileDown).faultsReported := by decide +kernel
  have hposts : (bare.run faultWhileDown).posts "E7" true = 0 := by decide +kernel
  exact absurd ((h.1 _ List.prefix_rfl).accepted "E7" hcode) hposts.not_gt

end Agent

end FlashforgeObico
