import FlashforgeObico.Agent.Attempts

/-!
# What the retries of a command may go wrong about

Three properties of one execution of `execute_command`, each with the answers on which it holds.

* A command is reported once, and as failed only after a read-back (`reports_once_iff`): when the
  printer refuses the last attempt, there is no read-back, and a second event follows the first.
* Each call is made for the job that the command was given for (`calls_for_job_iff`): the read-backs
  do not look at the file name, so that an attempt can follow on a reply that shows another job.
* A pause that the printer ignored because of its warm-up is kept (`pause_kept_iff`): not when the
  warm-up ends after the last attempt, which is no longer repeated.
-/

namespace FlashforgeObico

open Py Trace

namespace Effect

/-- Whether an effect is a `detail` request. -/
def isDetail : Effect → Bool
  | detail _ => true
  | _ => false

/-- Whether an effect is a printer event. -/
def isPrinterEvent : Effect → Bool
  | printerEvent _ _ => true
  | _ => false

variable {e : Effect}

theorem IsAside.isCall_eq (h : e.IsAside) : e.isCall = false := by cases e <;> trivial

theorem IsAside.isDetail_eq (h : e.IsAside) : e.isDetail = false := by cases e <;> trivial

theorem IsAside.isPrinterEvent_eq (h : e.IsAside) : e.isPrinterEvent = false := by
  cases e <;> trivial

theorem IsAside.read?_eq (h : e.IsAside) : e.read? = none := by cases e <;> trivial

end Effect

namespace Agent

/-! ## The effects of the attempts -/

theorem isDetail_readsOf {rs : List DetailReply} {e : Effect} (h : e ∈ readsOf rs) :
    ∃ reply ∈ rs, e = .detail reply.shown? := by
  simpa [readsOf, eq_comm] using h

theorem mem_triedTo {x : Execution} {answers : Answers} {n : ℕ} {e : Effect}
    (h : e ∈ triedTo x answers n) :
    ∃ m, m < n ∧ (e = .call x (answers.send (m + 1)).isOk ∨
      ∃ reply ∈ answers.window (m + 1), e = .detail reply.shown?) := by
  obtain ⟨m, hm, he⟩ := List.mem_flatMap.mp h
  rw [List.mem_range'_1] at hm
  obtain ⟨k, rfl⟩ : ∃ k, m = k + 1 := ⟨m - 1, by omega⟩
  refine ⟨k, by omega, ?_⟩
  rcases List.mem_cons.mp he with he | he
  · exact .inl he
  · exact .inr (isDetail_readsOf he)

theorem isPrinterEvent_of_mem_triedTo {x : Execution} {answers : Answers} {n : ℕ} {e : Effect}
    (h : e ∈ triedTo x answers n) : e.isPrinterEvent = false := by
  obtain ⟨m, -, rfl | ⟨reply, -, rfl⟩⟩ := mem_triedTo h <;> rfl

/-! ## One report -/

/-- The event reports that the command failed. -/
def IsFailure (cmd : Command) (event : PrinterEvent) : Prop :=
  event.title = cmd.capitalized ++ " failed" ∨ event.title = cmd.capitalized ++ " did not take"

instance (cmd : Command) (event : PrinterEvent) : Decidable (IsFailure cmd event) :=
  inferInstanceAs (Decidable (_ ∨ _))

/-- After the last call the state was read back, and no read showed what the command asks for. -/
structure ReadBackInVain (cmd : Command) (es : List Effect) : Prop where
  called : ∃ e ∈ es, e.isCall = true
  reads : (since Effect.isCall es).countP Effect.isDetail = readbackAttempts
  inVain : ∀ s, .detail (some s) ∈ since Effect.isCall es → ¬ Expected cmd s

/-- A command is reported at most once, and as failed only if it was read back in vain. -/
structure ReportsOnce (cmd : Command) (es : List Effect) : Prop where
  once : es.countP Effect.isPrinterEvent ≤ 1
  confirmed : ∀ event accepted, .printerEvent event accepted ∈ es → IsFailure cmd event →
    ReadBackInVain cmd es

/-- The printer refuses the last attempt, which is made. -/
def RefusesLast (a : Agent) (cmd : Command) (answers : Answers) : Prop :=
  a.Forwards cmd ∧ answers.Reaches cmd maxCommandAttempts ∧
    ∃ e, answers.send maxCommandAttempts = .error e

section ReportsOnce

variable {cmd : Command} {es : List Effect}

theorem reportsOnce_of_none (h : ∀ e ∈ es, e.isPrinterEvent = false) : ReportsOnce cmd es := by
  have hzero : es.countP Effect.isPrinterEvent = 0 :=
    List.countP_eq_zero.mpr fun e he => by simp [h e he]
  refine ⟨by omega, fun event accepted he => ?_⟩
  exact absurd (h _ he) (by simp [Effect.isPrinterEvent])

theorem countP_told (x : Execution) (accepts : PrinterEvent → Bool) (b : Agent) :
    (told x accepts b (.ok .notTaken)).countP Effect.isPrinterEvent = 1 := by
  rw [told]
  split_ifs <;> rfl

theorem told_eq_nil {x : Execution} {accepts : PrinterEvent → Bool} {b : Agent}
    {r : Except Error Outcome} (h : r ≠ .ok .notTaken) : told x accepts b r = [] := by
  rcases r with e | _ | _ | _
  · rfl
  · rfl
  · rfl
  · exact absurd rfl h

theorem told_asides {x : Execution} {accepts : PrinterEvent → Bool} {b : Agent}
    {r : Except Error Outcome} {e : Effect} (h : e ∈ told x accepts b r) :
    e.isCall = false ∧ e.isDetail = false := by
  unfold told at h
  split at h
  · split_ifs at h
    · rcases List.mem_cons.mp h with rfl | h
      · exact ⟨rfl, rfl⟩
      · obtain rfl := List.mem_singleton.mp h
        exact ⟨rfl, rfl⟩
    · obtain rfl := List.mem_singleton.mp h
      exact ⟨rfl, rfl⟩
  · cases h

/-- The last attempt, if it was acknowledged and settles nothing, is read back in vain. -/
theorem readBackInVain {x : Execution} {answers : Answers} {pre tail : List Effect}
    (hreaches : answers.Reaches x.cmd (maxCommandAttempts + 1))
    (hsend : answers.send maxCommandAttempts = .ok ())
    (htail : ∀ e ∈ tail, e.isCall = false ∧ e.isDetail = false) :
    ReadBackInVain x.cmd (pre ++ (triedTo x answers maxCommandAttempts ++ tail)) := by
  have hwindow : answers.window maxCommandAttempts = replies answers maxCommandAttempts := by
    rw [Answers.window, hsend]
  have hlast : tried x answers maxCommandAttempts =
      .call x true :: readsOf (answers.window maxCommandAttempts) := by
    rw [tried_of_ok hsend, hwindow]
  have hreads : ∀ e ∈ readsOf (answers.window maxCommandAttempts), e.isCall = false := by
    intro e he
    obtain ⟨reply, -, rfl⟩ := isDetail_readsOf he
    rfl
  have hsplit : pre ++ (triedTo x answers maxCommandAttempts ++ tail) =
      pre ++ triedTo x answers 2 ++ [.call x true] ++
        (readsOf (answers.window maxCommandAttempts) ++ tail) := by
    have hsucc : triedTo x answers maxCommandAttempts =
        triedTo x answers 2 ++ tried x answers maxCommandAttempts := triedTo_succ x answers 2
    rw [hsucc, hlast]
    simp
  have hsince : since Effect.isCall (pre ++ (triedTo x answers maxCommandAttempts ++ tail)) =
      readsOf (answers.window maxCommandAttempts) ++ tail := by
    rw [hsplit, since_append_of_none, since_concat_of_pos rfl, List.nil_append]
    intro e he
    rcases List.mem_append.mp he with he | he
    · exact hreads e he
    · exact (htail e he).1
  refine ⟨⟨.call x true, by rw [hsplit]; simp, rfl⟩, ?_, fun s hs => ?_⟩
  · have hnone : tail.countP Effect.isDetail = 0 :=
      List.countP_eq_zero.mpr fun e he => by simp [(htail e he).2]
    have hall : (readsOf (answers.window maxCommandAttempts)).countP Effect.isDetail =
        readbackAttempts := by
      rw [List.countP_eq_length.mpr fun e he => by
        obtain ⟨reply, -, rfl⟩ := isDetail_readsOf he; rfl]
      simp [readsOf, hwindow, replies]
    rw [hsince, List.countP_append, hall, hnone, Nat.add_zero]
  · rw [hsince] at hs
    rcases List.mem_append.mp hs with hs | hs
    · obtain ⟨reply, hreply, hshown⟩ := isDetail_readsOf hs
      have hopen := hreaches maxCommandAttempts (by decide) (by decide) reply hreply
      exact (DetailReply.of_not_settles hopen (Effect.detail.inj hshown).symm).1
    · exact absurd (htail _ hs).2 (by simp [Effect.isDetail])

end ReportsOnce

/-- **When a command is reported once**, and as failed only after a read-back. -/
theorem reports_once_iff (origin : Origin) (cmd : Command) (answers : Answers) (now : Time)
    (a : Agent) :
    ReportsOnce cmd (effectsOf (executeCommand origin cmd answers now) a) ↔
      ¬ RefusesLast a cmd answers := by
  by_cases hf : a.Forwards cmd
  swap
  · refine iff_of_true (reportsOnce_of_none fun e he => ?_) fun h => hf h.1
    exact (not_forwarded hf origin answers now e he).isPrinterEvent_eq
  obtain ⟨r, mid, pre, post, hmid, heffects, hpre, hpost, -⟩ := forwarded hf origin answers now
  have hcount {es : List Effect} (h : ∀ e ∈ es, e.isPrinterEvent = false) :
      es.countP Effect.isPrinterEvent = 0 := List.countP_eq_zero.mpr fun e he => by simp [h e he]
  have hpre' := hcount fun e he => (hpre e he).isPrinterEvent_eq
  have hpost' := hcount fun e he => (hpost e he).isPrinterEvent_eq
  have htried : (triedTo (a.nextExecution origin cmd) answers maxCommandAttempts).countP
      Effect.isPrinterEvent = 0 := hcount fun e he => isPrinterEvent_of_mem_triedTo he
  rw [heffects]
  cases hmid with
  | @settled n read r hn hreaches hsend hsettles hr =>
    refine iff_of_true (reportsOnce_of_none fun e he => ?_) ?_
    · rw [told_eq_nil hr] at he
      simp only [List.nil_append, List.mem_append, List.mem_cons] at he
      rcases he with he | (he | rfl | he) | he
      · exact (hpre e he).isPrinterEvent_eq
      · exact isPrinterEvent_of_mem_triedTo he
      · rfl
      · obtain ⟨reply, -, rfl⟩ := isDetail_readsOf he
        rfl
      · exact (hpost e he).isPrinterEvent_eq
    · -- the attempt that settles the matter is the last one, and it was acknowledged
      rintro ⟨-, hlast, e, he⟩
      have hn' : n + 1 = maxCommandAttempts := by
        by_contra hne
        obtain ⟨reply, hreply, hs⟩ := hsettles
        exact hlast (n + 1) (by omega) (by omega) reply hreply hs
      rw [← hn', hsend] at he
      cases he
  | undecided hreaches hsend =>
    refine iff_of_true ⟨?_, fun _ _ _ _ => ?_⟩ ?_
    · simp only [List.countP_append, countP_told, hpre', hpost', htried]
      decide
    · refine readBackInVain hreaches hsend fun e he => ?_
      rcases List.mem_append.mp he with he | he
      · exact told_asides he
      · exact ⟨(hpost e he).isCall_eq, (hpost e he).isDetail_eq⟩
    · rintro ⟨-, -, e, he⟩
      rw [hsend] at he
      cases he
  | @refused e hreaches hsend =>
    refine iff_of_false (fun h => ?_) (not_not_intro ⟨hf, hreaches, e, hsend⟩)
    have hevents := h.once
    simp only [List.countP_append, countP_told, hpre', hpost', htried] at hevents
    simp [Effect.isPrinterEvent] at hevents

/-- An agent whose printer shows a job. -/
def following (status : String) : Agent :=
  bare.run [.quietPoll (.ok (detailOf status "a.gcode")) 996]

/-- The printer refuses every attempt. -/
def refusing : Answers :=
  { Answers.constant (.error ⟨"busy"⟩) with send := fun _ => .error ⟨"busy"⟩ }

/-- A cancel that is refused is reported twice. -/
theorem refused_cancel_reported_twice :
    ¬ ReportsOnce .cancel (effectsOf (executeCommand .queued .cancel refusing 1001)
      (following "printing")) := by
  intro h
  have hcount : (effectsOf (executeCommand .queued .cancel refusing 1001)
      (following "printing")).countP Effect.isPrinterEvent = 2 := by decide +kernel
  have honce := h.once
  omega

/-! ## Calls for one job -/

/-- A reply that shows a job of another file. -/
def ShowsAnother (file : String) (reply : DetailReply) : Prop :=
  ∃ s ∈ reply.shown?, s.HasJob ∧ s.fileName ≠ file

/-- Before a call, the latest snapshot shows the job, and none that was read shows another. -/
def CallsFor (a : Agent) (file : String) (pre : List Effect) (e : Effect) : Prop :=
  e.isCall = true → (∃ s ∈ (lastRead pre).or a.snapshot, s.HasJob ∧ s.fileName = file) ∧
    ∀ e' ∈ pre, ∀ s ∈ e'.read?, s.HasJob → s.fileName = file

instance (a : Agent) (file : String) (pre : List Effect) (e : Effect) :
    Decidable (CallsFor a file pre e) :=
  inferInstanceAs (Decidable (_ → _))

/-- A reply shows another job, and another attempt follows. -/
def SwapsJob (a : Agent) (cmd : Command) (answers : Answers) (file : String) : Prop :=
  a.Forwards cmd ∧ ∃ n, 1 ≤ n ∧ n < maxCommandAttempts ∧ answers.Reaches cmd (n + 1) ∧
    ∃ reply ∈ answers.window n, ShowsAnother file reply

section CallsFor

variable {P : List Effect → Effect → Prop} {x : Execution} {answers : Answers}

theorem along_of_no_call (hP : ∀ pre e, e.isCall = false → P pre e) {es : List Effect}
    (h : ∀ e ∈ es, e.isCall = false) : Along P es :=
  along_of_forall fun pre _ e he => hP pre e (h e he)

theorem isCall_readsOf {rs : List DetailReply} {e : Effect} (h : e ∈ readsOf rs) :
    e.isCall = false := by
  obtain ⟨reply, -, rfl⟩ := isDetail_readsOf h
  rfl

theorem along_call_readsOf (hP : ∀ pre e, e.isCall = false → P pre e) (es : List Effect)
    (acknowledged : Bool) (rs : List DetailReply) :
    Along P (es ++ .call x acknowledged :: readsOf rs) ↔
      Along P es ∧ P es (.call x acknowledged) := by
  have hreads : Along (fun pre => P (es ++ (.call x acknowledged :: pre))) (readsOf rs) :=
    along_of_no_call (fun pre e => hP _ e) fun e he => isCall_readsOf he
  rw [along_append, along_cons, List.append_nil, and_iff_left hreads]

theorem along_triedTo (hP : ∀ pre e, e.isCall = false → P pre e) (n : ℕ) :
    Along P (triedTo x answers n) ↔
      ∀ m, m < n → P (triedTo x answers m) (.call x (answers.send (m + 1)).isOk) := by
  induction n with
  | zero => simp [triedTo, along_nil]
  | succ n ih =>
    rw [triedTo_succ, tried, along_call_readsOf hP, ih, Nat.forall_lt_succ_right]

/-- The calls of the attempts: the attempts that are made are those up to one of them. -/
theorem Concluded.along_iff {r : Except Error Outcome} {es : List Effect}
    (h : Concluded x answers r es) : ∃ k, k < maxCommandAttempts ∧ answers.Reaches x.cmd (k + 1) ∧
      (∀ m, m < maxCommandAttempts → answers.Reaches x.cmd (m + 1) → m ≤ k) ∧
      ∀ P : List Effect → Effect → Prop, (∀ pre e, e.isCall = false → P pre e) →
        (Along P es ↔
          ∀ m, m < k + 1 → P (triedTo x answers m) (.call x (answers.send (m + 1)).isOk)) := by
  have hlt : 2 < maxCommandAttempts := by decide
  cases h with
  | @settled n read r hn hreaches hsend hsettles hr =>
    refine ⟨n, hn, hreaches, fun m hm hm' => ?_, fun P hP => ?_⟩
    · by_contra hlt
      obtain ⟨reply, hreply, hs⟩ := hsettles
      exact hm' (n + 1) (by omega) (by omega) reply hreply hs
    · have hok : (answers.send (n + 1)).isOk = true := by rw [hsend]; rfl
      rw [along_call_readsOf hP, along_triedTo hP, Nat.forall_lt_succ_right, hok]
  | undecided hreaches hsend =>
    refine ⟨2, hlt, hreaches.mono (by decide), fun m hm _ => Nat.le_of_lt_succ hm, fun P hP => ?_⟩
    exact along_triedTo hP 3
  | refused hreaches hsend =>
    refine ⟨2, hlt, hreaches, fun m hm _ => Nat.le_of_lt_succ hm, fun P hP => ?_⟩
    rw [along_snoc, and_iff_left (hP _ _ rfl)]
    exact along_triedTo hP 3

theorem mem_of_lastRead {es : List Effect} {s : PrinterSnapshot} (h : lastRead es = some s) :
    ∃ e ∈ es, e.read? = some s :=
  List.mem_filterMap.mp (List.mem_of_getLast? h)

/-- What the attempts read is shown by a reply. -/
theorem shown_of_mem_triedTo {n : ℕ} {e : Effect} {s : PrinterSnapshot}
    (h : e ∈ triedTo x answers n) (hs : e.read? = some s) :
    ∃ m, m < n ∧ ∃ reply ∈ answers.window (m + 1), reply.shown? = some s := by
  obtain ⟨m, hm, rfl | ⟨reply, hreply, rfl⟩⟩ := mem_triedTo h
  · cases hs
  · exact ⟨m, hm, reply, hreply, hs⟩

/-- A call is made for the job unless a reply before it shows another. -/
theorem callsFor_triedTo_iff {a : Agent} {file : String}
    (ha : ∃ s ∈ a.snapshot, s.HasJob ∧ s.fileName = file) {n : ℕ}
    (hreaches : answers.Reaches x.cmd (n + 1)) (acknowledged : Bool) :
    CallsFor a file (triedTo x answers n) (.call x acknowledged) ↔
      ∀ m, m < n → ∀ reply ∈ answers.window (m + 1), ¬ ShowsAnother file reply := by
  constructor
  · rintro h m hm reply hreply ⟨s, hs, hj, hne⟩
    refine hne ((h rfl).2 (.detail reply.shown?) (List.mem_flatMap.mpr ⟨m + 1, ?_, ?_⟩) s hs hj)
    · exact List.mem_range'_1.mpr ⟨by omega, by omega⟩
    · exact List.mem_cons_of_mem _ (List.mem_map.mpr ⟨reply, hreply, rfl⟩)
  · intro h _
    have hsame : ∀ e ∈ triedTo x answers n, ∀ s ∈ e.read?, s.HasJob → s.fileName = file := by
      intro e he s hs hj
      obtain ⟨m, hm, reply, hreply, hshows⟩ := shown_of_mem_triedTo he hs
      by_contra hne
      exact h m hm reply hreply ⟨s, hshows, hj, hne⟩
    refine ⟨?_, hsame⟩
    rcases hlast : lastRead (triedTo x answers n) with _ | s
    · exact ha
    · obtain ⟨e, he, hs⟩ := mem_of_lastRead hlast
      obtain ⟨m, hm, reply, hreply, hshows⟩ := shown_of_mem_triedTo he hs
      have hopen := hreaches (m + 1) (by omega) (by omega) reply hreply
      have hj := (DetailReply.of_not_settles hopen hshows).2
      exact ⟨s, rfl, hj, hsame e he s hs hj⟩

/-- Effects that are aside do not matter to the calls after them. -/
theorem callsFor_append {a : Agent} {file : String} {pre : List Effect}
    (h : ∀ e ∈ pre, e.IsAside) : (fun es => CallsFor a file (pre ++ es)) = CallsFor a file := by
  have hnone : lastRead pre = none := by
    rw [lastRead, lastOf, List.getLast?_eq_none_iff, List.filterMap_eq_nil_iff]
    exact fun e he => (h e he).read?_eq
  funext es e
  have hlast : lastRead (pre ++ es) = lastRead es := by
    rw [lastRead, lastOf_append, ← lastRead, ← lastRead, hnone, Option.or_none]
  have hreads : (∀ e' ∈ pre ++ es, ∀ s ∈ e'.read?, s.HasJob → s.fileName = file) ↔
      ∀ e' ∈ es, ∀ s ∈ e'.read?, s.HasJob → s.fileName = file := by
    rw [List.forall_mem_append, and_iff_right]
    intro e' he' s hs
    rw [(h e' he').read?_eq] at hs
    cases hs
  simp only [CallsFor, hlast, hreads]

end CallsFor

/-- **When each call is made for the job** that the command was given for. -/
theorem calls_for_job_iff (origin : Origin) (cmd : Command) (answers : Answers) (now : Time)
    (a : Agent) (file : String) (ha : ∃ s ∈ a.snapshot, s.HasJob ∧ s.fileName = file) :
    Along (CallsFor a file) (effectsOf (executeCommand origin cmd answers now) a) ↔
      ¬ SwapsJob a cmd answers file := by
  have hP : ∀ pre e, e.isCall = false → CallsFor a file pre e := by
    intro pre e he hcall
    rw [he] at hcall
    cases hcall
  by_cases hf : a.Forwards cmd
  swap
  · refine iff_of_true (along_of_no_call hP fun e he => ?_) fun h => hf h.1
    exact (not_forwarded hf origin answers now e he).isCall_eq
  obtain ⟨r, mid, pre, post, hmid, heffects, hpre, hpost, -⟩ := forwarded hf origin answers now
  obtain ⟨k, hk, hreaches, hmax, hcalls⟩ := hmid.along_iff
  have hbefore : Along (CallsFor a file) pre :=
    along_of_no_call hP fun e he => (hpre e he).isCall_eq
  have hrest : Along (fun es => CallsFor a file (mid ++ es))
      (told (a.nextExecution origin cmd) answers.accepts
        ((begun (a.nextExecution origin cmd) a).after mid) r ++ post) := by
    refine along_of_no_call (fun es e => hP (mid ++ es) e) fun e he => ?_
    rcases List.mem_append.mp he with he | he
    · exact (told_asides he).1
    · exact (hpost e he).isCall_eq
  rw [heffects, along_append, and_iff_right hbefore, callsFor_append hpre, along_append,
    and_iff_left hrest, hcalls _ hP]
  constructor
  · rintro h ⟨-, n, h₁, hn, hreaches', reply, hreply, hanother⟩
    obtain ⟨m, rfl⟩ : ∃ m, n = m + 1 := ⟨n - 1, by omega⟩
    have hle := hmax (m + 1) hn hreaches'
    have hfor := h (m + 1) (by omega)
    rw [callsFor_triedTo_iff ha hreaches'] at hfor
    exact hfor m (by omega) reply hreply hanother
  · intro h n hn
    have hreaches' := hreaches.mono (m := n + 1) hn
    rw [callsFor_triedTo_iff ha hreaches']
    intro m hm reply hreply hanother
    exact h ⟨hf, m + 1, by omega, by omega, hreaches.mono (by omega), reply, hreply, hanother⟩

/-- A cancel of a job of which the printer shows the end at no read. -/
theorem calls_for_job_while_printing :
    Along (CallsFor (following "printing") "a.gcode")
        (effectsOf (executeCommand .queued .cancel
          (.constant (.ok (detailOf "printing" "a.gcode"))) 1001) (following "printing")) ↔
      ¬ SwapsJob (following "printing") .cancel (.constant (.ok (detailOf "printing" "a.gcode")))
        "a.gcode" :=
  calls_for_job_iff .queued .cancel _ 1001 _ "a.gcode" (by decide +kernel)

/-- The job is over after the first attempt to cancel it, and another one is printed. -/
theorem cancel_hits_next_job :
    (∃ s ∈ (following "printing").snapshot, s.HasJob ∧ s.fileName = "a.gcode") ∧
      ¬ Along (CallsFor (following "printing") "a.gcode")
        (effectsOf (executeCommand .queued .cancel
          (.constant (.ok (detailOf "printing" "b.gcode"))) 1001) (following "printing")) := by
  decide +kernel

/-! ## A pause during warm-up -/

/-- The latest snapshot after the first attempts. -/
def latest (a : Agent) (answers : Answers) (n : ℕ) : Option PrinterSnapshot :=
  (lastOf DetailReply.shown? ((List.range' 1 n).flatMap answers.window)).or a.snapshot

/-- The printer acknowledges every attempt to pause a job, whose replies show it active and not
paused, and is warming up, as far as is known, when it is sent. -/
structure IgnoresPause (a : Agent) (answers : Answers) (file : String) : Prop where
  job : ∃ s ∈ a.snapshot, s.fileName = file
  acknowledges : ∀ n, 1 ≤ n → n ≤ maxCommandAttempts → answers.send n = .ok ()
  goesOn : ∀ n, 1 ≤ n → n ≤ maxCommandAttempts → ∀ reply ∈ answers.window n,
    (∃ e, reply = .error e) ∨
      ∃ s ∈ reply.shown?, s.HasJob ∧ s.fileName = file ∧ s.state ≠ .paused
  warmsUp : ∀ n, n < maxCommandAttempts → ∃ s ∈ a.latest answers n, s.WarmingUp

/-- The pause is left pending, and is not reported as one that did not take. -/
def KeepsPause (c : Agent) (es : List Effect) : Prop :=
  c.pendingCommand = some .pause ∧
    ∀ event accepted, .printerEvent event accepted ∈ es → event.title ≠ "Pause did not take"

theorem lastRead_triedTo (x : Execution) (answers : Answers) (n : ℕ) :
    lastRead (triedTo x answers n) =
      lastOf DetailReply.shown? ((List.range' 1 n).flatMap answers.window) := by
  have hreads (rs : List DetailReply) :
      (readsOf rs).filterMap Effect.read? = rs.filterMap DetailReply.shown? := by
    rw [readsOf, List.filterMap_map]
    rfl
  have htried (m : ℕ) : (tried x answers m).filterMap Effect.read? =
      (answers.window m).filterMap DetailReply.shown? := by
    rw [tried, List.filterMap_cons_none rfl, hreads]
  simp only [lastRead, lastOf, triedTo, List.filterMap_flatMap, htried]

/-- **When a pause during warm-up is kept.** -/
theorem pause_kept_iff (origin : Origin) (answers : Answers) (now : Time) (a : Agent)
    (file : String) (h : IgnoresPause a answers file) :
    KeepsPause (executeCommand origin .pause answers now a).2
        (effectsOf (executeCommand origin .pause answers now) a) ↔
      ∃ s ∈ a.latest answers maxCommandAttempts, s.WarmingUp := by
  have hopen : ∀ n, 1 ≤ n → n ≤ maxCommandAttempts → answers.Undecided .pause n := by
    rintro n h₁ hn reply hreply ⟨d, rfl, hd⟩
    rcases h.goesOn n h₁ hn _ hreply with ⟨e, he⟩ | ⟨s, hs, hj, -, hpaused⟩
    · cases he
    · obtain ⟨d', hd', hparse⟩ := DetailReply.shown?_eq_some_iff.mp hs
      cases hd'
      exact (hd s hparse).elim hpaused fun hnot => hnot hj
  have hf : a.Forwards .pause := by
    obtain ⟨s, hs, hw⟩ := h.warmsUp 0 (by decide)
    have hs' : a.snapshot = some s := by simpa [latest, lastOf] using hs
    exact ⟨s, hs', hw.1, by simp [AlreadyThere, hw.2.1]⟩
  obtain ⟨r, mid, pre, post, hmid, heffects, hpre, hpost, hpending⟩ :=
    forwarded hf origin answers now
  rw [heffects, KeepsPause, hpending]
  cases hmid with
  | @settled n read r hn _ _ hsettles _ =>
    obtain ⟨reply, hreply, hs⟩ := hsettles
    exact absurd hs (hopen (n + 1) (by omega) hn reply hreply)
  | refused _ hsend =>
    rw [h.acknowledges _ (by decide) le_rfl] at hsend
    cases hsend
  | undecided _ _ =>
    set x := a.nextExecution origin .pause
    set b := (begun x a).after (triedTo x answers maxCommandAttempts)
    have hdefers : b.DefersPause x.cmd ↔
        ∃ s ∈ a.latest answers maxCommandAttempts, s.WarmingUp := by
      have hlatest : b.snapshot = a.latest answers maxCommandAttempts := by
        simp [b, after, lastRead_triedTo, begun_snapshot, latest]
      rw [DefersPause, hlatest]
      exact and_iff_right rfl
    rw [← hdefers]
    by_cases hw : b.DefersPause x.cmd
    · refine iff_of_true ⟨if_pos hw, fun event accepted he => ?_⟩ hw
      rw [told, if_pos hw] at he
      simp only [List.mem_append, List.mem_cons, List.not_mem_nil, or_false] at he
      rcases he with he | he | (he | he) | he
      · exact (hpre _ he).elim
      · exact absurd (isPrinterEvent_of_mem_triedTo he) (by simp [Effect.isPrinterEvent])
      · cases he
      · cases he
        decide
      · exact (hpost _ he).elim
    · refine iff_of_false (fun hkeeps => ?_) hw
      refine hkeeps.2 (didNotTakeEvent .pause b.snapshot)
        (answers.accepts (didNotTakeEvent .pause b.snapshot)) ?_ rfl
      rw [told, if_neg hw]
      simp [x, nextExecution]

/-- The printer acknowledges every attempt, and warms up until a read-back. -/
def warmingUntil (n : ℕ) : Answers :=
  { Answers.constant (.ok (detailOf "heating" "a.gcode")) with
    detail := fun attempt _ =>
      .ok (if attempt < n then detailOf "heating" "a.gcode" else detailAt "a.gcode" 1) }

theorem ignoresPause_warmingUntil {n : ℕ} (hn : n = 3 ∨ n = 4) :
    IgnoresPause (following "heating") (warmingUntil n) "a.gcode" := by
  refine ⟨by decide +kernel, fun _ _ _ => rfl, fun m _ _ reply hreply => .inr ?_, fun m hm => ?_⟩
  · obtain ⟨k, -, rfl⟩ := List.mem_map.mp hreply
    simp only [warmingUntil]
    split_ifs <;> decide +kernel
  · have hm' : m = 0 ∨ m = 1 ∨ m = 2 := by
      rw [maxCommandAttempts] at hm
      omega
    rcases hn with rfl | rfl <;> rcases hm' with rfl | rfl | rfl <;> decide +kernel

/-- A pause is kept when the warm-up goes on. -/
theorem pause_kept_while_heating :
    KeepsPause (executeCommand .queued .pause (warmingUntil 4) 1001 (following "heating")).2
        (effectsOf (executeCommand .queued .pause (warmingUntil 4) 1001) (following "heating")) ↔
      ∃ s ∈ (following "heating").latest (warmingUntil 4) maxCommandAttempts, s.WarmingUp :=
  pause_kept_iff .queued _ 1001 _ "a.gcode" (ignoresPause_warmingUntil (.inr rfl))

/-- A pause is lost when the warm-up ends after the last attempt. -/
theorem pause_lost_at_end_of_warm_up :
    IgnoresPause (following "heating") (warmingUntil 3) "a.gcode" ∧
      ¬ KeepsPause (executeCommand .queued .pause (warmingUntil 3) 1001 (following "heating")).2
        (effectsOf (executeCommand .queued .pause (warmingUntil 3) 1001)
          (following "heating")) := by
  refine ⟨ignoresPause_warmingUntil (.inl rfl), fun h => ?_⟩
  have hpending : (executeCommand .queued .pause (warmingUntil 3) 1001
      (following "heating")).2.pendingCommand = none := by decide +kernel
  rw [h.1] at hpending
  cases hpending

end Agent

end FlashforgeObico
