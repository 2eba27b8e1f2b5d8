import FlashforgeObico.Foundations.Transition
import FlashforgeObico.Agent.State
import Mathlib.Logic.Function.Basic

/-!
# The command queue and its threads

`request_command` and `handle_server_message` put a command on the queue and then make sure, in
`_ensure_command_thread`, that a thread drains it. A drain thread ends when the queue has been empty
for a while, and is alive for some time after it has decided to. A command that is put on the queue
in that time, by a producer that finds the thread alive, has nobody to run it. `TestsClear` excludes
such tests, and `queued_commands_are_drained` says that in the runs without them a thread is in its
loop whenever a command is on the queue and no producer is at work.
-/

namespace FlashforgeObico

/-- The place of a drain thread. -/
inductive DrainThread
  /-- Created and not started. -/
  | created
  /-- Waiting for a command. -/
  | waiting
  /-- Executing a command. -/
  | executing (cmd : Command)
  /-- Out of the loop, after the queue was empty, and still alive. -/
  | leaving
  | dead
  deriving DecidableEq

namespace DrainThread

/-- `is_alive`. -/
def IsAlive (d : DrainThread) : Prop := d ≠ created ∧ d ≠ dead

instance (d : DrainThread) : Decidable d.IsAlive :=
  inferInstanceAs (Decidable (d ≠ created ∧ d ≠ dead))

/-- Whether a thread is in the loop of `_drain_commands`. -/
def InLoop : DrainThread → Prop
  | waiting => True
  | executing _ => True
  | _ => False

instance (d : DrainThread) : Decidable d.InLoop := by
  cases d <;> unfold InLoop <;> infer_instance

theorem IsAlive.inLoop_or_leaving {d : DrainThread} (h : d.IsAlive) : d.InLoop ∨ d = leaving := by
  cases d <;> simp_all [IsAlive, InLoop]

end DrainThread

/-- The place of a producer. -/
inductive Producer
  | idle
  /-- It has put a command on the queue, and tests whether the thread is alive. -/
  | testing
  /-- It is about to create a thread. -/
  | creating
  /-- It is about to start the thread that `_command_thread` refers to. -/
  | starting
  deriving DecidableEq

/-- The queue with its producers and its threads, which are numbered in the order of their
creation. -/
structure CommandQueue (π : Type) where
  commands : List Command
  producers : π → Producer
  threads : List DrainThread
  /-- `_command_thread`. -/
  commandThread : Option ℕ

/-- A step of a producer or of a thread. -/
inductive QueueMove (π : Type)
  /-- `_commands.put`. -/
  | put (p : π) (cmd : Command)
  /-- The test of `_ensure_command_thread`. -/
  | test (p : π)
  | create (p : π)
  | start (p : π)
  /-- `_commands.get` returns a command. -/
  | get (i : ℕ)
  /-- The execution of the command ends. -/
  | finish (i : ℕ)
  /-- `_commands.get` raises `Empty`. -/
  | timeout (i : ℕ)
  /-- The thread ends. -/
  | exit (i : ℕ)

namespace CommandQueue

variable {π : Type}

/-- Before any command. -/
def empty : CommandQueue π :=
  { commands := [], producers := fun _ => .idle, threads := [], commandThread := none }

/-- The place of the thread that `_command_thread` refers to. -/
def current (s : CommandQueue π) : Option DrainThread := s.commandThread.bind fun i => s.threads[i]?

/-- Put a thread in another place. -/
def move (s : CommandQueue π) (i : ℕ) (d : DrainThread) : CommandQueue π :=
  { s with threads := s.threads.set i d }

/-- `_command_thread.start()`; on a thread that has been started it raises and changes nothing. -/
def startThread (s : CommandQueue π) : CommandQueue π :=
  match s.commandThread with
  | some i => if s.threads[i]? = some .created then s.move i .waiting else s
  | none => s

/-- A new thread is created and `_command_thread` refers to it. -/
def newThread (s : CommandQueue π) : CommandQueue π :=
  { s with threads := s.threads ++ [DrainThread.created], commandThread := some s.threads.length }

section Steps

variable [DecidableEq π]

/-- Put a producer in another place. -/
def place (s : CommandQueue π) (p : π) (producer : Producer) : CommandQueue π :=
  { s with producers := Function.update s.producers p producer }

/-- One step; `none` when the producer or the thread is elsewhere. -/
def step (s : CommandQueue π) : QueueMove π → Option (CommandQueue π)
  | .put p cmd =>
    if s.producers p = .idle then some ({ s with commands := s.commands ++ [cmd] }.place p .testing)
    else none
  | .test p =>
    if s.producers p = .testing then
      some (s.place p (if ∃ d ∈ s.current, d.IsAlive then .idle else .creating))
    else none
  | .create p => if s.producers p = .creating then some (s.newThread.place p .starting) else none
  | .start p => if s.producers p = .starting then some (s.startThread.place p .idle) else none
  | .get i =>
    match s.threads[i]?, s.commands with
    | some .waiting, cmd :: rest => some ({ s with commands := rest }.move i (.executing cmd))
    | _, _ => none
  | .finish i =>
    match s.threads[i]? with
    | some (.executing _) => some (s.move i .waiting)
    | _ => none
  | .timeout i =>
    match s.threads[i]?, s.commands with
    | some .waiting, [] => some (s.move i .leaving)
    | _, _ => none
  | .exit i =>
    match s.threads[i]? with
    | some .leaving => some (s.move i .dead)
    | _ => none

end Steps

/-! ## Who drains the queue -/

/-- A thread is in its loop. -/
def Draining (s : CommandQueue π) : Prop := ∃ d ∈ s.threads, d.InLoop

instance (s : CommandQueue π) : Decidable s.Draining :=
  inferInstanceAs (Decidable (∃ d ∈ s.threads, d.InLoop))

/-- No producer is between its put and the end of its `_ensure_command_thread`. -/
def Settled (s : CommandQueue π) : Prop := ∀ p, s.producers p = .idle

instance [Fintype π] (s : CommandQueue π) : Decidable s.Settled :=
  inferInstanceAs (Decidable (∀ p, s.producers p = .idle))

/-- No producer tests the thread while that has left its loop and is still alive. -/
def TestsClear (s : CommandQueue π) : QueueMove π → Prop
  | .test _ => s.current ≠ some .leaving
  | _ => True

instance (s : CommandQueue π) (m : QueueMove π) : Decidable (s.TestsClear m) := by
  cases m <;> unfold TestsClear <;> infer_instance

/-- A producer is going to see to it that a thread drains the queue. -/
def Ensuring (s : CommandQueue π) : Prop :=
  (∃ p, s.producers p = .testing ∨ s.producers p = .creating) ∨
    s.current = some .created ∧ ∃ p, s.producers p = .starting

/-- The invariant: what is on the queue is drained, or a producer sees to it. -/
def Attended (s : CommandQueue π) : Prop := s.commands ≠ [] → s.Draining ∨ s.Ensuring

theorem not_ensuring_of_settled {s : CommandQueue π} (h : s.Settled) : ¬ s.Ensuring := by
  rintro (⟨p, hp⟩ | ⟨-, p, hp⟩) <;> simp [h p] at hp

theorem draining_of_current {s : CommandQueue π} {d : DrainThread} (h : s.current = some d)
    (hd : d.InLoop) : s.Draining := by
  obtain ⟨i, -, hi⟩ := Option.bind_eq_some_iff.mp h
  exact ⟨d, List.mem_of_getElem? hi, hd⟩

/-- A thread that moves to a place in its loop drains the queue. -/
theorem draining_move {s : CommandQueue π} {i : ℕ} {d d' : DrainThread}
    (h : s.threads[i]? = some d')
    (hd : d.InLoop) : (s.move i d).Draining := by
  obtain ⟨hi, -⟩ := List.getElem?_eq_some_iff.mp h
  exact ⟨d, List.mem_set hi d, hd⟩

/-- A thread that is out of its loop does not count, wherever it moves. -/
theorem Attended.move {s : CommandQueue π} {i : ℕ} {d d' : DrainThread} (h : s.Attended)
    (hi : s.threads[i]? = some d') (hd' : ¬ d'.InLoop ∧ d' ≠ .created) : (s.move i d).Attended := by
  intro hc
  rcases h hc with ⟨e, he, hloop⟩ | (hp | ⟨hcurrent, hp⟩)
  · refine .inl ⟨e, ?_, hloop⟩
    obtain ⟨j, hj⟩ := List.mem_iff_getElem?.mp he
    have hne : i ≠ j := by
      rintro rfl
      rw [hi] at hj
      cases hj
      exact hd'.1 hloop
    exact List.mem_of_getElem? (i := j) (by simpa [CommandQueue.move, hne] using hj)
  · exact .inr (.inl hp)
  · refine .inr (.inr ⟨?_, hp⟩)
    obtain ⟨j, hj, hthread⟩ := Option.bind_eq_some_iff.mp hcurrent
    have hne : i ≠ j := by
      rintro rfl
      rw [hi] at hthread
      cases hthread
      exact hd'.2 rfl
    exact Option.bind_eq_some_iff.mpr ⟨j, hj, by simpa [CommandQueue.move, hne] using hthread⟩

section Runs

variable [DecidableEq π] {s t : CommandQueue π} {m : QueueMove π}

theorem place_self (s : CommandQueue π) (p : π) (producer : Producer) :
    (s.place p producer).producers p = producer := Function.update_self _ _ _

/-- The test finds a thread alive, which is in its loop; or the producer goes on to create one. -/
theorem attended_test (s : CommandQueue π) (p : π) (hok : s.current ≠ some .leaving) :
    (s.place p (if ∃ d ∈ s.current, d.IsAlive then .idle else .creating)).Attended := by
  intro _
  by_cases ha : ∃ d ∈ s.current, d.IsAlive
  · obtain ⟨d, hd, halive⟩ := ha
    have hloop : d.InLoop := halive.inLoop_or_leaving.resolve_right fun hl => hok (hl ▸ hd)
    exact .inl (draining_of_current hd hloop)
  · rw [if_neg ha]
    exact .inr (.inl ⟨p, .inr (place_self s p _)⟩)

/-- A producer that has created a thread is going to start it, or another producer is. -/
theorem attended_create (s : CommandQueue π) (p : π) :
    (s.newThread.place p .starting).Attended := by
  refine fun _ => .inr (.inr ⟨?_, p, place_self _ p _⟩)
  simp [current, place, newThread]

/-- The start puts the thread in its loop. If the thread has been started already, it is another one
or another producer that sees to the queue. -/
theorem Attended.start (h : s.Attended) {p : π} (hp : s.producers p = .starting) :
    (s.startThread.place p .idle).Attended := by
  intro hc
  by_cases hcurrent : s.current = some .created
  · obtain ⟨i, hi, hthread⟩ := Option.bind_eq_some_iff.mp hcurrent
    have hstart : s.startThread = s.move i .waiting := by simp [startThread, hi, hthread]
    rw [hstart]
    exact .inl (draining_move hthread trivial)
  · have hstart : s.startThread = s := by
      unfold startThread
      split
      · rename_i i hi
        exact if_neg fun hthread => hcurrent (by simp [current, hi, hthread])
      · rfl
    rw [hstart] at hc ⊢
    rcases h hc with hd | (⟨q, hq⟩ | ⟨hcreated, -⟩)
    · exact .inl hd
    · have hne : q ≠ p := by
        rintro rfl
        simp [hp] at hq
      exact .inr (.inl ⟨q, by simpa [place, hne] using hq⟩)
    · exact absurd hcreated hcurrent

/-- **One step keeps the queue attended**, unless a producer tests a thread that is leaving. -/
theorem Attended.step (h : s.Attended) (hs : s.step m = some t) (hok : s.TestsClear m) :
    t.Attended := by
  cases m with
  | put p cmd =>
    simp only [CommandQueue.step, Option.ite_none_right_eq_some] at hs
    obtain ⟨-, hs⟩ := hs
    cases hs
    exact fun _ => .inr (.inl ⟨p, .inl (place_self _ p _)⟩)
  | test p =>
    simp only [CommandQueue.step, Option.ite_none_right_eq_some] at hs
    obtain ⟨-, hs⟩ := hs
    cases hs
    exact attended_test s p hok
  | create p =>
    simp only [CommandQueue.step, Option.ite_none_right_eq_some] at hs
    obtain ⟨-, hs⟩ := hs
    cases hs
    exact attended_create s p
  | start p =>
    simp only [CommandQueue.step, Option.ite_none_right_eq_some] at hs
    obtain ⟨hp, hs⟩ := hs
    cases hs
    exact h.start hp
  | get i =>
    simp only [CommandQueue.step] at hs
    split at hs
    · rename_i hi hc
      cases hs
      exact fun _ => .inl (draining_move hi trivial)
    · cases hs
  | finish i =>
    simp only [CommandQueue.step] at hs
    split at hs
    · rename_i hi
      cases hs
      exact fun _ => .inl (draining_move hi trivial)
    · cases hs
  | timeout i =>
    simp only [CommandQueue.step] at hs
    split at hs
    · rename_i hc
      cases hs
      exact fun hne => absurd hc hne
    · cases hs
  | exit i =>
    simp only [CommandQueue.step] at hs
    split at hs
    · rename_i hi
      cases hs
      exact h.move hi ⟨id, by decide⟩
    · cases hs

/-- **No command is left on the queue with nobody to run it**, in every run of any number of
producers and threads in which no producer tests the thread between its leaving the loop and its
end: in every state reached in which no producer is at work and the queue is not empty, a thread is
in its loop. -/
theorem queued_commands_are_drained (ms : List (QueueMove π)) (s : CommandQueue π)
    (h : Transition.Run (Transition.restrict TestsClear (Transition.ofPartial step)) empty ms s)
    (hsettled : s.Settled) (hc : s.commands ≠ []) : s.Draining := by
  have hattended : s.Attended := by
    refine h.invariant ?_ fun s m t hs hstep => hs.step hstep.2 hstep.1
    exact fun hc => absurd rfl hc
  exact (hattended hc).resolve_right (not_ensuring_of_settled hsettled)

end Runs

/-- A producer puts a pause on the queue, finds no thread alive and starts one. -/
def pausing (p : Bool) : List (QueueMove Bool) := [.put p .pause, .test p, .create p, .start p]

/-- A thread executes a command and leaves its loop. -/
def serving (i : ℕ) : List (QueueMove Bool) := [.get i, .finish i, .timeout i]

/-- After the first thread has ended, the second producer starts another. -/
theorem second_pause_is_drained : ∃ s : CommandQueue Bool, s.commands = [.pause] ∧ s.Draining := by
  set ms : List (QueueMove Bool) := pausing true ++ serving 0 ++ .exit 0 :: pausing false
  have hrun : ∃ s ∈ ms.foldlM (Transition.guarded TestsClear step) empty,
      s.commands = [.pause] ∧ s.Settled := by decide +kernel
  obtain ⟨s, hs, hc, hsettled⟩ := hrun
  refine ⟨s, hc, queued_commands_are_drained ms s ?_ hsettled (by simp [hc])⟩
  rw [Transition.restrict_ofPartial]
  exact Transition.run_ofPartial.mpr hs

/-- Another producer puts a pause on the queue and finds a thread alive. -/
def trusting (p : Bool) : List (QueueMove Bool) := [.put p .pause, .test p]

/-- A producer that finds the thread alive while it leaves strands its command. -/
theorem second_pause_is_stranded :
    ∃ s ∈ (pausing true ++ serving 0 ++ trusting false).foldlM step empty,
      s.Settled ∧ s.commands = [.pause] ∧ ¬ s.Draining := by
  decide +kernel

end CommandQueue

end FlashforgeObico
