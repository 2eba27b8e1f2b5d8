import FlashforgeObico.Foundations.Transition
import FlashforgeObico.Agent.State
import Mathlib.Logic.Function.Basic

/-!
# The order in which commands are executed

Commands wait on a queue for the drain threads, and their executions wait for `_command_lock`. A
thread that has taken a command off the queue does not hold the lock yet, so a second thread that
takes the next command may get the lock first. `commands_run_in_order` says that the commands are
executed in the order of the queue, each once, in the runs in which no thread takes a command while
another one has taken one that it has not begun to execute. There are two threads at work only if
two producers find none alive before either of them has started one: `takesAlone_of_testsAlone`.
-/

namespace FlashforgeObico

open Transition

/-- The place of a drain thread. -/
inductive DrainPlace (κ : Type)
  /-- Not created, or not started. -/
  | unstarted
  /-- Waiting for a command. -/
  | waiting
  /-- It has taken a command and waits for `_command_lock`. -/
  | holding (cmd : κ)
  /-- In the body of `execute_command`. -/
  | running (cmd : κ)
  /-- Out of the loop, after the queue was empty, and still alive. -/
  | leaving
  | dead

/-- `is_alive`. -/
def DrainPlace.isAlive {κ : Type} : DrainPlace κ → Bool
  | unstarted | dead => false
  | _ => true

/-- Whether a thread has no command. -/
def DrainPlace.IsFree {κ : Type} : DrainPlace κ → Prop
  | holding _ | running _ => False
  | _ => True

/-- The place of a producer, in `_ensure_command_thread` after it has put a command on the queue. -/
inductive ProducerPlace
  | idle
  | testing
  | creating
  /-- It has created a thread. -/
  | assigning (i : ℕ)
  | starting
  deriving DecidableEq

/-- Whether a producer has found no thread alive and not yet started one. -/
def ProducerPlace.IsMaking : ProducerPlace → Prop
  | creating | assigning _ | starting => True
  | _ => False

/-- Who holds `_command_lock`: a drain thread, or the poll thread for a deferred command. -/
inductive LockHolder
  | poll
  | thread (i : ℕ)
  deriving DecidableEq

/-- The queue with its producers and drain threads, the commands that were put on it, and those
whose execution has begun. Threads are numbered in the order of their creation. -/
structure Dispatch (π κ : Type) where
  commands : List κ
  producers : π → ProducerPlace
  threads : ℕ → DrainPlace κ
  threadCount : ℕ
  /-- `_command_thread`. -/
  commandThread : Option ℕ
  /-- `_command_lock`. -/
  lock : Option LockHolder
  queued : List κ
  ran : List κ

/-- A step of a producer, of a drain thread or of the poll thread. -/
inductive DispatchMove (π κ : Type)
  | put (p : π) (cmd : κ)
  /-- The test of `is_alive`. -/
  | test (p : π)
  | create (p : π)
  | assign (p : π)
  | start (p : π)
  /-- `_commands.get` returns a command. -/
  | get (i : ℕ)
  /-- The execution begins. -/
  | acquire (i : ℕ)
  | finish (i : ℕ)
  /-- `_commands.get` raises `Empty`. -/
  | timeout (i : ℕ)
  | exit (i : ℕ)
  | pollAcquire
  | pollRelease

namespace Dispatch

variable {π κ : Type}

/-- Before any command. -/
def initial : Dispatch π κ where
  commands := []
  producers := fun _ => .idle
  threads := fun _ => .unstarted
  threadCount := 0
  commandThread := none
  lock := none
  queued := []
  ran := []

/-- Whether `_command_thread` is alive. -/
def threadAlive (s : Dispatch π κ) : Bool := s.commandThread.any fun i => (s.threads i).isAlive

/-- Put a thread in another place. -/
def move (s : Dispatch π κ) (i : ℕ) (d : DrainPlace κ) : Dispatch π κ :=
  { s with threads := Function.update s.threads i d }

@[grind =] theorem threads_move (s : Dispatch π κ) (i j : ℕ) (d : DrainPlace κ) :
    (s.move i d).threads j = if j = i then d else s.threads j :=
  Function.update_apply _ _ _ _

/-- `_command_thread.start()`; on a thread that has been started it raises and changes nothing. -/
def startThread (s : Dispatch π κ) : Dispatch π κ :=
  match s.commandThread with
  | some i =>
    match s.threads i with
    | .unstarted => s.move i .waiting
    | _ => s
  | none => s

theorem startThread_cases (s : Dispatch π κ) : s.startThread = s ∨
    ∃ i, s.commandThread = some i ∧ s.threads i = .unstarted ∧
      s.startThread = s.move i .waiting := by
  unfold startThread
  grind

section Steps

variable [DecidableEq π]

/-- Put a producer in another place. -/
def place (s : Dispatch π κ) (p : π) (producer : ProducerPlace) : Dispatch π κ :=
  { s with producers := Function.update s.producers p producer }

/-- One step; `none` when the one who moves is elsewhere. -/
def step (s : Dispatch π κ) : DispatchMove π κ → Option (Dispatch π κ)
  | .put p cmd =>
    if s.producers p = .idle then
      some ({ s with
        commands := s.commands ++ [cmd], queued := s.queued ++ [cmd] }.place p .testing)
    else none
  | .test p =>
    if s.producers p = .testing then some (s.place p (if s.threadAlive then .idle else .creating))
    else none
  | .create p =>
    if s.producers p = .creating then
      some ({ s with threadCount := s.threadCount + 1 }.place p (.assigning s.threadCount))
    else none
  | .assign p =>
    match s.producers p with
    | .assigning i => some ({ s with commandThread := some i }.place p .starting)
    | _ => none
  | .start p => if s.producers p = .starting then some (s.startThread.place p .idle) else none
  | .get i =>
    match s.threads i, s.commands with
    | .waiting, cmd :: rest => some ({ s with commands := rest }.move i (.holding cmd))
    | _, _ => none
  | .acquire i =>
    match s.threads i, s.lock with
    | .holding cmd, none =>
      some ({ s with lock := some (.thread i), ran := s.ran ++ [cmd] }.move i (.running cmd))
    | _, _ => none
  | .finish i =>
    match s.threads i with
    | .running _ => some ({ s with lock := none }.move i .waiting)
    | _ => none
  | .timeout i =>
    match s.threads i, s.commands with
    | .waiting, [] => some (s.move i .leaving)
    | _, _ => none
  | .exit i =>
    match s.threads i with
    | .leaving => some (s.move i .dead)
    | _ => none
  | .pollAcquire => if s.lock = none then some { s with lock := some .poll } else none
  | .pollRelease => if s.lock = some .poll then some { s with lock := none } else none

end Steps

/-! ## The order -/

/-- A thread that takes a command is the only one that has taken one it has not begun to execute. -/
def TakesAlone (s : Dispatch π κ) : DispatchMove π κ → Prop
  | .get _ => ∀ j cmd, s.threads j ≠ .holding cmd
  | _ => True

/-- The commands put on the queue are those executed, then the one in the hand of a thread, then
those on the queue; and a thread that executes a command has the lock. -/
structure Ordered (s : Dispatch π κ) : Prop where
  order : ∃ hand : Option (ℕ × κ), (∀ j cmd, s.threads j = .holding cmd ↔ hand = some (j, cmd)) ∧
    s.queued = s.ran ++ (hand.map Prod.snd).toList ++ s.commands
  lock : ∀ i cmd, s.threads i = .running cmd → s.lock = some (.thread i)

theorem ordered_initial : Ordered (initial : Dispatch π κ) := by
  refine ⟨⟨none, ?_, ?_⟩, ?_⟩ <;> simp [initial]

variable {s t : Dispatch π κ} {m : DispatchMove π κ}

/-- A thread that has no command moves to a place where it has none. -/
theorem Ordered.move (h : s.Ordered) {i : ℕ} {d : DrainPlace κ} (hi : (s.threads i).IsFree)
    (hd : d.IsFree) : (s.move i d).Ordered := by
  obtain ⟨hand, hhand, hq⟩ := h.order
  refine ⟨⟨hand, fun j cmd => ?_, hq⟩, fun j cmd hj => h.lock j cmd ?_⟩
  · rw [← hhand]
    grind [DrainPlace.IsFree]
  · grind [DrainPlace.IsFree]

theorem Ordered.place [DecidableEq π] (h : s.Ordered) (p : π) (producer : ProducerPlace) :
    (s.place p producer).Ordered := ⟨h.order, h.lock⟩

theorem Ordered.step [DecidableEq π] (h : s.Ordered) (hm : s.step m = some t)
    (hok : s.TakesAlone m) :
    t.Ordered := by
  cases m with
  | put p cmd =>
    obtain ⟨hand, hhand, hq⟩ := h.order
    obtain ⟨-, hm⟩ := Option.ite_none_right_eq_some.mp hm
    obtain rfl := Option.some.inj hm
    refine ⟨⟨hand, hhand, ?_⟩, h.lock⟩
    simp [Dispatch.place, hq]
  | get i =>
    obtain ⟨cmd, rest, hi, hcommands, rfl⟩ : ∃ cmd rest, s.threads i = .waiting ∧
        s.commands = cmd :: rest ∧ { s with commands := rest }.move i (.holding cmd) = t := by
      grind [Dispatch.step]
    obtain ⟨hand, hhand, hq⟩ := h.order
    obtain rfl : hand = none := by
      rcases hand with _ | ⟨j, c⟩
      · rfl
      · exact absurd ((hhand j c).mpr rfl) (hok j c)
    refine ⟨⟨some (i, cmd), ?_, ?_⟩, ?_⟩
    · grind [Dispatch.move]
    · simp [Dispatch.move, hq, hcommands]
    · grind [Dispatch.move, h.lock]
  | acquire i =>
    obtain ⟨cmd, hi, hlock, rfl⟩ : ∃ cmd, s.threads i = .holding cmd ∧ s.lock = none ∧
        { s with lock := some (.thread i), ran := s.ran ++ [cmd] }.move i (.running cmd) = t := by
      grind [Dispatch.step]
    obtain ⟨hand, hhand, hq⟩ := h.order
    obtain rfl := (hhand i cmd).mp hi
    refine ⟨⟨none, ?_, ?_⟩, ?_⟩
    · grind [Dispatch.move]
    · simp [Dispatch.move, hq]
    · intro j c hj
      have hnone := h.lock j c
      grind [Dispatch.move]
  | finish i =>
    obtain ⟨cmd, hi, rfl⟩ : ∃ cmd, s.threads i = .running cmd ∧
        { s with lock := none }.move i .waiting = t := by
      grind [Dispatch.step]
    obtain ⟨hand, hhand, hq⟩ := h.order
    refine ⟨⟨hand, ?_, hq⟩, fun j c hj => ?_⟩
    · grind [Dispatch.move]
    · have hlock := h.lock i cmd hi
      have hlock' := h.lock j c
      grind [Dispatch.move]
  | pollAcquire | pollRelease =>
    obtain ⟨hand, hhand, hq⟩ := h.order
    obtain ⟨hlock, hm⟩ := Option.ite_none_right_eq_some.mp hm
    obtain rfl := Option.some.inj hm
    refine ⟨⟨hand, hhand, hq⟩, fun j c hj => ?_⟩
    have hheld := h.lock j c hj
    rw [hlock] at hheld
    cases hheld
  | test p =>
    obtain ⟨-, hm⟩ := Option.ite_none_right_eq_some.mp hm
    obtain rfl := Option.some.inj hm
    exact h.place p _
  | create p =>
    obtain ⟨-, hm⟩ := Option.ite_none_right_eq_some.mp hm
    obtain rfl := Option.some.inj hm
    exact ⟨h.order, h.lock⟩
  | assign p =>
    obtain ⟨i, rfl⟩ : ∃ i, { s with commandThread := some i }.place p .starting = t := by
      grind [Dispatch.step]
    exact ⟨h.order, h.lock⟩
  | start p =>
    obtain ⟨-, hm⟩ := Option.ite_none_right_eq_some.mp hm
    obtain rfl := Option.some.inj hm
    rcases s.startThread_cases with hsame | ⟨i, -, hi, hmove⟩
    · rw [hsame]
      exact h.place p _
    · rw [hmove]
      exact (h.move (d := .waiting) (by simp [hi, DrainPlace.IsFree]) trivial).place p _
  | timeout i =>
    obtain ⟨hi, rfl⟩ : s.threads i = .waiting ∧ s.move i .leaving = t := by grind [Dispatch.step]
    exact h.move (by simp [hi, DrainPlace.IsFree]) trivial
  | exit i =>
    obtain ⟨hi, rfl⟩ : s.threads i = .leaving ∧ s.move i .dead = t := by grind [Dispatch.step]
    exact h.move (by simp [hi, DrainPlace.IsFree]) trivial

/-- **Commands run in order**, one at a time and each once, in every run of any number of producers
in which each thread that takes a command is the only one that has taken one and not begun to
execute it. -/
theorem commands_run_in_order [DecidableEq π] {ms : List (DispatchMove π κ)} {s : Dispatch π κ}
    (h : Run (restrict TakesAlone (ofPartial step)) initial ms s) :
    s.ran <+: s.queued ∧
      ∀ i j c d, s.threads i = .running c → s.threads j = .running d → i = j := by
  have hordered : s.Ordered := by
    refine h.invariant ordered_initial fun s m t hs hstep => ?_
    exact hs.step hstep.2 hstep.1
  obtain ⟨hand, -, hq⟩ := hordered.order
  refine ⟨?_, fun i j c d hi hj => ?_⟩
  · rw [hq, List.append_assoc]
    exact List.prefix_append _ _
  · have hlock := (hordered.lock i c hi).symm.trans (hordered.lock j d hj)
    exact LockHolder.thread.inj (Option.some.inj hlock)

/-! ## The threads at work -/

/-- No producer finds no thread alive while another one has found none and not yet started one. -/
def TestsAlone (s : Dispatch π κ) : DispatchMove π κ → Prop
  | .test _ => s.threadAlive = true ∨ ∀ q, ¬ (s.producers q).IsMaking
  | _ => True

instance (place : ProducerPlace) : Decidable place.IsMaking := by
  cases place <;> unfold ProducerPlace.IsMaking <;> infer_instance

instance [Fintype π] (s : Dispatch π κ) (m : DispatchMove π κ) : Decidable (s.TestsAlone m) := by
  cases m <;> unfold TestsAlone <;> infer_instance

/-- At most one producer makes a thread, and no thread is alive while it does; and at most the
thread that `_command_thread` refers to is alive. -/
structure Single (s : Dispatch π κ) : Prop where
  makers : ∀ p q, (s.producers p).IsMaking → (s.producers q).IsMaking → p = q
  making : ∀ p, (s.producers p).IsMaking → ∀ i, (s.threads i).isAlive = false
  alive : ∀ i, (s.threads i).isAlive = true → s.commandThread = some i

theorem single_initial : Single (initial : Dispatch π κ) := by
  constructor <;> simp [initial, ProducerPlace.IsMaking, DrainPlace.isAlive]

/-- A thread that is alive moves. -/
theorem Single.move (h : s.Single) {i : ℕ} (hi : (s.threads i).isAlive = true) (d : DrainPlace κ) :
    (s.move i d).Single := by
  refine ⟨h.makers, fun p hp => absurd hi (by simp [h.making p hp i]), fun j hj => ?_⟩
  rw [threads_move] at hj
  split_ifs at hj with hji
  · exact hji ▸ h.alive i hi
  · exact h.alive j hj

section Steps

variable [DecidableEq π]

theorem producers_place (s : Dispatch π κ) (p q : π) (producer : ProducerPlace) :
    (s.place p producer).producers q = if q = p then producer else s.producers q :=
  Function.update_apply _ _ _ _

/-- A producer moves, and does not begin to make a thread. -/
theorem Single.place (h : s.Single) {p : π} {producer : ProducerPlace}
    (hp : producer.IsMaking → (s.producers p).IsMaking) : (s.place p producer).Single := by
  have hmaking : ∀ q, ((s.place p producer).producers q).IsMaking → (s.producers q).IsMaking := by
    intro q hq
    rw [producers_place] at hq
    split_ifs at hq with hqp
    · exact hqp ▸ hp hq
    · exact hq
  exact ⟨fun q r hq hr => h.makers q r (hmaking q hq) (hmaking r hr),
    fun q hq => h.making q (hmaking q hq), h.alive⟩

/-- A producer finds no thread alive, and no producer makes one. -/
theorem Single.placeCreating (h : s.Single) (hnone : ∀ q, ¬ (s.producers q).IsMaking)
    (halive : s.threadAlive = false) (p : π) : (s.place p .creating).Single := by
  have hp : ∀ q, ((s.place p .creating).producers q).IsMaking → q = p := by
    intro q hq
    by_contra hne
    rw [producers_place, if_neg hne] at hq
    exact hnone q hq
  refine ⟨fun q r hq hr => (hp q hq).trans (hp r hr).symm, fun _ _ i => ?_, h.alive⟩
  refine Bool.eq_false_iff.mpr fun hi : (s.threads i).isAlive = true => ?_
  have htrue : s.threadAlive = true := by simp [threadAlive, h.alive i hi, hi]
  exact absurd htrue (by simp [halive])

/-- A producer that makes a thread has started the one that `_command_thread` refers to. -/
theorem Single.placeIdle (h : s.Single) {p : π} (hp : (s.producers p).IsMaking) {i : ℕ}
    (hi : s.commandThread = some i) : ((s.move i .waiting).place p .idle).Single := by
  have hnone : ∀ q, ¬ (((s.move i .waiting).place p .idle).producers q).IsMaking := by
    intro q hq
    rw [producers_place] at hq
    split_ifs at hq with hqp
    · exact hq
    · exact hqp (h.makers q p hq hp)
  refine ⟨fun q r hq => absurd hq (hnone q), fun q hq => absurd hq (hnone q), fun j hj => ?_⟩
  have hj' : ((s.move i .waiting).threads j).isAlive = true := hj
  rw [threads_move] at hj'
  split_ifs at hj' with hji
  · exact hji ▸ hi
  · exact absurd hj' (by simp [h.making p hp j])

theorem Single.step (h : s.Single) (hm : s.step m = some t) (hok : s.TestsAlone m) : t.Single := by
  cases m with
  | put p cmd =>
    obtain ⟨-, hm⟩ := Option.ite_none_right_eq_some.mp hm
    obtain rfl := Option.some.inj hm
    have hqueued : Single { s with commands := s.commands ++ [cmd], queued := s.queued ++ [cmd] } :=
      ⟨h.makers, h.making, h.alive⟩
    exact hqueued.place False.elim
  | test p =>
    obtain ⟨-, hm⟩ := Option.ite_none_right_eq_some.mp hm
    obtain rfl := Option.some.inj hm
    rcases halive : s.threadAlive with _ | _
    · have hnone := hok.resolve_left (by simp [halive])
      exact h.placeCreating hnone halive p
    · exact h.place False.elim
  | create p =>
    obtain ⟨hp, hm⟩ := Option.ite_none_right_eq_some.mp hm
    obtain rfl := Option.some.inj hm
    have hcreated : Single { s with threadCount := s.threadCount + 1 } :=
      ⟨h.makers, h.making, h.alive⟩
    exact hcreated.place fun _ => by simp [hp, ProducerPlace.IsMaking]
  | assign p =>
    obtain ⟨i, hp, rfl⟩ : ∃ i, s.producers p = .assigning i ∧
        { s with commandThread := some i }.place p .starting = t := by
      grind [Dispatch.step]
    have hmaking : (s.producers p).IsMaking := by simp [hp, ProducerPlace.IsMaking]
    have hassigned : Single { s with commandThread := some i } :=
      ⟨h.makers, h.making, fun j hj => absurd hj (by simp [h.making p hmaking j])⟩
    exact hassigned.place fun _ => hmaking
  | start p =>
    obtain ⟨hp, hm⟩ := Option.ite_none_right_eq_some.mp hm
    obtain rfl := Option.some.inj hm
    have hmaking : (s.producers p).IsMaking := by simp [hp, ProducerPlace.IsMaking]
    rcases s.startThread_cases with hsame | ⟨i, hi, -, hmove⟩
    · rw [hsame]
      exact h.place False.elim
    · rw [hmove]
      exact h.placeIdle hmaking hi
  | get i =>
    obtain ⟨cmd, rest, hi, rfl⟩ : ∃ cmd rest, s.threads i = .waiting ∧
        { s with commands := rest }.move i (.holding cmd) = t := by
      grind [Dispatch.step]
    have htaken : Single { s with commands := rest } := ⟨h.makers, h.making, h.alive⟩
    exact htaken.move (by simp [hi, DrainPlace.isAlive]) _
  | acquire i =>
    obtain ⟨cmd, hi, rfl⟩ : ∃ cmd, s.threads i = .holding cmd ∧
        { s with lock := some (.thread i), ran := s.ran ++ [cmd] }.move i (.running cmd) = t := by
      grind [Dispatch.step]
    have hran : Single { s with lock := some (.thread i), ran := s.ran ++ [cmd] } :=
      ⟨h.makers, h.making, h.alive⟩
    exact hran.move (by simp [hi, DrainPlace.isAlive]) _
  | finish i =>
    obtain ⟨cmd, hi, rfl⟩ : ∃ cmd, s.threads i = .running cmd ∧
        { s with lock := none }.move i .waiting = t := by
      grind [Dispatch.step]
    have hfree : Single { s with lock := none } := ⟨h.makers, h.making, h.alive⟩
    exact hfree.move (by simp [hi, DrainPlace.isAlive]) _
  | timeout i =>
    obtain ⟨hi, rfl⟩ : s.threads i = .waiting ∧ s.move i .leaving = t := by grind [Dispatch.step]
    exact h.move (by simp [hi, DrainPlace.isAlive]) _
  | exit i =>
    obtain ⟨hi, rfl⟩ : s.threads i = .leaving ∧ s.move i .dead = t := by grind [Dispatch.step]
    exact h.move (by simp [hi, DrainPlace.isAlive]) _
  | pollAcquire | pollRelease =>
    obtain ⟨-, hm⟩ := Option.ite_none_right_eq_some.mp hm
    obtain rfl := Option.some.inj hm
    exact ⟨h.makers, h.making, h.alive⟩

/-- The thread that takes a command is the only one that is alive. -/
theorem Single.takesAlone (h : s.Single) (hm : s.step m = some t) : s.TakesAlone m := by
  cases m with
  | get i =>
    intro j cmd hj
    have hi : s.threads i = .waiting := by grind [Dispatch.step]
    have hthread := h.alive i (by simp [hi, DrainPlace.isAlive])
    obtain rfl : i = j := by
      simpa [hthread] using h.alive j (by simp [hj, DrainPlace.isAlive])
    simp [hi] at hj
  | _ => trivial

/-- **One thread at work.** A run in which no producer finds no thread alive while another one makes
one is a run in which commands are taken one at a time, and so run in order. -/
theorem takesAlone_of_testsAlone {ms : List (DispatchMove π κ)} {s : Dispatch π κ}
    (h : Run (restrict TestsAlone (ofPartial step)) initial ms s) :
    Run (restrict TakesAlone (ofPartial step)) initial ms s := by
  suffices hboth : s.Single ∧ Run (restrict TakesAlone (ofPartial step)) initial ms s from hboth.2
  induction h with
  | nil => exact ⟨single_initial, .nil⟩
  | snoc _ hm ih =>
    obtain ⟨hsingle, hrun⟩ := ih
    exact ⟨hsingle.step hm.2 hm.1, hrun.snoc ⟨hsingle.takesAlone hm.2, hm.2⟩⟩

end Steps

/-! ## Two commands -/

/-- A producer puts a command on the queue and tests whether a thread is alive. -/
def queueing (p : Bool) (cmd : Command) : List (DispatchMove Bool Command) := [.put p cmd, .test p]

/-- A producer makes a thread. -/
def making (p : Bool) : List (DispatchMove Bool Command) := [.create p, .assign p, .start p]

/-- The second producer finds the thread of the first one alive, which executes both commands. -/
def oneThread : List (DispatchMove Bool Command) :=
  queueing true .pause ++ making true ++ queueing false .resume ++
    [.get 0, .acquire 0, .finish 0, .get 0, .acquire 0]

theorem one_thread_runs_in_order :
    ∃ s : Dispatch Bool Command, s.ran = [.pause, .resume] ∧ s.ran <+: s.queued := by
  have hrun : ∃ s ∈ oneThread.foldlM (guarded TestsAlone step) initial,
      s.ran = [.pause, .resume] := by decide +kernel
  obtain ⟨s, hs, hran⟩ := hrun
  have htests : Run (restrict TestsAlone (ofPartial step)) initial oneThread s := by
    rw [restrict_ofPartial]
    exact run_ofPartial.mpr hs
  exact ⟨s, hran, (commands_run_in_order (takesAlone_of_testsAlone htests)).1⟩

/-- Both producers find no thread alive, and the second thread gets the lock first. -/
def twoThreads : List (DispatchMove Bool Command) :=
  queueing true .pause ++ queueing false .resume ++ making true ++ making false ++
    [.get 0, .get 1, .acquire 1]

theorem two_threads_swap : ∃ s ∈ twoThreads.foldlM step initial, ¬ s.ran <+: s.queued := by
  decide +kernel

end Dispatch

end FlashforgeObico
