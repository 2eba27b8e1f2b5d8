import FlashforgeObico.Agent.Poll

/-!
# Requests

What reaches the agent from outside its own loops: the messages of Obico, and the job control and
the starts that the phone console asks for.
-/

namespace FlashforgeObico

open Py

namespace Agent

/-! ## Job control -/

/-- Put a command on the queue. -/
def enqueue (source : Source) (cmd : Command) : Method Unit :=
  .modify fun a => { a with commands := a.commands ++ [cmd] }.log [.queued source cmd]

/-- `request_command`, of the phone console. -/
def requestCommand (cmd : String) : Method Bool := do
  if cmd = "pause" then
    enqueue .console .pause
    return true
  else if cmd = "resume" then
    enqueue .console .resume
    return true
  else
    return false

/-- The command of an entry of `commands`, if it is one of `COMMANDS`. -/
def commandOf : Json → Option Command
  | .obj entry =>
    match Dict.get entry "cmd" with
    | .str text => Command.ofName? text
    | _ => none
  | _ => none

/-- What is done with an entry of `commands`: an unknown command is ignored. -/
def enqueueEntry (entry : Json) : Method Unit :=
  match commandOf entry with
  | some cmd => enqueue .obico cmd
  | none => pure ()

/-- The loop over the entries of `commands`. -/
def enqueueEntries : List Json → Method Unit
  | [] => pure ()
  | entry :: entries => do
    enqueueEntry entry
    enqueueEntries entries

/-- `viewing`, as a message changes it. -/
def viewingOf (message : Dict) (viewing : Bool) : Bool :=
  match message.get "remote_status" with
  | .obj remote => ((Dict.get? remote "viewing").map Json.truthy).getD viewing
  | _ => viewing

/-- `handle_server_message`. -/
def handleServerMessage (message : Dict) : Method Unit := do
  .modify fun a => { a with viewing := viewingOf message a.viewing }
  let entries ← .ofExcept ((message.get "commands").orElse (.arr [])).iterate
  enqueueEntries entries

/-- The effect of queued commands on the agent. -/
def enqueueAll (a : Agent) (source : Source) (cmds : List Command) : Agent :=
  { a with commands := a.commands ++ cmds }.log (cmds.map (Effect.queued source))

theorem enqueueEntries_eq (entries : List Json) (a : Agent) :
    enqueueEntries entries a = (.ok (), a.enqueueAll .obico (entries.filterMap commandOf)) := by
  induction entries generalizing a with
  | nil => simp [enqueueEntries, enqueueAll, Procedure.pure_apply]
  | cons entry entries ih =>
    rw [enqueueEntries]
    rcases hc : commandOf entry with _ | cmd
    · have h : enqueueEntry entry a = (.ok (), a) := by
        simp [enqueueEntry, hc, Procedure.pure_apply]
      rw [Procedure.bind_of_ok h, ih, List.filterMap_cons_none hc]
    · have h : enqueueEntry entry a = (.ok (), a.enqueueAll .obico [cmd]) := by
        simp only [enqueueEntry, hc]
        rfl
      rw [Procedure.bind_of_ok h, ih, List.filterMap_cons_some hc]
      simp [enqueueAll, log]

/-! ## Starting a stored file -/

/-- `PrintRefused`. -/
inductive PrintRefused
  | notReady
  | unknownFile
  deriving DecidableEq, Repr

/-- `_READY_TO_START`. -/
def readyToStart : List MachineState := [.ready, .completed, .cancelled]

/-- `may_start_print`. -/
def mayStartPrint (state : Option MachineState) (fileName : String) (knownFiles : List String) :
    Option PrintRefused :=
  if ¬ ∃ s ∈ state, s ∈ readyToStart then some .notReady
  else if fileName = "" ∨ fileName ∉ knownFiles then some .unknownFile
  else none

/-- The mapping of one tool, when both of its numbers are known. -/
def mappingOf (tool : Tool) : Option MaterialMapping :=
  match tool.toolId, tool.slotId with
  | some toolId, some slotId => some { toolId, slotId }
  | _, _ => none

/-- The material mapping that the file was sliced with. -/
def mappings (file : GcodeFile) : List MaterialMapping :=
  if file.usesMaterialStation then file.tools.filterMap mappingOf else []

/-- The mapping to start a listed file with, or why it is refused. -/
def startWith (state : Option MachineState) (fileName : String) (files : List GcodeFile) :
    Except PrintRefused (List MaterialMapping) :=
  match mayStartPrint state fileName (files.map GcodeFile.name) with
  | some refusal => .error refusal
  | none => .ok (((files.find? fun file => file.name = fileName).map mappings).getD [])

/-- The guard of `start_print`, on the reply to `gcodeList`. -/
def guardStart (fileName : String) (reply : Except FlashforgeError Dict) :
    Method (Except PrintRefused (List MaterialMapping)) :=
  match reply with
  | .error _ => return .error .unknownFile
  | .ok body => do
    let files ← .ofExcept (parseGcodeFiles (.obj body))
    let snapshot ← .gets snapshot
    return startWith (snapshot.map PrinterSnapshot.state) fileName files

/-- The request of `start_print`, with the printer's answer to it. -/
def requestStart (fileName : String) (mappings : List MaterialMapping)
    (answer : Except FlashforgeError Unit) : Method (Option PrintRefused) := do
  emit (.printGcode fileName mappings answer.toBool)
  match answer with
  | .error _ => return some .notReady
  | .ok _ => return none

/-- `start_print`. -/
def startPrint (fileName : String) (reply : Except FlashforgeError Dict)
    (answer : Except FlashforgeError Unit) : Method (Option PrintRefused) := do
  match ← guardStart fileName reply with
  | .error refusal => return some refusal
  | .ok mappings => requestStart fileName mappings answer

/-- A start passes exactly when a listed file is named and the printer is idle. -/
theorem startWith_ok_iff {state : Option MachineState} {fileName : String}
    {files : List GcodeFile} :
    (∃ ms, startWith state fileName files = .ok ms) ↔
      (∃ s ∈ state, s ∈ readyToStart) ∧ fileName ≠ "" ∧ fileName ∈ files.map GcodeFile.name := by
  rw [startWith, mayStartPrint]
  split_ifs with hready hname
  · refine iff_of_false (by simp) fun ⟨_, hne, hmem⟩ => ?_
    exact hname.elim hne fun h => h hmem
  · obtain ⟨hne, hmem⟩ := not_or.mp hname
    exact iff_of_true ⟨_, rfl⟩ ⟨hready, hne, not_not.mp hmem⟩
  · exact iff_of_false (by simp) fun ⟨h, _⟩ => hready h

variable {fileName : String} {reply : Except FlashforgeError Dict} {body : Dict}
  {files : List GcodeFile}

/-- The guard on a list of files that is parsed. -/
theorem guardStart_of_parsed (hf : parseGcodeFiles (.obj body) = .ok files) (a : Agent) :
    guardStart fileName (.ok body) a =
      (.ok (startWith (a.snapshot.map PrinterSnapshot.state) fileName files), a) := by
  simp [guardStart, Procedure.bind_apply, Procedure.ofExcept, hf, Procedure.gets,
    Procedure.pure_apply]

/-- The guard only reads. -/
theorem guardStart_same (fileName : String) (reply : Except FlashforgeError Dict) (a : Agent) :
    (guardStart fileName reply a).2 = a := by
  rcases reply with e | body
  · rfl
  rcases hf : parseGcodeFiles (.obj body) with e | files
  · simp [guardStart, Procedure.bind_apply, Procedure.ofExcept, hf]
  · rw [guardStart_of_parsed hf]

/-- The guard lets a start pass exactly when the printer lists the file and was idle. -/
theorem guardStart_ok_iff {a : Agent} :
    (∃ ms, (guardStart fileName reply a).1 = .ok (.ok ms)) ↔
      ∃ body files, reply = .ok body ∧ parseGcodeFiles (.obj body) = .ok files ∧
        (∃ s ∈ a.snapshot, s.state ∈ readyToStart) ∧ fileName ≠ "" ∧
          fileName ∈ files.map GcodeFile.name := by
  rcases reply with e | body
  · simp [guardStart, Procedure.pure_apply]
  rcases hf : parseGcodeFiles (.obj body) with e | files
  · simp [guardStart, Procedure.bind_apply, Procedure.ofExcept, hf]
  · rw [guardStart_of_parsed hf]
    simp only [Except.ok.injEq, startWith_ok_iff, Option.mem_map, exists_exists_and_eq_and]
    refine ⟨fun h => ⟨body, files, rfl, hf, h⟩, ?_⟩
    rintro ⟨body, files', rfl, hf', h⟩
    obtain rfl : files = files' := Except.ok.inj (hf.symm.trans hf')
    exact h

/-- The guard only reads, and a start passes it only on a snapshot that is ready. -/
theorem guardStart_spec (fileName : String) (reply : Except FlashforgeError Dict) (a : Agent) :
    (guardStart fileName reply a).2 = a ∧ ∀ ms, (guardStart fileName reply a).1 = .ok (.ok ms) →
      ∃ s, a.snapshot = some s ∧ s.state ∈ readyToStart := by
  refine ⟨guardStart_same fileName reply a, fun ms h => ?_⟩
  obtain ⟨-, -, -, -, hready, -⟩ := guardStart_ok_iff.mp ⟨ms, h⟩
  exact hready

/-- A start that the guard lets pass is requested. -/
theorem startPrint_of_passed {a : Agent} {ms : List MaterialMapping}
    (h : (guardStart fileName reply a).1 = .ok (.ok ms)) (answer : Except FlashforgeError Unit) :
    startPrint fileName reply answer a = requestStart fileName ms answer a :=
  Procedure.bind_of_ok (Prod.ext h (guardStart_same fileName reply a))

/-- A start that the guard does not let pass is not requested. -/
theorem startPrint_of_not_passed {a : Agent}
    (h : ∀ ms, (guardStart fileName reply a).1 ≠ .ok (.ok ms))
    (answer : Except FlashforgeError Unit) :
    (startPrint fileName reply answer a).2 = a ∧
      (startPrint fileName reply answer a).1 ≠ .ok none := by
  have hsame := guardStart_same fileName reply a
  rw [startPrint]
  rcases hg : guardStart fileName reply a with ⟨e | refusal | ms, b⟩ <;> rw [hg] at h hsame
  · rw [Procedure.bind_of_error hg]
    exact ⟨hsame, by simp⟩
  · rw [Procedure.bind_of_ok hg]
    exact ⟨hsame, by simp [Procedure.pure_apply]⟩
  · exact absurd rfl (h ms)

end Agent

end FlashforgeObico
