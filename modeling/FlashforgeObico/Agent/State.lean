import FlashforgeObico.Foundations.Procedure
import FlashforgeObico.Flashforge.Client
import FlashforgeObico.Obico.Status

/-!
# The agent's state and what it does to the outside

The fields of the class `Agent` of `agent.py`, and the effects of its methods: what is asked of the
printer, what Obico is sent, and the decisions that the log records. The methods are transcribed in
the modules after this one as `Procedure`s over the state. Two fields are not the program's: `trace`
lists the effects so far, in order, and `exited` says that an exception has left the poll loop,
which ends the process.

What an execution of `execute_command` does is marked with the execution, so that a call on the
printer can be traced back to the request it answers.
-/

namespace FlashforgeObico

open Py

/-- `COMMANDS`. -/
inductive Command
  | pause
  | resume
  | cancel
  deriving DecidableEq, Repr

namespace Command

/-- The name of a command. -/
def name : Command → String
  | pause => "pause"
  | resume => "resume"
  | cancel => "cancel"

/-- `name.capitalize()`. -/
def capitalized : Command → String
  | pause => "Pause"
  | resume => "Resume"
  | cancel => "Cancel"

/-- The command of a name, if it is one of `COMMANDS`. -/
def ofName? (text : String) : Option Command := [pause, resume, cancel].find? fun c => c.name = text

end Command

/-! ## Effects -/

/-- Where an execution of `execute_command` comes from: a queued command, or the pause that was
deferred as the `k`-th. -/
inductive Origin
  | queued
  | deferred (k : ℕ)
  deriving DecidableEq

/-- An execution of `execute_command`; they are numbered in the order they begin. -/
structure Execution where
  number : ℕ
  origin : Origin
  cmd : Command
  deriving DecidableEq

/-- Where a command of the queue was received. -/
inductive Source
  | obico
  | console
  deriving DecidableEq

/-- Why `execute_command` ignores a command. -/
inductive Ignored
  | noActiveJob
  | alreadyInThatState
  deriving DecidableEq

/-- Why a pending pause is dropped. -/
inductive Dropped
  | jobIsOver
  | alreadyPaused
  | overriddenBy (cmd : Command)
  deriving DecidableEq

/-- What `post_printer_event` is given; the camera frame is left out. -/
structure PrinterEvent where
  title : String
  text : String
  eventClass : String := "ERROR"
  deriving DecidableEq

/-- A pair of `materialMappings`. -/
structure MaterialMapping where
  toolId : ℤ
  slotId : ℤ
  deriving DecidableEq

/-- The effects of the methods. -/
inductive Effect
  /-- A `detail` request, with the snapshot of the reply, if one was read. -/
  | detail (read : Option PrinterSnapshot)
  /-- A `printGcode` request. -/
  | printGcode (fileName : String) (mappings : List MaterialMapping) (accepted : Bool)
  /-- A command was put on the queue. -/
  | queued (source : Source) (cmd : Command)
  /-- An execution began. -/
  | began (x : Execution)
  /-- The printer was called for an execution, and acknowledged the command or did not. -/
  | call (x : Execution) (acknowledged : Bool)
  /-- An execution ignored its command. -/
  | ignored (x : Execution) (reason : Ignored)
  /-- An execution left its pause pending, as the `k`-th deferred one. -/
  | deferred (x : Execution) (k : ℕ)
  /-- An execution ended, whether it returned or raised. -/
  | finished (x : Execution)
  /-- The pending pause was dropped. -/
  | dropped (reason : Dropped)
  /-- The tracker observed a snapshot. -/
  | observed (snapshot : Option PrinterSnapshot) (now : Time) (events : List Event)
  /-- Obico was sent a message, with the tracker in this state. -/
  | sent (message : Message) (tracker : JobTracker)
  /-- Obico was sent a printer event. -/
  | printerEvent (event : PrinterEvent) (accepted : Bool)
  deriving DecidableEq

namespace Effect

/-- The snapshot that a `detail` request read. -/
def read? : Effect → Option PrinterSnapshot
  | detail read => read
  | _ => none

/-- Whether an effect is a call on the printer. -/
def isCall : Effect → Bool
  | call _ _ => true
  | _ => false

/-- Whether an effect defers a pause. -/
def isDeferred : Effect → Bool
  | deferred _ _ => true
  | _ => false

/-- Whether an effect is the `k`-th deferral. -/
def isDeferredAs (k : ℕ) : Effect → Bool
  | deferred _ j => j = k
  | _ => false

/-- Whether an effect begins an execution. -/
def isBegan : Effect → Bool
  | began _ => true
  | _ => false

end Effect

/-- What holds of the effects before a call for the `k`-th deferred pause, and of `k`. -/
def BeforeDeferredCall (P : List Effect → ℕ → Prop) (pre : List Effect) : Effect → Prop
  | .call { origin := .deferred k, .. } _ => P pre k
  | _ => True

instance (P : List Effect → ℕ → Prop) [∀ t k, Decidable (P t k)] (pre : List Effect) (e : Effect) :
    Decidable (BeforeDeferredCall P pre e) := by
  unfold BeforeDeferredCall
  split <;> infer_instance

theorem beforeDeferredCall_of_not_isCall {P : List Effect → ℕ → Prop} {pre : List Effect}
    {e : Effect}
    (h : e.isCall = false) : BeforeDeferredCall P pre e := by
  cases e <;> simp_all [BeforeDeferredCall, Effect.isCall]

/-! ## The state -/

/-- The part of `Config` that the agent's methods read. -/
structure Config where
  publicHost : String
  reservePort : ℤ
  deriving DecidableEq

/-- `Config.camera_public_url`. -/
def Config.cameraPublicUrl (config : Config) (index : ℕ) (kind : String) : String :=
  "http://" ++ config.publicHost ++ ":" ++ toString config.reservePort ++ "/cameras/" ++
    toString index ++ "/" ++ kind

/-- The part of a `MjpegSource` that the agent's methods read. -/
structure Camera where
  streamUrl : String
  name : String
  deriving DecidableEq

/-- The state of an `Agent`. -/
structure Agent where
  config : Config
  cameras : List Camera := []
  /-- The sources of the reserver, when there is one. -/
  reserver : Option (List Camera) := none
  tracker : JobTracker := {}
  viewing : Bool := false
  snapshot : Option PrinterSnapshot := none
  stateText : StateText := .offline
  failures : ℕ := 0
  settingsSent : Bool := false
  /-- `none` is the initial `float("-inf")`. -/
  lastSentAt : Option Time := none
  faultsReported : List String := []
  pendingCommand : Option Command := none
  commands : List Command := []
  trace : List Effect := []
  exited : Bool := false
  deriving DecidableEq

/-- A method of the class `Agent`. -/
abbrev Method := Procedure Error Agent

namespace Agent

/-- The agent as it is built. -/
def initial (config : Config) (cameras : List Camera) (reserver : Option (List Camera)) : Agent :=
  { config, cameras, reserver }

/-- Append effects to the trace. -/
def log (a : Agent) (es : List Effect) : Agent := { a with trace := a.trace ++ es }

/-- The number of pauses deferred so far. -/
def deferrals (a : Agent) : ℕ := a.trace.countP Effect.isDeferred

/-- The number of executions begun so far. -/
def executions (a : Agent) : ℕ := a.trace.countP Effect.isBegan

/-- Record an effect. -/
def emit (e : Effect) : Method Unit := .modify fun a => a.log [e]

/-- `obico.post_printer_event`, given whether Obico accepts each event. -/
def postPrinterEvent (accepts : PrinterEvent → Bool) (event : PrinterEvent) : Method Unit :=
  emit (.printerEvent event (accepts event))

@[simp] theorem log_trace (a : Agent) (es : List Effect) : (a.log es).trace = a.trace ++ es := rfl

@[simp] theorem log_log (a : Agent) (es es' : List Effect) :
    (a.log es).log es' = a.log (es ++ es') := by simp [log]

theorem emit_bind {α : Type} (e : Effect) (k : Unit → Method α) (a : Agent) :
    (emit e >>= k) a = k () (a.log [e]) := rfl

@[simp] theorem log_nil (a : Agent) : a.log [] = a := by simp [log]

/-! ## A concrete agent and what its printer shows -/

/-- An agent without configured cameras. -/
def bare : Agent := initial { publicHost := "10.0.0.2", reservePort := 8081 } [] none

end Agent

/-- A `detail` reply with a status and a file name. -/
def detailOf (status fileName : String) : Dict :=
  [("status", .str status), ("printFileName", .str fileName)]

/-- A `detail` reply with the number of the layer that is printed. -/
def detailAt (fileName : String) (layer : ℤ) : Dict :=
  ("printLayer", .int layer) :: detailOf "printing" fileName

/-- The snapshot of a reply with a status and a file name. -/
def shown (status fileName : String) : Option PrinterSnapshot :=
  (parseSnapshot (detailOf status fileName)).toOption

end FlashforgeObico
