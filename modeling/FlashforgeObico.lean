import FlashforgeObico.Foundations.Procedure
import FlashforgeObico.Foundations.Transition
import FlashforgeObico.Foundations.Trace
import FlashforgeObico.Foundations.Replace
import FlashforgeObico.Foundations.Distinct
import FlashforgeObico.Foundations.Address
import FlashforgeObico.Foundations.Binary64
import FlashforgeObico.Foundations.PythonText
import FlashforgeObico.Foundations.PythonBytes
import FlashforgeObico.Foundations.Utf8
import FlashforgeObico.Foundations.PercentEncoding
import FlashforgeObico.Foundations.Base64
import FlashforgeObico.Foundations.PythonValue
import FlashforgeObico.Foundations.Html
import FlashforgeObico.Foundations.JsonReader
import FlashforgeObico.Foundations.JsonText
import FlashforgeObico.Foundations.Alike
import FlashforgeObico.Flashforge.Parsing
import FlashforgeObico.Flashforge.Client
import FlashforgeObico.Flashforge.Snapshot
import FlashforgeObico.Flashforge.Fields
import FlashforgeObico.Flashforge.Listing
import FlashforgeObico.Flashforge.Typing
import FlashforgeObico.Job.Tracker
import FlashforgeObico.Obico.Status
import FlashforgeObico.Console.Status
import FlashforgeObico.Console.Temperatures
import FlashforgeObico.Obico.Server
import FlashforgeObico.Obico.Delivery
import FlashforgeObico.Obico.Supervision
import FlashforgeObico.Obico.Reconnect
import FlashforgeObico.Agent.State
import FlashforgeObico.Agent.Publish
import FlashforgeObico.Agent.Commands
import FlashforgeObico.Agent.Poll
import FlashforgeObico.Agent.Console
import FlashforgeObico.Agent.Routes
import FlashforgeObico.Agent.ToolMapping
import FlashforgeObico.Job.Sessions
import FlashforgeObico.Job.Identifiers
import FlashforgeObico.Job.Endings
import FlashforgeObico.Job.Cadence
import FlashforgeObico.Agent.Run
import FlashforgeObico.Agent.Attribution
import FlashforgeObico.Agent.Telling
import FlashforgeObico.Agent.Agreement
import FlashforgeObico.Agent.EventLabels
import FlashforgeObico.Agent.MessageLog
import FlashforgeObico.Agent.Readings
import FlashforgeObico.Agent.Unfamiliar
import FlashforgeObico.Agent.Attempts
import FlashforgeObico.Agent.Retries
import FlashforgeObico.Agent.Offline
import FlashforgeObico.Agent.DeferredPause
import FlashforgeObico.Agent.Threads
import FlashforgeObico.Agent.CommandQueue
import FlashforgeObico.Agent.CommandOrder
import FlashforgeObico.Agent.DeferredRace
import FlashforgeObico.Agent.StartPrint
import FlashforgeObico.Agent.Resilience
import FlashforgeObico.Agent.SettingsSent
import FlashforgeObico.Agent.Receiving
import FlashforgeObico.Agent.MainLoop
import FlashforgeObico.Agent.Frame
import FlashforgeObico.Agent.Faults
import FlashforgeObico.Agent.Configuration
import FlashforgeObico.Camera.Mjpeg
import FlashforgeObico.Camera.Relay
import FlashforgeObico.Camera.Fanout
import FlashforgeObico.Camera.Truncation
import FlashforgeObico.Camera.Framing
import FlashforgeObico.Camera.Slices
import FlashforgeObico.Camera.Rounds
import FlashforgeObico.Camera.Source
import FlashforgeObico.Camera.Backoff
import FlashforgeObico.Camera.Reserver
import FlashforgeObico.Agent.Endpoints
import FlashforgeObico.Agent.Answers
import FlashforgeObico.Agent.PageRequests
import FlashforgeObico.Agent.Page
import FlashforgeObico.Agent.Tabs
import FlashforgeObico.Agent.Webcams
import FlashforgeObico.Agent.Thumbnails
import FlashforgeObico.Agent.Pictures
import FlashforgeObico.Logging.Redaction
