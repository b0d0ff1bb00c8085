import SimpleClaw.Lib.Runs
import SimpleClaw.Path
import SimpleClaw.Session.Coordinator
import SimpleClaw.Session.NoLoss
import SimpleClaw.Session.Serial
import SimpleClaw.Approval.Registry
import SimpleClaw.Approval.Agreement
import SimpleClaw.Approval.Authority
import SimpleClaw.Channels.Discord
import SimpleClaw.Approval.Buttons
import SimpleClaw.Host
import SimpleClaw.Sandbox.Wasm
import SimpleClaw.Tools.FileAccess
import SimpleClaw.Tools.Confinement
import SimpleClaw.Tools.GuestAgreement
import SimpleClaw.Sandbox.HostCommand
import SimpleClaw.Tools.ShellTokens
import SimpleClaw.Tools.Exec
import SimpleClaw.Tools.ExecConfinement
import SimpleClaw.Tools.InformedApproval
import SimpleClaw.Lib.Shell
import SimpleClaw.Lib.ShellWrites
import SimpleClaw.Tools.PreflightReading
import SimpleClaw.Tools.PreflightSoundness
import SimpleClaw.Tools.Edit
import SimpleClaw.Lib.Program
import SimpleClaw.Tools.Executor
import SimpleClaw.Tools.AsyncRuns
import SimpleClaw.Tools.AsyncDelivery
import SimpleClaw.Tools.AsyncIsolation
import SimpleClaw.Tools.AsyncClaims
import SimpleClaw.Config.Routing
import SimpleClaw.Gateway.Session
import SimpleClaw.Gateway.Listener
import SimpleClaw.Run.StreamingDisplay
import SimpleClaw.Run.StreamingRollover
import SimpleClaw.Run.StreamingTurn
import SimpleClaw.Run.StreamingReply
import SimpleClaw.Run.StreamingFinish
import SimpleClaw.Lib.ByteSlice
import SimpleClaw.Turn.RecallQuery
import SimpleClaw.Turn.Prepare
import SimpleClaw.Turn.Execute
import SimpleClaw.Run.Suppressed
import SimpleClaw.Lib.Utf8
import SimpleClaw.Lib.EventStream
import SimpleClaw.Providers.Json
import SimpleClaw.Providers.Types
import SimpleClaw.Providers.OpenaiCodex
import SimpleClaw.Providers.Gemini
import SimpleClaw.Providers.Chunking
import SimpleClaw.Gateway.RoutingLevels
import SimpleClaw.Lib.Layers
import SimpleClaw.Gateway.SessionIds
import SimpleClaw.Config.Validate
import SimpleClaw.Lib.VarRefs
import SimpleClaw.Config.Normalize
import SimpleClaw.Tools.RootCoverage
import SimpleClaw.Gateway.RoutedAgents
import SimpleClaw.Providers.Messages
import SimpleClaw.React.Dispatch
import SimpleClaw.React.Loop
import SimpleClaw.Lib.Recurrence
import SimpleClaw.Tools.CronStore
import SimpleClaw.Run.CronScheduler
import SimpleClaw.Run.CronFires
import SimpleClaw.Lib.Rfc3339
import SimpleClaw.Chrono
import SimpleClaw.Lib.Nearest
import SimpleClaw.Memory.LongTerm
import SimpleClaw.Memory.LongTermCalls
import SimpleClaw.Memory.IndexConsistency
import SimpleClaw.Memory.Dedupe
import SimpleClaw.Lib.Select
import SimpleClaw.Lib.Spans
import SimpleClaw.Memory.ShortTerm
import SimpleClaw.Memory.Recall
import SimpleClaw.Memory.RecallHits
import SimpleClaw.Memory.Isolation
import SimpleClaw.Lib.I64
import SimpleClaw.Auth.Store
import SimpleClaw.Auth.Access
import SimpleClaw.Auth.Credentials
import SimpleClaw.Providers.WireHistory
import SimpleClaw.React.StreamedResponse
import SimpleClaw.Tools.CommandSequence
import SimpleClaw.Invoke.Delegation
import SimpleClaw.Lib.Occurrences
import SimpleClaw.Lib.LineBreaks
import SimpleClaw.Tools.EditMatching
import SimpleClaw.Memory.KindSearch
import SimpleClaw.Memory.CombinedRecall
import SimpleClaw.Lib.Paging
import SimpleClaw.Tools.Read
import SimpleClaw.Tools.ListTree
import SimpleClaw.Lib.Notify
import SimpleClaw.Tools.AsyncWakeups
import SimpleClaw.Gateway.StopCommand
import SimpleClaw.Lib.Utf8Encode
import SimpleClaw.Turn.VisibleHistory
import SimpleClaw.Tools.AsyncOutput
import SimpleClaw.Providers.StreamedCalls
import SimpleClaw.Lib.EventEncoding
import SimpleClaw.Providers.WireEvents
import SimpleClaw.Providers.ToolSchema
import SimpleClaw.Auth.ActiveProfile
import SimpleClaw.Lib.LikePattern
import SimpleClaw.Tools.CronSearch
import SimpleClaw.Tools.Cron
import SimpleClaw.Lib.FittingPrefix
import SimpleClaw.Turn.RecalledMemory
import SimpleClaw.Invoke.Restriction
import SimpleClaw.Invoke.ToolFactory
import SimpleClaw.Lib.Tally
import SimpleClaw.Run.Transparency
import SimpleClaw.Memory.ContextSpans
import SimpleClaw.Tools.AsyncEviction
import SimpleClaw.Sandbox.Containment
import SimpleClaw.Lib.Words
import SimpleClaw.Lib.ByteSearch
import SimpleClaw.Telemetry.Redaction
import SimpleClaw.Telemetry.Scan
import SimpleClaw.Telemetry.Cuts
import SimpleClaw.Telemetry.WordPasses
import SimpleClaw.Telemetry.Totality
import SimpleClaw.Telemetry.Tracking
import SimpleClaw.Telemetry.BearerWords
import SimpleClaw.Telemetry.Completeness
import SimpleClaw.Lib.LazyMatch
import SimpleClaw.Lib.JsonText
import SimpleClaw.Providers.CompactJson
import SimpleClaw.React.XmlDispatcher
import SimpleClaw.React.XmlRoundTrip
import SimpleClaw.Tools.ApprovedRuns
import SimpleClaw.Gateway.Commands
import SimpleClaw.Gateway.CommandRuns
import SimpleClaw.Turn.Handling
import SimpleClaw.Turn.Conversation
import SimpleClaw.Run.StreamingText
import SimpleClaw.Turn.StreamedReply
import SimpleClaw.Invoke.XmlRuns
import SimpleClaw.Run.LogHistory
import SimpleClaw.Run.Composition
import SimpleClaw.Tools.Search
import SimpleClaw.Run.DaemonRuns
import SimpleClaw.Run.AgentAssembly
import SimpleClaw.Tools.WebSearch
