import ReactRuntime.Agent.BoundedRun
import ReactRuntime.Agent.Gateway
import ReactRuntime.Agent.PromptCeiling
import ReactRuntime.Agent.PromptContents
import ReactRuntime.Agent.RunLoop
import ReactRuntime.Agent.Transcript
import ReactRuntime.Core.Budget
import ReactRuntime.Core.Cancel
import ReactRuntime.Core.Error
import ReactRuntime.Core.Keyspace
import ReactRuntime.Core.MeterRaces
import ReactRuntime.Core.Retry
import ReactRuntime.Core.Scope
import ReactRuntime.Core.Text
import ReactRuntime.Library.Directory
import ReactRuntime.Library.Machine
import ReactRuntime.Library.Program
import ReactRuntime.Library.SortedMap
import ReactRuntime.Library.Versioned
import ReactRuntime.Serde.Json
import ReactRuntime.Session.AmbiguousPut
import ReactRuntime.Session.CacheCoherence
import ReactRuntime.Session.Catalog
import ReactRuntime.Session.Codec
import ReactRuntime.Session.Completions
import ReactRuntime.Session.Contract
import ReactRuntime.Session.ControlMutation
import ReactRuntime.Session.ControlState
import ReactRuntime.Session.Edit
import ReactRuntime.Session.Footprint
import ReactRuntime.Session.Idempotence
import ReactRuntime.Session.Kernel
import ReactRuntime.Session.Ledger
import ReactRuntime.Session.Linearization
import ReactRuntime.Session.Observed
import ReactRuntime.Session.ObservedRuns
import ReactRuntime.Session.Outcomes
import ReactRuntime.Session.ProductionStack
import ReactRuntime.Session.Pushes
import ReactRuntime.Session.Readable
import ReactRuntime.Session.ReportCalls
import ReactRuntime.Session.ReportRecord
import ReactRuntime.Session.Reports
import ReactRuntime.Session.RoundTrip
import ReactRuntime.Session.Sequential
import ReactRuntime.Session.Store
import ReactRuntime.Session.TitleLock
import ReactRuntime.Session.ToolPairing
import ReactRuntime.Session.ToolResults
import ReactRuntime.Session.Types
import ReactRuntime.Session.Writers
import ReactRuntime.Storage.Adapter
import ReactRuntime.Storage.Caching
import ReactRuntime.Storage.LocalListing
import ReactRuntime.Storage.LocalPaths
import ReactRuntime.Storage.LocalRaces
import ReactRuntime.Storage.TenantIsolation
import ReactRuntime.Transport.ConnState
import ReactRuntime.Transport.EventHub
import ReactRuntime.Transport.Headless
import ReactRuntime.Transport.History
import ReactRuntime.Transport.LiveStream
import ReactRuntime.Transport.Mapping
import ReactRuntime.Transport.Numbering
import ReactRuntime.Transport.Preview
import ReactRuntime.Transport.Selection
import ReactRuntime.Transport.SuiteRunner
import ReactRuntime.Transport.ThreadDeletion
import ReactRuntime.Vector.LanceStore
import ReactRuntime.View.Materialization
import ReactRuntime.View.Projection
import ReactRuntime.Workflow.Runner
import ReactRuntime.Transport.AutoResume
import ReactRuntime.View.CurrentPhase
import ReactRuntime.Transport.ThreadState
import ReactRuntime.View.Timeline
import ReactRuntime.Transport.TimelinePhase
import ReactRuntime.Library.Nearest
import ReactRuntime.Library.SqlPredicate
import ReactRuntime.View.PhaseTimes
import ReactRuntime.Transport.PlanChanges
import ReactRuntime.Library.JsonGrammar
import ReactRuntime.Vector.Query
import ReactRuntime.Vector.Deletes
import ReactRuntime.Transport.PhaseTiming
import ReactRuntime.Library.Sorting
import ReactRuntime.Serde.Printer
import ReactRuntime.Serde.Reader
import ReactRuntime.Core.JsonRepair
import ReactRuntime.Core.ResilientParse
import ReactRuntime.Agent.Parsing
import ReactRuntime.Core.RepairIdentity
import ReactRuntime.Library.JsonSymbols
import ReactRuntime.Library.JsonStrings
import ReactRuntime.Serde.Document
import ReactRuntime.Core.ArgumentRepair
import ReactRuntime.Core.BearerTokens
import ReactRuntime.Core.Extraction
import ReactRuntime.Core.ParserAgreement
import ReactRuntime.Core.CallIds
import ReactRuntime.Core.ErrorContext
import ReactRuntime.Core.ExcerptWindows
import ReactRuntime.Agent.ToolOutput
import ReactRuntime.Agent.FailureLedger
import ReactRuntime.Core.AnsiText
import ReactRuntime.Core.SchemaPositions
import ReactRuntime.Kb.Chunking
import ReactRuntime.Library.Census
import ReactRuntime.Library.Sifting
import ReactRuntime.Llm.InflightLimiter
import ReactRuntime.Session.Analysis
import ReactRuntime.Session.LogSummary
import ReactRuntime.Session.LoopDetection
import ReactRuntime.Session.PhaseRegression
import ReactRuntime.Agent.AuditedRun
import ReactRuntime.Feedback.Clients
import ReactRuntime.Feedback.Listings
import ReactRuntime.Feedback.Runs
import ReactRuntime.Kb.Ingest
import ReactRuntime.Kb.IngestRuns
import ReactRuntime.Kb.Search
import ReactRuntime.Kb.SearchRuns
import ReactRuntime.Library.Paging
import ReactRuntime.Library.Screen
import ReactRuntime.Llm.PartLog
import ReactRuntime.Runtime.RunLog
import ReactRuntime.Storage.S3
import ReactRuntime.Storage.S3Calls
import ReactRuntime.Storage.S3Listing
import ReactRuntime.Transport.Repaint
import ReactRuntime.Transport.ScreenContents
import ReactRuntime.Transport.TerminalFocus
import ReactRuntime.Transport.TerminalLoop
