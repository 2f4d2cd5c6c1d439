import Fixus.Policy.Ceiling
import Fixus.Lifecycle.Agreement
import Fixus.Lifecycle.Batches
import Fixus.Lifecycle.Conversation
import Fixus.Lifecycle.Existence
import Fixus.Lifecycle.Residency
import Fixus.Lifecycle.Sequential
import Fixus.Lifecycle.Uniqueness
import Fixus.Store.Context
import Fixus.Store.Redelivery
import Fixus.Orchestrator.Publications
import Fixus.Orchestrator.Redispatch
import Fixus.Orchestrator.Requests
import Fixus.Orchestrator.Retries
import Fixus.Orchestrator.Slots
import Fixus.Interleaved.Loading
import Fixus.Interleaved.Order
import Fixus.Interleaved.Presence
import Fixus.Interleaved.Writers
import Fixus.Fixlet.TurnBegin
import Fixus.Orchestrator.Waiters
import Fixus.Store.Unfinished
import Fixus.Orchestrator.Intervention
import Fixus.Orchestrator.Watchdog
import Fixus.Fixlet.Acp
import Fixus.Fixlet.Router
import Fixus.Fixlet.Closing
import Fixus.Fixlet.Attribution
import Fixus.Orchestrator.Reads
import Fixus.Orchestrator.TaskEnd
import Fixus.Data.JsonText
import Fixus.Data.SerdeJson
import Fixus.Policy.Text
import Fixus.ToolsBank.PolicyHeader
import Fixus.Lib.Prefix
import Fixus.Policy.Containment
import Fixus.Policy.Completeness
import Fixus.Store.TenantPolicy
import Fixus.Orchestrator.Dispatching
import Fixus.FixusStream.Replay
import Fixus.ToolsBank.PendingCalls
import Fixus.ToolsBank.StepReports
import Fixus.Lifecycle.SummaryTrigger
import Fixus.Fixlet.Prompt
import Fixus.Lifecycle.Replies
import Fixus.Lifecycle.RedoCounts
import Fixus.Policy.Subset
import Fixus.Interleaved.Numbering
import Fixus.Lifecycle.RecentTurns
import Fixus.Lifecycle.TokenStats
import Fixus.Lifecycle.StepKinds
import Fixus.Lib.Alone
import Fixus.Orchestrator.Aside
import Fixus.Orchestrator.Convergence
import Fixus.Orchestrator.Idempotence
import Fixus.Store.PolicyScan
import Fixus.ToolsBank.ToolRegistry
import Fixus.Lib.Separated
import Fixus.ToolsBank.CanonicalJson
import Fixus.ToolsBank.BuildKey
import Fixus.Lib.Utf8
import Fixus.ToolCatalog.Argv
import Fixus.ToolCatalog.Render
import Fixus.ToolCatalog.Catalog
import Fixus.ToolCatalog.Templates
import Fixus.ToolCatalog.Timeouts
import Fixus.Orchestrator.Deadlines
import Fixus.Lifecycle.Representation
import Fixus.Lib.Holes
import Fixus.Lifecycle.SeqGaps
import Fixus.Orchestrator.Conserving
import Fixus.Server.Deployment
import Fixus.ToolsBank.ToolCalls
import Fixus.Lifecycle.RecoveryReads
import Fixus.Lifecycle.LogdbdTerminals
import Fixus.Lifecycle.History
import Fixus.Lifecycle.LogdbdHistory
import Fixus.Lifecycle.BrokerHistory
import Fixus.Server.RecoveryPreview
import Fixus.Lib.Delimited
import Fixus.ToolsBank.HttpAdapters
import Fixus.ToolsBank.BankRegistry
import Fixus.Lifecycle.CreatedTask
import Fixus.Lib.PubSub
import Fixus.FixusStream.Tokens
