import MilpbookLM.Accounts.Custody
import MilpbookLM.Accounts.Ownership
import MilpbookLM.Api.EventFrames
import MilpbookLM.Api.Publishing
import MilpbookLM.Base.Text
import MilpbookLM.Blobs.Durability
import MilpbookLM.Blobs.Protocol
import MilpbookLM.Blobs.Store
import MilpbookLM.Documents.Canonical
import MilpbookLM.Documents.Chunking
import MilpbookLM.Documents.Coordinates
import MilpbookLM.Documents.Lossless
import MilpbookLM.Documents.MarkdownParser
import MilpbookLM.Documents.MarkdownProgress
import MilpbookLM.Documents.Persistence
import MilpbookLM.Documents.TextCodec
import MilpbookLM.Documents.TextParser
import MilpbookLM.Indexing.Build
import MilpbookLM.Indexing.Completeness
import MilpbookLM.Indexing.Retrieval
import MilpbookLM.Indexing.Swap
import MilpbookLM.Jobs.Attempts
import MilpbookLM.Jobs.Capacity
import MilpbookLM.Jobs.Claiming
import MilpbookLM.Jobs.Errors
import MilpbookLM.Jobs.Idempotency
import MilpbookLM.Jobs.JobStep
import MilpbookLM.Jobs.Persistence
import MilpbookLM.Jobs.Refinement
import MilpbookLM.Jobs.Runs
import MilpbookLM.Jobs.Terminal
import MilpbookLM.Jobs.UseCases
import MilpbookLM.Lib.Automaton
import MilpbookLM.Lib.Frame
import MilpbookLM.Lib.Progress
import MilpbookLM.Lib.RowLock
import MilpbookLM.Lib.Serial
import MilpbookLM.Lib.Table
import MilpbookLM.Research.Authorization
import MilpbookLM.Research.Automation
import MilpbookLM.Research.Budgets
import MilpbookLM.Research.Executor
import MilpbookLM.Research.LiveOrchestrator
import MilpbookLM.Research.LoopPhases
import MilpbookLM.Research.Orchestration
import MilpbookLM.Research.OrchestratorInvariant
import MilpbookLM.Research.Store
import MilpbookLM.Research.Tally
import MilpbookLM.Research.Tools
import MilpbookLM.Sources.Activation
import MilpbookLM.Sources.Derivation
import MilpbookLM.Sources.Library
import MilpbookLM.Sources.Purge
import MilpbookLM.Sources.PurgeClosure
import MilpbookLM.Sources.PurgeFrame
import MilpbookLM.Sources.PurgeResume
import MilpbookLM.Sources.Tables
import MilpbookLM.Sources.Tombstones
import MilpbookLM.Studio.Artifacts
import MilpbookLM.Studio.EditConcurrency
import MilpbookLM.Studio.Lifecycle
import MilpbookLM.Studio.NoteHistory
import MilpbookLM.Studio.Notes
import MilpbookLM.Studio.PassProtocol
import MilpbookLM.Studio.Publication
import MilpbookLM.Studio.Stranded
import MilpbookLM.Studio.StudyState
import MilpbookLM.Studio.StudyWrites
import MilpbookLM.Workers.Checkpoint
import MilpbookLM.Workers.Loop
import MilpbookLM.Workers.Ownership
import MilpbookLM.Workers.Protocol
import MilpbookLM.Workers.Races
import MilpbookLM.Accounts.Ownerless
import MilpbookLM.Execution.Values
import MilpbookLM.Execution.SpecProtocol
import MilpbookLM.Execution.NonceReplay
import MilpbookLM.Execution.Broker
import MilpbookLM.Execution.Refusals
import MilpbookLM.Execution.Frames
import MilpbookLM.Execution.WireRoundTrip
import MilpbookLM.Execution.WireStrict
import MilpbookLM.Workers.Inference
import MilpbookLM.Workers.GpuExclusion
import MilpbookLM.Workers.Residency
import MilpbookLM.Sources.Acquisition
import MilpbookLM.Sources.Identity
import MilpbookLM.Sources.ParseJobs
import MilpbookLM.Research.Outcome
import MilpbookLM.Jobs.TerminalEvents
import MilpbookLM.Lib.Crowd
import MilpbookLM.Chat.Conversations
import MilpbookLM.Chat.Closing
import MilpbookLM.Research.BrowserSession
import MilpbookLM.Lib.IpAddress
import MilpbookLM.Fetch.Addressing
import MilpbookLM.Fetch.PublicAddresses
import MilpbookLM.Lib.Ipv6Text
import MilpbookLM.Research.BrowserAddresses
import MilpbookLM.Research.AddressGuards
import MilpbookLM.Lib.Urllib
import MilpbookLM.Fetch.Urls
import MilpbookLM.Fetch.Service
import MilpbookLM.Chat.Cancellation
import MilpbookLM.Documents.CsvParser
import MilpbookLM.Documents.Paragraphs
import MilpbookLM.Documents.Trees
import MilpbookLM.Documents.ParsedTrees
import MilpbookLM.Contracts.Document
import MilpbookLM.Contracts.Codec
import MilpbookLM.Contracts.CodecLossless
import MilpbookLM.Contracts.Schema
import MilpbookLM.Documents.Isolation
import MilpbookLM.Accounts.IdentityStore
import MilpbookLM.Lib.Interleave
import MilpbookLM.Accounts.Authn
import MilpbookLM.Accounts.Bootstrap
import MilpbookLM.Accounts.Disablement
import MilpbookLM.Studio.Export
import MilpbookLM.Sources.Guide
import MilpbookLM.Documents.TextStream
import MilpbookLM.Indexing.Overfetch
import MilpbookLM.Indexing.Fusion
import MilpbookLM.Lib.Greedy
import MilpbookLM.Grounding.Assembly
import MilpbookLM.Research.Termination
import MilpbookLM.Research.StepClosure
import MilpbookLM.Research.ActionGrammar
import MilpbookLM.Documents.TokenBudget
import MilpbookLM.Documents.ChunkIdentity
import MilpbookLM.Indexing.BuildIdentity
import MilpbookLM.Research.Discovery
import MilpbookLM.Domain.ContentGuard
import MilpbookLM.Models.Lifecycle
import MilpbookLM.Models.Retries
import MilpbookLM.Models.OpenAiCompat
import MilpbookLM.Lib.Rounds
import MilpbookLM.Documents.XlsxParser
import MilpbookLM.Documents.SparseSheets
import MilpbookLM.Documents.Sniffing
import MilpbookLM.Lib.Blocks
import MilpbookLM.Sources.Quarantine
import MilpbookLM.Sources.TextAgreement
import MilpbookLM.Execution.Outputs
import MilpbookLM.Execution.Collection
import MilpbookLM.Web.Editing
import MilpbookLM.Web.NoteDetail
import MilpbookLM.Web.NoteSaves
import MilpbookLM.Db.AdvisoryLocks
import MilpbookLM.Db.BoundedRetry
import MilpbookLM.Research.SearchCache
import MilpbookLM.Sources.Refresh
import MilpbookLM.Execution.Publication
import MilpbookLM.Blobs.Garbage
import MilpbookLM.Lib.UrlText
import MilpbookLM.Fetch.UrlStability
import MilpbookLM.Execution.Images
import MilpbookLM.Execution.ImageTrees
import MilpbookLM.Execution.ImageManifests
import MilpbookLM.Execution.ImageVerification
import MilpbookLM.Execution.ImageRefusals
import MilpbookLM.Grounding.Publication
import MilpbookLM.Grounding.Grounded
import MilpbookLM.Web.ChatStream
