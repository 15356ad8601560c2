import FileExtractor.Lib.System
import FileExtractor.Lib.Inevitable
import FileExtractor.Lib.Table
import FileExtractor.Lib.TempDir
import FileExtractor.Lib.Pairing
import FileExtractor.Lib.Tokens
import FileExtractor.Lib.Dict
import FileExtractor.Lib.Paging
import FileExtractor.Lib.OrderedSet
import FileExtractor.Lib.Fallible
import FileExtractor.Lib.PyInt
import FileExtractor.Lib.Uuid
import FileExtractor.Lib.Objects
import FileExtractor.Lib.Transaction
import FileExtractor.Domain.DownloadTask
import FileExtractor.Infrastructure.Zip
import FileExtractor.Infrastructure.Database
import FileExtractor.Infrastructure.Queries
import FileExtractor.Infrastructure.ReclaimStatement
import FileExtractor.Application.ProcessFiles
import FileExtractor.Infrastructure.CatalogClient
import FileExtractor.Infrastructure.HandleErrors
import FileExtractor.Infrastructure.DownloadStream
import FileExtractor.Application.CalculateStats
import FileExtractor.Application.Statistics
import FileExtractor.Frontend.FilesPage
import FileExtractor.Frontend.FilesSession
import FileExtractor.Presentation.Routes
import FileExtractor.Frontend.DownloadPage
import FileExtractor.Application.Transitions
import FileExtractor.Application.TaskCopy
import FileExtractor.Application.Answers
import FileExtractor.Application.Outstanding
import FileExtractor.Worker.World
import FileExtractor.Worker.Steps
import FileExtractor.Worker.SplitUpdate
import FileExtractor.Worker.SplitReclaim
import FileExtractor.Worker.Effects
import FileExtractor.Worker.Execution
import FileExtractor.Worker.UnitOfWork
import FileExtractor.Worker.Cleanup
import FileExtractor.Worker.Batches
import FileExtractor.Worker.Runs
import FileExtractor.Worker.Clock
import FileExtractor.Properties.TaskInvariant
import FileExtractor.Properties.Statements
import FileExtractor.Properties.WellFormed
import FileExtractor.Properties.Counters
import FileExtractor.Properties.Exclusion
import FileExtractor.Properties.Fencing
import FileExtractor.Properties.Coverage
import FileExtractor.Properties.Pairing
import FileExtractor.Properties.Marks
import FileExtractor.Properties.Recovery
import FileExtractor.Properties.Integrity
import FileExtractor.Properties.Heartbeat
import FileExtractor.Properties.Mirror
import FileExtractor.Properties.Retry
import FileExtractor.Properties.Streaming
import FileExtractor.Properties.Extraction
import FileExtractor.Properties.DigitTables
import FileExtractor.Properties.Ended
import FileExtractor.Properties.GiveBack
import FileExtractor.Properties.Blocking
import FileExtractor.Properties.Traces
import FileExtractor.Properties.Batching
import FileExtractor.Properties.Protocol
import FileExtractor.Properties.Obtained
import FileExtractor.Properties.HashFormat
import FileExtractor.Properties.FailureAtomic
import FileExtractor.Properties.Classification
import FileExtractor.Properties.Listing
import FileExtractor.Properties.Statistics
import FileExtractor.Properties.DigitCounts
import FileExtractor.Properties.Reclaim
import FileExtractor.Properties.Eligibility
import FileExtractor.Properties.Selection
import FileExtractor.Properties.Polling
import FileExtractor.Properties.Releases
import FileExtractor.Properties.Isolation
import FileExtractor.Properties.Suspension
import FileExtractor.Properties.Idempotence
import FileExtractor.Lib.Possible
import FileExtractor.Properties.Progress
import FileExtractor.Properties.Messages
import FileExtractor.Properties.Orphans
import FileExtractor.Properties.Pacing
import FileExtractor.Properties.Loading
import FileExtractor.Properties.Atomicity
import FileExtractor.Properties.UnitOfWork
import FileExtractor.Properties.AbortedCheck
import FileExtractor.Properties.Times
import FileExtractor.Properties.References
import FileExtractor.Properties.Responses
import FileExtractor.Properties.SelectionCounts
import FileExtractor.Frontend.StatsPanel
import FileExtractor.Properties.TaskList
import FileExtractor.Properties.DoubleStart
import FileExtractor.Properties.Draining
import FileExtractor.Properties.StatsModal
import FileExtractor.Properties.FileLifecycle
import FileExtractor.Properties.EndToEnd
import FileExtractor.Properties.Waiting
import FileExtractor.Properties.Leftovers
import FileExtractor.Properties.Walking
import FileExtractor.Properties.Uploads
