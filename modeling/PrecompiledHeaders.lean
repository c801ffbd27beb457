import PrecompiledHeaders.Arguments
import PrecompiledHeaders.Artifacts
import PrecompiledHeaders.Bench
import PrecompiledHeaders.Build
import PrecompiledHeaders.Collection
import PrecompiledHeaders.Config
import PrecompiledHeaders.Config.Reader
import PrecompiledHeaders.Config.Validity
import PrecompiledHeaders.Dependency
import PrecompiledHeaders.Digest
import PrecompiledHeaders.Document
import PrecompiledHeaders.Exchange.Reading
import PrecompiledHeaders.Exchange.Writing
import PrecompiledHeaders.Fault
import PrecompiledHeaders.FilePath
import PrecompiledHeaders.FileTable
import PrecompiledHeaders.FileTree
import PrecompiledHeaders.Freshness
import PrecompiledHeaders.Json.Decode
import PrecompiledHeaders.Json.Reader
import PrecompiledHeaders.Json.Value
import PrecompiledHeaders.Json.Writer
import PrecompiledHeaders.Listing
import PrecompiledHeaders.LogLevel
import PrecompiledHeaders.Main
import PrecompiledHeaders.MemoryFiles
import PrecompiledHeaders.Merger
import PrecompiledHeaders.Options
import PrecompiledHeaders.Part
import PrecompiledHeaders.Pipeline
import PrecompiledHeaders.Program
import PrecompiledHeaders.Progress
import PrecompiledHeaders.Proofs.Attribution
import PrecompiledHeaders.Proofs.Building
import PrecompiledHeaders.Proofs.Collecting
import PrecompiledHeaders.Proofs.DigestValues
import PrecompiledHeaders.Proofs.FileTable
import PrecompiledHeaders.Proofs.Fingerprints
import PrecompiledHeaders.Proofs.FirstBatch
import PrecompiledHeaders.Proofs.FirstMentions
import PrecompiledHeaders.Proofs.Headers
import PrecompiledHeaders.Proofs.Holdings
import PrecompiledHeaders.Proofs.Identities
import PrecompiledHeaders.Proofs.Json.Fields
import PrecompiledHeaders.Proofs.Json.Grammar
import PrecompiledHeaders.Proofs.Json.RoundTrip
import PrecompiledHeaders.Proofs.Json.Strict
import PrecompiledHeaders.Proofs.Layering
import PrecompiledHeaders.Proofs.Merger.Again
import PrecompiledHeaders.Proofs.Merger.Changes
import PrecompiledHeaders.Proofs.Merger.Grouping
import PrecompiledHeaders.Proofs.Merger.Leftovers
import PrecompiledHeaders.Proofs.Merger.Membership
import PrecompiledHeaders.Proofs.Merger.Replay
import PrecompiledHeaders.Proofs.Merger.Settled
import PrecompiledHeaders.Proofs.OrderOfUse
import PrecompiledHeaders.Proofs.PartKeys
import PrecompiledHeaders.Proofs.Paths
import PrecompiledHeaders.Proofs.Pipeline.Aside
import PrecompiledHeaders.Proofs.Pipeline.Batch
import PrecompiledHeaders.Proofs.Pipeline.Coherence
import PrecompiledHeaders.Proofs.Pipeline.Delivery
import PrecompiledHeaders.Proofs.Pipeline.Drafts
import PrecompiledHeaders.Proofs.Pipeline.Filing
import PrecompiledHeaders.Proofs.Pipeline.Layers
import PrecompiledHeaders.Proofs.Pipeline.Making
import PrecompiledHeaders.Proofs.Pipeline.Moves
import PrecompiledHeaders.Proofs.Pipeline.Provenance
import PrecompiledHeaders.Proofs.Pipeline.Recalling
import PrecompiledHeaders.Proofs.Pipeline.Rechecks
import PrecompiledHeaders.Proofs.Pipeline.Rounds
import PrecompiledHeaders.Proofs.Pipeline.Runs
import PrecompiledHeaders.Proofs.Pipeline.Steps
import PrecompiledHeaders.Proofs.Pipeline.Submitting
import PrecompiledHeaders.Proofs.Pipeline.Twins
import PrecompiledHeaders.Proofs.Pipeline.Warm
import PrecompiledHeaders.Proofs.Pipeline.Watching
import PrecompiledHeaders.Proofs.Provider.Calls
import PrecompiledHeaders.Proofs.Provider.Damage
import PrecompiledHeaders.Proofs.Provider.Failures
import PrecompiledHeaders.Proofs.Provider.Overlays
import PrecompiledHeaders.Proofs.Provider.Registry
import PrecompiledHeaders.Proofs.Provider.Staleness
import PrecompiledHeaders.Proofs.Provider.Tracking
import PrecompiledHeaders.Proofs.Queue.Accounting
import PrecompiledHeaders.Proofs.Queue.Completion
import PrecompiledHeaders.Proofs.Queue.Displacement
import PrecompiledHeaders.Proofs.Queue.Instructions
import PrecompiledHeaders.Proofs.Queue.Retraction
import PrecompiledHeaders.Proofs.Queue.Standing
import PrecompiledHeaders.Proofs.Queue.Waiting
import PrecompiledHeaders.Proofs.ReadBack
import PrecompiledHeaders.Proofs.Records
import PrecompiledHeaders.Proofs.Remembering
import PrecompiledHeaders.Proofs.Renumbering
import PrecompiledHeaders.Proofs.Reports
import PrecompiledHeaders.Proofs.SearchPaths
import PrecompiledHeaders.Proofs.SecondStart
import PrecompiledHeaders.Proofs.Split
import PrecompiledHeaders.Proofs.StoreCalls
import PrecompiledHeaders.Proofs.TaskKeys
import PrecompiledHeaders.Proofs.UsedMacros
import PrecompiledHeaders.Proofs.Validity
import PrecompiledHeaders.Proofs.WireFormat
import PrecompiledHeaders.Proofs.Workshop
import PrecompiledHeaders.Provider
import PrecompiledHeaders.Queue
import PrecompiledHeaders.Record
import PrecompiledHeaders.Scan
import PrecompiledHeaders.Schedule
import PrecompiledHeaders.Scope
import PrecompiledHeaders.Session
import PrecompiledHeaders.Settings
import PrecompiledHeaders.Shell.Pattern
import PrecompiledHeaders.Shell.Run
import PrecompiledHeaders.Shell.Script
import PrecompiledHeaders.Shell.State
import PrecompiledHeaders.Shell.Tools
import PrecompiledHeaders.Site
import PrecompiledHeaders.Split
import PrecompiledHeaders.Task
import PrecompiledHeaders.Text.Blank
import PrecompiledHeaders.Text.CaseTable
import PrecompiledHeaders.Text.EscapeTable
import PrecompiledHeaders.Text.Hex
import PrecompiledHeaders.Text.LowerCase
import PrecompiledHeaders.Text.Quoted
import PrecompiledHeaders.Text.Utf8
import PrecompiledHeaders.Toml.Decode
import PrecompiledHeaders.Toml.Document
import PrecompiledHeaders.Toml.Scalar
import PrecompiledHeaders.Toml.Text
import PrecompiledHeaders.Toml.Value
import PrecompiledHeaders.Watch
import PrecompiledHeaders.World
