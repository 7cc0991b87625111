import ChainSync.Ancestor
import ChainSync.Block.Body
import ChainSync.Block.Header
import ChainSync.Block.Receipt
import ChainSync.Bytes
import ChainSync.Category
import ChainSync.Chain
import ChainSync.Config
import ChainSync.Consensus
import ChainSync.Crc32
import ChainSync.Decimal
import ChainSync.Discovery.Endpoint
import ChainSync.Discovery.Record
import ChainSync.Discovery.Source
import ChainSync.Discovery.Updater
import ChainSync.Duration
import ChainSync.Events
import ChainSync.Fetch.BlockData
import ChainSync.Fetch.Call
import ChainSync.Fetch.Queue
import ChainSync.Fetch.Run
import ChainSync.Fetch.Workload
import ChainSync.Fork.Filter
import ChainSync.Fork.Id
import ChainSync.Fork.Schedule
import ChainSync.Headers.Fill
import ChainSync.Headers.Query
import ChainSync.Headers.Skeleton
import ChainSync.Headers.SkeletonFetch
import ChainSync.Hex
import ChainSync.Json.Block
import ChainSync.Json.Codec
import ChainSync.Json.Fork
import ChainSync.Json.Reader
import ChainSync.Json.Sync
import ChainSync.Json.Value
import ChainSync.Json.Writer
import ChainSync.Keccak
import ChainSync.Metrics
import ChainSync.Metrics.Exposition
import ChainSync.Peer.Request
import ChainSync.Peer.Set
import ChainSync.Positioned
import ChainSync.Progress
import ChainSync.Proofs.Headers.Fill
import ChainSync.Proofs.State.Complete
import ChainSync.Range
import ChainSync.Rlp.Encoding
import ChainSync.Rlp.Item
import ChainSync.Scenario.Blocks
import ChainSync.Scenario.Reading
import ChainSync.Scenario.Report
import ChainSync.Scenario.World
import ChainSync.Session.Attempt
import ChainSync.Session.Downloader
import ChainSync.Session.Session
import ChainSync.Session.Stage
import ChainSync.Simulation.Chain
import ChainSync.Simulation.Job
import ChainSync.Simulation.Ledger
import ChainSync.Simulation.Network
import ChainSync.Simulation.Peer
import ChainSync.Simulation.Site
import ChainSync.Simulation.Trie
import ChainSync.State.Download
import ChainSync.SyncError
import ChainSync.Word
import ChainSync.Proofs.Fetch.BlockData
import ChainSync.Proofs.Block.Commitments
import ChainSync.Proofs.Headers.Settled
import ChainSync.Proofs.Fetch.Steady
import ChainSync.Proofs.Fetch.Unique
import ChainSync.Proofs.Headers.Skeleton
import ChainSync.Proofs.Session.Segment
import ChainSync.Proofs.Session.Stages
import ChainSync.Proofs.Session.Opening
import ChainSync.Proofs.Session.Course
import ChainSync.Proofs.Fetch.Failures
import ChainSync.Proofs.Headers.Given
import ChainSync.Proofs.Headers.Blame
import ChainSync.Proofs.Peer.Choice
import ChainSync.Proofs.Peer.Operations
import ChainSync.Proofs.Peer.Slots
import ChainSync.Proofs.Session.Outcome
import ChainSync.Proofs.Session.Masters
import ChainSync.Proofs.Session.Calls
import ChainSync.Proofs.Session.Supersession
import ChainSync.Proofs.Session.Voyage
import ChainSync.Proofs.Session.Advertised
import ChainSync.Proofs.Block.Binding
import ChainSync.Proofs.Fork.Verdict
import ChainSync.Proofs.Fetch.Ledger
import ChainSync.Proofs.Peer.Active
import ChainSync.Proofs.State.Accounts
import ChainSync.Proofs.Fetch.Accounts
import ChainSync.Proofs.Fetch.Occupancy
import ChainSync.Proofs.Fetch.Working
import ChainSync.Proofs.Fetch.Passes
import ChainSync.Proofs.Fetch.Honest
import ChainSync.Proofs.Fetch.Trust
import ChainSync.Proofs.Rlp.Items
import ChainSync.Proofs.Peer.Announced
import ChainSync.Proofs.Peer.Standing
import ChainSync.Proofs.State.Balance
import ChainSync.Proofs.State.Allotment
import ChainSync.Proofs.Fetch.Calm
import ChainSync.Proofs.Session.Shape
import ChainSync.Proofs.Session.Passage
import ChainSync.Proofs.Session.Pivot
import ChainSync.Proofs.Session.Crossing
import ChainSync.Proofs.Session.PivotFirst
import ChainSync.Proofs.Ancestor.Inquiry
import ChainSync.Proofs.Json.RoundTrip
import ChainSync.Proofs.Session.Trials
import ChainSync.Proofs.Session.Reckoning
import ChainSync.Proofs.Ancestor.Trail
import ChainSync.Proofs.Ancestor.Evidence
import ChainSync.Proofs.Fetch.Exclusion
import ChainSync.Proofs.Fetch.Docket
import ChainSync.Proofs.Headers.Patience
import ChainSync.Proofs.Headers.Survey
import ChainSync.Proofs.Fetch.Judgement
import ChainSync.Proofs.Peer.Selection
import ChainSync.Proofs.Fetch.Waiting
import ChainSync.Proofs.Session.Refusal
import ChainSync.Proofs.Fork.Identity
import ChainSync.Proofs.Headers.Rules
import ChainSync.Proofs.Json.Defaults
import ChainSync.Proofs.Rlp.Integers
import ChainSync.Proofs.Headers.Enclosed
import ChainSync.Proofs.Events.Delivery
import ChainSync.Proofs.Discovery.Upkeep
