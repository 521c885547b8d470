import MiningPool.Block.Header
import MiningPool.Block.Value
import MiningPool.Bytes
import MiningPool.Claim.Basic
import MiningPool.Claim.Proof
import MiningPool.Claim.Proving
import MiningPool.Clock.Basic
import MiningPool.Clock.DurationText
import MiningPool.Command.Arguments
import MiningPool.Command.Run
import MiningPool.Dataset.Locator
import MiningPool.Dataset.Reader
import MiningPool.Dataset.Tree
import MiningPool.Dataset.Word
import MiningPool.Effect.Activity
import MiningPool.Effect.Collaborators
import MiningPool.Effect.Confirmation
import MiningPool.Effect.Retry
import MiningPool.Error
import MiningPool.FilePath
import MiningPool.Hex
import MiningPool.Json.Basic
import MiningPool.Json.Reader
import MiningPool.Json.Record
import MiningPool.Json.Token
import MiningPool.Json.Value
import MiningPool.Keccak
import MiningPool.Ledger.Audit
import MiningPool.Ledger.Basic
import MiningPool.Ledger.Cycle
import MiningPool.Ledger.Rotation
import MiningPool.Main
import MiningPool.Merkle.Branch
import MiningPool.Merkle.Diagnostic
import MiningPool.Merkle.NodeHash
import MiningPool.Merkle.Tree
import MiningPool.Net.Address
import MiningPool.Number.Binary64
import MiningPool.Number.ByteSize
import MiningPool.Number.Power
import MiningPool.Number.Shortest
import MiningPool.Number.Unsigned
import MiningPool.Proofs.BigEndian
import MiningPool.Proofs.Block.Header
import MiningPool.Proofs.Block.HexText
import MiningPool.Proofs.Claim.Binding
import MiningPool.Proofs.Claim.FlatBranches
import MiningPool.Proofs.Claim.Gathering
import MiningPool.Proofs.Claim.Opening
import MiningPool.Proofs.Claim.Order
import MiningPool.Proofs.Claim.OwnFailure
import MiningPool.Proofs.Claim.Recompute
import MiningPool.Proofs.Claim.Selection
import MiningPool.Proofs.Command.Arguments
import MiningPool.Proofs.Command.DatasetProof
import MiningPool.Proofs.Command.Values
import MiningPool.Proofs.Dataset.Flaws
import MiningPool.Proofs.Dataset.Opening
import MiningPool.Proofs.Dataset.Stream
import MiningPool.Proofs.Effect.Attempts
import MiningPool.Proofs.Effect.Backoff
import MiningPool.Proofs.Effect.Cancellation
import MiningPool.Proofs.Effect.Course
import MiningPool.Proofs.Effect.Interleaving
import MiningPool.Proofs.Effect.Polling
import MiningPool.Proofs.Effect.Waiting
import MiningPool.Proofs.Json.Record
import MiningPool.Proofs.Json.StringText
import MiningPool.Proofs.Ledger.ArrivalOrder
import MiningPool.Proofs.Ledger.Arrivals
import MiningPool.Proofs.Ledger.Audit
import MiningPool.Proofs.Ledger.AuditFailure
import MiningPool.Proofs.Ledger.AuditedProof
import MiningPool.Proofs.Ledger.Completion
import MiningPool.Proofs.Ledger.Confirmations
import MiningPool.Proofs.Ledger.ContractLog
import MiningPool.Proofs.Ledger.Ending
import MiningPool.Proofs.Ledger.Failure
import MiningPool.Proofs.Ledger.FixedPosition
import MiningPool.Proofs.Ledger.Invariant
import MiningPool.Proofs.Ledger.OldestFirst
import MiningPool.Proofs.Ledger.Operation
import MiningPool.Proofs.Ledger.Rotation
import MiningPool.Proofs.Ledger.Serial
import MiningPool.Proofs.Ledger.Shares
import MiningPool.Proofs.Ledger.Slots
import MiningPool.Proofs.Ledger.Trust
import MiningPool.Proofs.Ledger.Verification
import MiningPool.Proofs.Ledger.WellFormed
import MiningPool.Proofs.Merkle.Authentication
import MiningPool.Proofs.Merkle.BinaryCounter
import MiningPool.Proofs.Merkle.Binding
import MiningPool.Proofs.Merkle.BranchTree
import MiningPool.Proofs.Merkle.Builder
import MiningPool.Proofs.Merkle.Duplication
import MiningPool.Proofs.Merkle.Elements
import MiningPool.Proofs.Merkle.Plain
import MiningPool.Proofs.Merkle.Registration
import MiningPool.Proofs.Merkle.Root
import MiningPool.Proofs.Number.Hexadecimal
import MiningPool.Proofs.Number.Rounding
import MiningPool.Proofs.Rlp
import MiningPool.Proofs.Rpc.Quantity
import MiningPool.Proofs.Rpc.Replies
import MiningPool.Proofs.Rpc.Request
import MiningPool.Proofs.Rpc.Server
import MiningPool.Proofs.Settings.AuditPosition
import MiningPool.Proofs.Settings.Check
import MiningPool.Proofs.Settings.Precedence
import MiningPool.Proofs.Share.Extent
import MiningPool.Proofs.Share.RangeOrder
import MiningPool.Proofs.Utf8
import MiningPool.Proofs.Work.History
import MiningPool.Proofs.Work.Invariant
import MiningPool.Proofs.Work.Program
import MiningPool.Proofs.Work.Provenance
import MiningPool.Proofs.Work.Service
import MiningPool.Proofs.Work.Submission
import MiningPool.Proofs.Work.Target
import MiningPool.Proofs.Work.Treatment
import MiningPool.Rlp
import MiningPool.Rpc.Exchange
import MiningPool.Rpc.MediaType
import MiningPool.Rpc.Request
import MiningPool.Settings.Basic
import MiningPool.Settings.Choice
import MiningPool.Settings.Json
import MiningPool.Settings.Meaning
import MiningPool.Settings.Yaml
import MiningPool.Share.Basic
import MiningPool.Share.Tree
import MiningPool.Text.Blank
import MiningPool.Text.Printable
import MiningPool.Text.Quoted
import MiningPool.Utf8
import MiningPool.Work.Pool
import MiningPool.Work.Service
import MiningPool.Yaml.Block
import MiningPool.Yaml.Node
import MiningPool.Yaml.Scalar
import MiningPool.Yaml.Source
import MiningPool.Yaml.Tag
import MiningPool.Yaml.Text
import MiningPool.Yaml.Token
import MiningPool.Yaml.Word
