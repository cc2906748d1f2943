import BitGraph.Js.Text
import BitGraph.Js.Number
import BitGraph.Js.Json
import BitGraph.Js.JsonText
import BitGraph.Js.Object
import BitGraph.Js.Convert
import BitGraph.Js.Lines
import BitGraph.Js.ToNumber
import BitGraph.Lib.HashTree
import BitGraph.Lib.HashChain
import BitGraph.Lib.Crash
import BitGraph.Lib.Search
import BitGraph.Lib.Since
import BitGraph.Lib.Kleene
import BitGraph.Lib.WriteOnce
import BitGraph.Lib.Trailer
import BitGraph.Lib.Best
import BitGraph.Lib.OrderedMap
import BitGraph.Lib.Layout
import BitGraph.Sha256
import BitGraph.Codec
import BitGraph.FuseMerkle
import BitGraph.FuseMerkle.Fresh
import BitGraph.Canonical
import BitGraph.Canonical.Form
import BitGraph.Ceiling
import BitGraph.Ceiling.Writer
import BitGraph.Ceiling.Consistency
import BitGraph.Ceiling.LifeCycle
import BitGraph.Ceiling.PayloadChain
import BitGraph.Ceiling.Records
import BitGraph.Carrier
import BitGraph.Carrier.Complete
import BitGraph.Audit
import BitGraph.Audit.Temporal
import BitGraph.Audit.Links
import BitGraph.Audit.Floors
import BitGraph.Audit.TemporalBounds
import BitGraph.Audit.Segments
import BitGraph.Audit.OrderedPairs
import BitGraph.Keccak
import BitGraph.Rlp
import BitGraph.Rlp.Strict
import BitGraph.Trie
import BitGraph.Trie.Build
import BitGraph.Trie.Keys
import BitGraph.Trie.Verify
import BitGraph.Ceiling.Block
import BitGraph.Ceiling.Sidecar
import BitGraph.Lib.Radix
import BitGraph.Tar
import BitGraph.Tar.Chunks
import BitGraph.Tar.Header
import BitGraph.Tar.Paths
import BitGraph.Tar.RoundTrip
import BitGraph.Player.Order
import BitGraph.Player.Lineage
import BitGraph.Player.Acyclic
import BitGraph.Player.Signature
import BitGraph.Player.Evaluate
import BitGraph.Verifier
import BitGraph.Verifier.SingleSuccessor
import BitGraph.AesGcm
import BitGraph.Tree
import BitGraph.Lib.Buckets
import BitGraph.Tree.Sort
import BitGraph.Recovery
import BitGraph.Recovery.JobLock
import BitGraph.Recovery.Queue
import BitGraph.Recovery.Plaintext
import BitGraph.Recovery.Complete
import BitGraph.Recovery.QueueCounts
import BitGraph.Recovery.QueueSalts
import BitGraph.Lib.Events
import BitGraph.Js.IntText
import BitGraph.KmsCounter
import BitGraph.Js.LineFile
import BitGraph.Js.Arith
import BitGraph.Js.Quotient
import BitGraph.Timeline.Journal
import BitGraph.Timeline.Poller
import BitGraph.Timeline.Stretch
import BitGraph.Timeline.BlockRead
import BitGraph.Timeline.EpochGenesis
import BitGraph.Timeline.Bundle
import BitGraph.Timeline.BundleSound
import BitGraph.Timeline.Unreachable
import BitGraph.Timeline.Export
import BitGraph.Timeline.ExportAgree
import BitGraph.Server.Commit
import BitGraph.Server.Parent
import BitGraph.Server.Steps
import BitGraph.Server.DropFloor
import BitGraph.Server.EpochEnd
import BitGraph.Server.EpochFloor
import BitGraph.Lib.Logged
import BitGraph.Ceiling.Verify
import BitGraph.Carrier.Settlement
import BitGraph.Carrier.Claims
import BitGraph.Carrier.Verify
import BitGraph.Carrier.Lookups
import BitGraph.Carrier.Bounds
import BitGraph.Carrier.Headers
import BitGraph.Audit.Rollup
import BitGraph.Audit.Schedule
import BitGraph.Audit.Numbering
import BitGraph.Audit.Blob
import BitGraph.Js.Indent
import BitGraph.Titles.Pm
import BitGraph.Titles.Identity
import BitGraph.Titles.Thread
import BitGraph.Titles.Custody
import BitGraph.Titles.Holder
import BitGraph.Audit.Gaps
import BitGraph.Audit.Cycles
import BitGraph.Player.Tightest
import BitGraph.Keccak.Eval
import BitGraph.Sha256.Eval
import BitGraph.Verifier.ProofHash
import BitGraph.Recovery.Lists
import BitGraph.Audit.Ingest
import BitGraph.Lib.Firsts
import BitGraph.Recovery.Dedupe
import BitGraph.Recovery.Fold
import BitGraph.Verifier.Tighten
import BitGraph.Policy
import BitGraph.TreeMember.Exact
import BitGraph.TreeMember.Entries
import BitGraph.Verifier.Attested
import BitGraph.Server.RateLimit
import BitGraph.Server.VerifyHelper
import BitGraph.Server.Ledger
import BitGraph.Server.BaseHead
import BitGraph.Server.SetMembers
import BitGraph.Player.SignedBy
import BitGraph.Carrier.Eip4844
import BitGraph.OutputRoot
import BitGraph.Tree.Parallel
import BitGraph.Ceiling.Ingest
import BitGraph.Timeline.LedgerCore
import BitGraph.Lib.Pool
import BitGraph.Fuse
import BitGraph.Fuse.Documents
import BitGraph.Fuse.Scan
import BitGraph.DigestFilter.Index
import BitGraph.Recovery.OneList
