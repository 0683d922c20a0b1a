import Neverust.Tree.Proof.Layers
import Neverust.Tree.Proof.Climb
import Neverust.Tree.Proof.Verify
import Neverust.Tree.Proof.Commit
import Neverust.Tree.Proof.BlockList
import Neverust.Lib.LinearHash
import Neverust.Storage.Types
import Neverust.Storage.DeltaFlat.Page
import Neverust.Storage.DeltaFlat.Proof.Page
import Neverust.Storage.DeltaFlat.Lane
import Neverust.Storage.DeltaFlat.Proof.Index
import Neverust.Storage.DeltaFlat.Proof.Data
import Neverust.Storage.DeltaFlat.Proof.Insert
import Neverust.Storage.DeltaFlat.Proof.Lookup
import Neverust.Storage.DeltaFlat.Proof.Control
import Neverust.Storage.DeltaFlat.Proof.Run
import Neverust.Storage.DeltaFlat.Store
import Neverust.Storage.DeltaFlat.Proof.Content
import Neverust.Storage.DeltaFlat.Proof.Batch
import Neverust.Storage.DeltaFlat.Proof.Scan
import Neverust.Storage.DeltaFlat.Proof.Store
import Neverust.Storage.DeltaFlat.Proof.Requests
import Neverust.Storage.DeltaFlat.Proof.Extents
import Neverust.Storage.DeltaFlat.Proof.Recovery
import Neverust.Storage.DeltaFlat.Proof.Reopen
import Neverust.Lib.Blake3
import Neverust.Lib.Multiformats
import Neverust.Lib.Sha256
import Neverust.Storage.DeltaFlat.Proof.Room
import Neverust.CidForms
import Neverust.Storage.DeltaFlat.Proof.Stale
import Neverust.Citadel.Graph
import Neverust.Citadel.Node
import Neverust.Citadel.Proof.Apply
import Neverust.Citadel.Run
import Neverust.Citadel.Proof.Log
import Neverust.Citadel.Network
import Neverust.Citadel.Proof.Emit
import Neverust.Citadel.Proof.Pow
import Neverust.Citadel.Proof.History
import Neverust.Citadel.Proof.Converge
import Neverust.Citadel.Proof.Guard
import Neverust.FolderManifest
import Neverust.ManifestForms
import Neverust.Manifest.Proof.Blocks
import Neverust.Lib.Request
import Neverust.Storage.Backend
import Neverust.Storage.Redb
import Neverust.Api.Types
import Neverust.Api.Upload
import Neverust.Api.Download
import Neverust.Api.Schedule
import Neverust.Api.Proof.Hash
import Neverust.Api.Proof.Flights
import Neverust.Lib.Chunks
import Neverust.Api.Proof.Pipeline
import Neverust.Api.Proof.Body
import Neverust.Api.Proof.Upload
import Neverust.Api.Proof.Roundtrip
import Neverust.Api.Directory
import Neverust.Api.Peers
import Neverust.BlockExc
import Neverust.Botg
import Neverust.Node
import Neverust.Api.Proof.Puts
import Neverust.Node.Proof.Authentic
import Neverust.Storage.DeltaStore
import Neverust.Storage.DeltaStore.Proof.Append
import Neverust.Storage.DeltaStore.Proof.Committed
import Neverust.Storage.Records
import Neverust.Lib.Ranking
import Neverust.Cluster
import Neverust.Marketplace
import Neverust.Marketplace.Proof.Persist
import Neverust.Marketplace.Proof.Reopen
import Neverust.BlockExc.Proof.Handler
import Neverust.BlockExc.Exchange
import Neverust.BlockExc.Proof.Answers
import Neverust.Citadel.Proof.Merge
import Neverust.Citadel.Proof.AntiEntropy
import Neverust.Api.Proof.Delete
import Neverust.Api.Proof.Datasets
import Neverust.Manifest.Proof.Codec
import Neverust.Api.Proof.RangeHeader
import Neverust.Api.Proof.Ranges
import Neverust.Api.Proof.Safety
import Neverust.BlockExc.Framing
import Neverust.BlockExc.Proof.Framing
import Neverust.BlockExc.Wantlist
import Neverust.BlockExc.Proof.Leaf
import Neverust.BlockExc.Proof.Wantlist
import Neverust.Api.Proof.Filled
import Neverust.BlockExc.Proof.Delivery
import Neverust.Storage.GeomTree
import Neverust.Storage.GeomTree.Proof.Retry
import Neverust.Storage.Range
import Neverust.Storage.DeltaStore.Proof.Limit
import Neverust.Storage.DeltaFlat.Proof.Address
import Neverust.Api.Proof.DirTree
import Neverust.Api.Proof.Peers
import Neverust.Api.Proof.Directory
import Neverust.Lib.Worklist
import Neverust.Citadel.Proof.Reach
import Neverust.Citadel.Proof.View
import Neverust.Citadel.Proof.Pending
import Neverust.Citadel.Topology
import Neverust.Citadel.Simulation
import Neverust.Citadel.Proof.IdleGate
import Neverust.Cluster.Archivist
import Neverust.Cluster.Proof.Weights
import Neverust.Cluster.Proof.Pins
import Neverust.Chunker
import Neverust.Lib.Recent
import Neverust.DhtProvider
import Neverust.Lib.Probe
import Neverust.PendingBlocks
import Neverust.Api.Pins
import Neverust.Storage.Held
import Neverust.Api.Proof.Pins
import Neverust.Lib.Base64
import Neverust.Spr
import Neverust.Spr.Proof.Parse
import Neverust.IdentifySpr
import Neverust.Discv5.Rpc
import Neverust.Discv5.Proof.Wire
import Neverust.Discv5.Proof.RoundTrip
import Neverust.Discv5.Proof.Hostile
import Neverust.Discv5.Proof.Authentic
import Neverust.Storage.Contents
import Neverust.Storage.Keyed
import Neverust.Storage.GeomTree.Proof.Contents
import Neverust.Storage.DeltaStore.Proof.Contents
import Neverust.Storage.DeltaFlat.Proof.Filed
import Neverust.Storage.Agree
import Neverust.Discv5.Proof.KBuckets
import Neverust.Discv5.Proof.QueryEnd
import Neverust.Discv5.Proof.QueryPool
import Neverust.Discv5.Proof.RateLimiter
import Neverust.Discv5.Proof.Packet
