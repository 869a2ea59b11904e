import Musil.Lib.Run
import Musil.Lib.Committed
import Musil.Raft.CommitStability
import Musil.Raft.LeaderCommit
import Musil.Raft.Observer
import Musil.Raft.Election
import Musil.Raft.Runner
import Musil.Proto.WellFormed
import Musil.Storage.Replication
import Musil.Storage.PartitionOrder
import Musil.Consumer.OffsetSync
import Musil.Storage.Durability
import Musil.Storage.Published
import Musil.Storage.Divergence
import Musil.Storage.FirstSegment
import Musil.Network.RoundTrip
import Musil.Broker.Restart
import Musil.Lib.Canonical
import Musil.Proto.Canonical
import Musil.Network.Accepted
import Musil.Lib.Iter
import Musil.Proto.FromRecords
import Musil.Proto.Lookup
import Musil.Proto.Slice
import Musil.Raft.Stale
import Musil.Storage.AckQueue
import Musil.Storage.SegmentScan
import Musil.Storage.VoteRestriction
import Musil.Raft.Watermark
import Musil.Storage.PartitionCut
import Musil.Storage.Truncation
import Musil.Storage.TornTail
import Musil.Network.Size
import Musil.Producer.Lossless
import Musil.Raft.VoteBook
import Musil.Raft.Replies
import Musil.Network.Layouts
import Musil.Broker.RecordDecode
import Musil.Raft.CommitProgress
import Musil.Raft.Durable
import Musil.Producer.Routing
import Musil.Broker.Remote
import Musil.Consumer.Delivery
import Musil.Lib.Volume
import Musil.Raft.QuorumFile
import Musil.Raft.Interleaving
import Musil.Raft.FileCluster
