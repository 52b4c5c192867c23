import ShardManager.Spectator.Informed
import ShardManager.Spectator.PeerChooser
import ShardManager.Leader.NaiveConverges
import ShardManager.Leader.Establishes
import ShardManager.Process.NaiveDescent
import ShardManager.EphemeralAssigner.GetOrAssign
import ShardManager.Backoff.Retry
import ShardManager.Etcd.History
import ShardManager.EtcdKeys
import ShardManager.Golang.Basic
import ShardManager.Golang.Float64
import ShardManager.State
import ShardManager.Golang.ListMap
import ShardManager.Process.ChangeDetection
import ShardManager.Process.DoneShards
import ShardManager.ExecutorStore.Values
import ShardManager.ExecutorStore.AssignShards
import ShardManager.Replicas.Removal
import ShardManager.LeaderStore.Fencing
import ShardManager.ExecutorStore.Version
import ShardManager.Cache.Delivery
import ShardManager.EphemeralAssigner.ExactlyOnce
import ShardManager.EphemeralAssigner.Results
import ShardManager.EtcdKeys.RoundTrip
import ShardManager.ExecutorStore.Isolation
import ShardManager.Process.Triggers
import ShardManager.Cache.Lookup
import ShardManager.Replicas.Drained
import ShardManager.Handler.Readable
import ShardManager.Handler.HostName
import ShardManager.Handler.DrainShards
import ShardManager.Leader.Converges
import ShardManager.Leader.Difference
import ShardManager.Statistics.Kept
import ShardManager.Statistics.Moved
import ShardManager.ExecutorStore.DrainedHosts
import ShardManager.ExecutorStore.Undrains
import ShardManager.ExecutorStore.Batches
import ShardManager.ExecutorStore.Metadata
import ShardManager.ExecutorStore.WatchEvents
import ShardManager.Cache.Reads
import ShardManager.Spectator.WatchLoop
import ShardManager.Spectator.Signal
import ShardManager.Process.GreedyMoves
import ShardManager.Process.NaiveMoves
import ShardManager.LoadBalancer.Placements
import ShardManager.ExecutorClient.Tracking
import ShardManager.ExecutorClient.Drained
import ShardManager.ExecutorClient.Ownership
import ShardManager.ExecutorClient.HeartbeatManager
import ShardManager.Leader.Manager
import ShardManager.Leader.Rounds
import ShardManager.Mapper.RoundTrip
