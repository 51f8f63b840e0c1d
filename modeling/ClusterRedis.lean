import ClusterRedis.Runs
import ClusterRedis.Glob
import ClusterRedis.Json
import ClusterRedis.JsonRecord
import ClusterRedis.Commands
import ClusterRedis.KvScripts
import ClusterRedis.Kv
import ClusterRedis.KvIndex
import ClusterRedis.KvErrors
import ClusterRedis.KvRefine
import ClusterRedis.Lease
import ClusterRedis.LeaseRuns
import ClusterRedis.LeaseExclusion
import ClusterRedis.Footprint
import ClusterRedis.LeaseNames
import ClusterRedis.Conn
import ClusterRedis.Cursor
import ClusterRedis.Listing
import ClusterRedis.ListIndex
import ClusterRedis.ListScan
import ClusterRedis.ListAgree
import ClusterRedis.Peer
import ClusterRedis.KvGaps
import ClusterRedis.Maintenance
import ClusterRedis.FreshScan
import ClusterRedis.TaskMoves
import ClusterRedis.Completion
import ClusterRedis.OperatorCompletion
import ClusterRedis.Invalidation
import ClusterRedis.MixedFleet
import ClusterRedis.OlderStays
import ClusterRedis.IndexReads
import ClusterRedis.LeaseTask
import ClusterRedis.LeaseExpiry
import ClusterRedis.Envelope
import ClusterRedis.PubSub
import ClusterRedis.Tails
import ClusterRedis.Namespaces
import ClusterRedis.PeerList
import ClusterRedis.Counters
import ClusterRedis.Config
import ClusterRedis.WatchPeers
import ClusterRedis.CounterExact
import ClusterRedis.PlainPrefix
import ClusterRedis.PeerPattern
import ClusterRedis.PeerNames
import ClusterRedis.Departures
import ClusterRedis.Confinement
import ClusterRedis.Reads
import ClusterRedis.BackendLife
import ClusterRedis.TopicBus
import ClusterRedis.Publishers
import ClusterRedis.PageLimits
import ClusterRedis.RenewalDelay
import ClusterRedis.Sweep
import ClusterRedis.Backfill
import ClusterRedis.LeaseHandOver
import ClusterRedis.LeaseRelease
import ClusterRedis.Resubscription
import ClusterRedis.Connecting
import ClusterRedis.LeaseWait
import ClusterRedis.PeerRefresh
import ClusterRedis.SweepRounds
import ClusterRedis.LeaseHandles
import ClusterRedis.PeerWatching
