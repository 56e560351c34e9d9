import EdgeSim.Lib.Lists
import EdgeSim.Lib.Bytes
import EdgeSim.Lib.Joined
import EdgeSim.Lib.Nearest
import EdgeSim.Lib.Recency
import EdgeSim.Lib.Ball
import EdgeSim.Lib.Rounds
import EdgeSim.Lib.Run
import EdgeSim.Lib.Matching
import EdgeSim.Lib.Quorum
import EdgeSim.Lib.TermLog
import EdgeSim.Lib.TermLogInv
import EdgeSim.Lib.TermLogSafety
import EdgeSim.Lib.TermLogSingle
import EdgeSim.Lib.TermLogApart
import EdgeSim.Lib.Stdlib
import EdgeSim.Raft.Node
import EdgeSim.Raft.NodeSpec
import EdgeSim.Raft.AppendEntries
import EdgeSim.Raft.Replica
import EdgeSim.Raft.Cluster
import EdgeSim.Raft.Transition
import EdgeSim.Raft.Tracks
import EdgeSim.Raft.Handlers
import EdgeSim.Raft.SimRelation
import EdgeSim.Raft.Tally
import EdgeSim.Raft.Elections
import EdgeSim.Raft.Replication
import EdgeSim.Raft.Refinement
import EdgeSim.Raft.Safety
import EdgeSim.Raft.Effect
import EdgeSim.Raft.Commit
import EdgeSim.Coordinator.ReadingStore
import EdgeSim.Raft.Apply
import EdgeSim.Raft.Agreement
import EdgeSim.Raft.Progress
import EdgeSim.Raft.Threshold
import EdgeSim.Raft.Recognition
import EdgeSim.Raft.Trace
import EdgeSim.Raft.Provenance
import EdgeSim.Raft.Leadership
import EdgeSim.Raft.Stall
import EdgeSim.Raft.Campaign
import EdgeSim.Raft.Recovery
import EdgeSim.Raft.Ballot
import EdgeSim.Raft.Partition
import EdgeSim.Wire.Frame
import EdgeSim.Dht.Routing
import EdgeSim.Dht.Table
import EdgeSim.Dht.Closest
import EdgeSim.Dht.Distance
import EdgeSim.Dht.Lru
import EdgeSim.Dht.Lookup
import EdgeSim.Dht.LookupSpec
import EdgeSim.Dht.ValueLookup
import EdgeSim.Dht.Node
import EdgeSim.Dht.FullNetwork
import EdgeSim.Dht.BuildNetwork
import EdgeSim.Dht.Exhaustive
import EdgeSim.Dht.ReadAfterWrite
import EdgeSim.Dht.Deadline
import EdgeSim.SensorNode.Message
import EdgeSim.Dht.HexID
import EdgeSim.SensorNode.State
import EdgeSim.SensorNode.Freshness
import EdgeSim.SensorNode.Rejection
import EdgeSim.SensorNode.PeerExchange
import EdgeSim.SensorNode.Network
import EdgeSim.SensorNode.Flood
import EdgeSim.SensorNode.Reach
import EdgeSim.SensorNode.Coverage
import EdgeSim.SensorNode.Bootstrap
import EdgeSim.SensorNode.Discovery
import EdgeSim.Coordinator.GossipConn
import EdgeSim.Coordinator.Config
import EdgeSim.Coordinator.RaftRpc
import EdgeSim.Coordinator.RaftNet
import EdgeSim.Coordinator.Service
import EdgeSim.Coordinator.EndToEnd
import EdgeSim.Sensor.Region
import EdgeSim.Coordinator.Reports
import EdgeSim.Gossip.Simulator
import EdgeSim.Gossip.Spread
import EdgeSim.Gossip.Reached
import EdgeSim.Gossip.IterationOrder
import EdgeSim.Dht.Dhtsim
