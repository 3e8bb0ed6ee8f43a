import Poseidon.Lib.Runs
import Poseidon.Lib.Tables
import Poseidon.Lib.Links
import Poseidon.Lib.FreeList
import Poseidon.Lib.Digits
import Poseidon.Lib.ByteOrder
import Poseidon.Lib.Segments
import Poseidon.Lib.Framing
import Poseidon.Lib.Intake
import Poseidon.Lib.Search
import Poseidon.Lib.Compaction
import Poseidon.Lib.Schedule
import Poseidon.Lib.Threads
import Poseidon.RefCounter.RefCounter
import Poseidon.RefCounter.Ownership
import Poseidon.Workers.Pool
import Poseidon.Workers.Steps
import Poseidon.Workers.Wakeups
import Poseidon.Workers.Custody
import Poseidon.Workers.Destruction
import Poseidon.Time.Wheel
import Poseidon.Time.Hierarchy
import Poseidon.Time.Deadlock
import Poseidon.Time.Steps
import Poseidon.Time.Identity
import Poseidon.Time.Cancellation
import Poseidon.Time.Punctuality
import Poseidon.Time.TimerList
import Poseidon.Cbor.Item
import Poseidon.Cbor.Load
import Poseidon.Cbor.Contents
import Poseidon.Bloom.BloomFilter
import Poseidon.Bloom.AttenuatedBloomFilter
import Poseidon.Bloom.Codec
import Poseidon.Bloom.Recorded
import Poseidon.Bloom.CodecRoundTrip
import Poseidon.Bloom.Resizing
import Poseidon.Bloom.Entries
import Poseidon.Bloom.Removal
import Poseidon.Bloom.Arithmetic
import Poseidon.Bloom.Representation
import Poseidon.Bloom.Lossless
import Poseidon.Meridian.Protocol
import Poseidon.Meridian.PeerConnections
import Poseidon.Meridian.Packet
import Poseidon.Meridian.PacketRoundTrip
import Poseidon.Meridian.Relay
import Poseidon.Meridian.RelayClients
import Poseidon.Meridian.Query
import Poseidon.Meridian.LatencyCache
import Poseidon.Meridian.RingSet
import Poseidon.Meridian.GossipScheduler
import Poseidon.Meridian.GossipNetwork
import Poseidon.Quasar.Message
import Poseidon.Quasar.Node
import Poseidon.Quasar.Routing
import Poseidon.Quasar.Network
import Poseidon.Quasar.Termination
import Poseidon.Quasar.HopLimit
import Poseidon.Quasar.Delivery
import Poseidon.Quasar.Subscriptions
import Poseidon.Quasar.Gossip
import Poseidon.Quasar.Forgetting
import Poseidon.Quasar.Addressing
import Poseidon.Quasar.DirectedWalk
import Poseidon.Quasar.RandomWalk
import Poseidon.Quasar.MessageRoundTrip
import Poseidon.Quasar.Acceptance
import Poseidon.Quasar.MessageIds
import Poseidon.Workers.TransactionIds
import Poseidon.Util.Base58RoundTrip
import Poseidon.Util.Base58Canonical
import Poseidon.Util.Timeval
import Poseidon.Util.Buffer
import Poseidon.Util.MemoryPool
import Poseidon.Util.PoolCustody
import Poseidon.Util.PoolContract
import Poseidon.Crypto.NodeId
import Poseidon.Crypto.KeyPair
import Poseidon.Channel.Packet
import Poseidon.Channel.PacketRoundTrip
import Poseidon.Channel.Channel
import Poseidon.Channel.Manager
import Poseidon.Channel.Inputs
import Poseidon.Channel.Authority
import Poseidon.Channel.TopicLookup
import Poseidon.Channel.Flooding
import Poseidon.Channel.Bootstrap
import Poseidon.Channel.Membership
import Poseidon.Channel.SignedNotice
import Poseidon.Channel.Convergence
import Poseidon.Channel.Tombstones
import Poseidon.Channel.Pending
import Poseidon.Channel.Ports
import Poseidon.Channel.Subtopic
import Poseidon.Channel.SubtopicParsing
import Poseidon.Channel.SubtopicMatching
import Poseidon.Channel.SubtopicLifetimes
import Poseidon.Channel.Message
import Poseidon.Channel.Aliases
import Poseidon.Channel.TopicPath
import Poseidon.Client.Overlay
import Poseidon.Client.Authorization
import Poseidon.Client.TcpTransport
import Poseidon.Client.WsTransport
import Poseidon.Client.Dispatch
import Poseidon.Client.Requests
import Poseidon.Client.AliasRequests
import Poseidon.Client.ModifyRequests
import Poseidon.Client.WebProtocol
import Poseidon.Client.ReceiveLoops
import Poseidon.Client.ClientCalls
import Poseidon.Client.RemoteCalls
import Poseidon.Client.SocketWriters
import Poseidon.Client.WebConnection
import Poseidon.Client.WebConfig
import Poseidon.Client.WebClient
