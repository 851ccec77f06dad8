import RapidTransfer.Lib.Serial
import RapidTransfer.Lib.Runs
import RapidTransfer.Lib.Fair
import RapidTransfer.Lib.Bytes
import RapidTransfer.Lib.Text
import RapidTransfer.Lib.Ring
import RapidTransfer.Lib.Tally
import RapidTransfer.Lib.FreeList
import RapidTransfer.Lib.Ownership
import RapidTransfer.Packet.Handle
import RapidTransfer.Packet.Wire
import RapidTransfer.Packet.Arena
import RapidTransfer.Queue.Secondary
import RapidTransfer.Queue.Send
import RapidTransfer.Queue.Receive
import RapidTransfer.Delivery.Sender
import RapidTransfer.Delivery.Receiver
import RapidTransfer.Delivery.Network
import RapidTransfer.Delivery.Unicast
import RapidTransfer.Delivery.Multicast
import RapidTransfer.Delivery.Tiling
import RapidTransfer.Delivery.Liveness
import RapidTransfer.Controller.Basic
import RapidTransfer.Controller.Routing
import RapidTransfer.Context.Endpoint
import RapidTransfer.Context.Core
import RapidTransfer.Context.Unicast
import RapidTransfer.Context.Mcast
import RapidTransfer.Context.Frame
import RapidTransfer.Context.Creation
import RapidTransfer.Context.Arrival
import RapidTransfer.Context.Ack
import RapidTransfer.Context.Inflight
import RapidTransfer.Context.Answered
import RapidTransfer.Context.PeerChoice
import RapidTransfer.Context.Queues
import RapidTransfer.Queue.Bound
import RapidTransfer.Context.Completion
import RapidTransfer.Queue.Ready
import RapidTransfer.Queue.Supply
import RapidTransfer.Context.Retransmit
import RapidTransfer.Context.Rollback
import RapidTransfer.Context.Backoff
import RapidTransfer.Controller.Groups
import RapidTransfer.Controller.Bond
import RapidTransfer.Controller.Attributes
import RapidTransfer.Context.Attribution
import RapidTransfer.Context.Coverage
import RapidTransfer.Queue.Flow
import RapidTransfer.Context.Stability
import RapidTransfer.Queue.Mtu
import RapidTransfer.Queue.Numbering
import RapidTransfer.Queue.Slots
import RapidTransfer.Queue.Addressing
import RapidTransfer.Queue.Acks
import RapidTransfer.Queue.Placement
import RapidTransfer.Queue.Replica
import RapidTransfer.Queue.Stream
import RapidTransfer.Queue.Window
import RapidTransfer.Queue.Reject
import RapidTransfer.Context.Leaving
import RapidTransfer.Context.Crediting
import RapidTransfer.Context.Replicas
import RapidTransfer.Memory.Region
import RapidTransfer.Memory.Table
import RapidTransfer.Memory.Concurrent
import RapidTransfer.Context.Registration
import RapidTransfer.Context.Node
import RapidTransfer.Context.Links
import RapidTransfer.Context.Buffers
import RapidTransfer.Context.Requests
import RapidTransfer.Context.Growth
import RapidTransfer.Context.Estimator
import RapidTransfer.Context.Depths
import RapidTransfer.Context.Echo
import RapidTransfer.Context.RoundTrip
import RapidTransfer.Context.Followed
import RapidTransfer.Context.Transfer
import RapidTransfer.Context.Ownership
import RapidTransfer.Context.Starvation
import RapidTransfer.Context.Pacing
import RapidTransfer.Reliable.Protocol
import RapidTransfer.Reliable.Tasks
import RapidTransfer.Reliable.Pressure
import RapidTransfer.Reliable.Lifetime
import RapidTransfer.Reliable.Outcomes
import RapidTransfer.Reliable.Status
import RapidTransfer.Concurrency.Spinlock
import RapidTransfer.Session.Address
import RapidTransfer.Session.Handshake
import RapidTransfer.Reliable.Connection
