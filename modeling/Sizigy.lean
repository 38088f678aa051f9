import Sizigy.Hash
import Sizigy.HashmapRefinement
import Sizigy.HashmapLock
import Sizigy.ConnectCodec
import Sizigy.PacketBounds
import Sizigy.Framing
import Sizigy.Server
import Sizigy.Library.Heap
import Sizigy.Library.Outcome
import Sizigy.Library.Probing
import Sizigy.Library.Run
import Sizigy.Dispatch
import Sizigy.ServerSpec
import Sizigy.ReplySpec
import Sizigy.Machine
import Sizigy.EventLoop
import Sizigy.TopicSpec
import Sizigy.Delivery
import Sizigy.ExactlyOnce
import Sizigy.TopicRace
import Sizigy.Forwarding
import Sizigy.Keepalive
import Sizigy.SendStream
import Sizigy.RetainedStore
import Sizigy.RetainedLaw
import Sizigy.Conversation
import Sizigy.PendingRetained
import Sizigy.Ledger
import Sizigy.Acknowledgement
import Sizigy.Library.Lockstep
import Sizigy.Uninitialised
import Sizigy.ClientRegistry
import Sizigy.EncodedSize
import Sizigy.KeepaliveSweep
import Sizigy.RingbufFifo
import Sizigy.HashmapRehash
import Sizigy.HashmapCollision
import Sizigy.Library.Linked
import Sizigy.NodeList
import Sizigy.TopicIdentity
import Sizigy.RecvEnding
import Sizigy.VoidRequests
import Sizigy.Library.Crc
import Sizigy.Checksum
import Sizigy.SendContract
import Sizigy.Library.Monitor
import Sizigy.Queue
import Sizigy.QueueThreads
import Sizigy.Listener
import Sizigy.Ordering
import Sizigy.Library.PubSub
import Sizigy.Library.Simulation
import Sizigy.PubSubRefinement
import Sizigy.Library.Release
import Sizigy.Shutdown
import Sizigy.ClientStream
import Sizigy.Intake
import Sizigy.EndToEnd
import Sizigy.Fields
import Sizigy.HashmapThreads
import Sizigy.Stopping
