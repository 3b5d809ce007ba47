import Canna.Circular
import Canna.Congruential
import Canna.Generator
import Canna.Lts
import Canna.RingBuffer
import Canna.Queries
import Canna.Names
import Canna.Serials
import Canna.NameServer
import Canna.ControlPipe
import Canna.Sockets
import Canna.SocketServer
import Canna.Effects
import Canna.Poll
import Canna.Probing
import Canna.Steps
import Canna.Retention
import Canna.Reservation
import Canna.Events
import Canna.Descriptors
import Canna.Closing
import Canna.SendQueue
import Canna.Identity
import Canna.Registrations
import Canna.Turns
import Canna.PollTable
import Canna.Lending
import Canna.PollSet
import Canna.Batch
import Canna.Delivery
import Canna.Assertions
import Canna.Connecting
import Canna.Draining
import Canna.SendList
import Canna.ReadSizes
import Canna.Readiness
import Canna.ThreadSafeQueue
import Canna.ThreadPool
import Canna.DbServer
import Canna.Walks
import Canna.Graph
import Canna.Dijkstra
import Canna.Labels
import Canna.ShortPath
import Canna.LabelSetting
import Canna.GetPath
import Canna.NegativeWeights
import Canna.Overflow
import Canna.Census
import Canna.Multipart
import Canna.Brokerage
import Canna.Passages
import Canna.LbBroker
import Canna.Peering
import Canna.Stages
import Canna.Lifetimes
import Canna.Release
import Canna.Firing
import Canna.Rounding
import Canna.Draws
import Canna.Decimal
import Canna.Daemon
import Canna.Pipeline
import Canna.NameService
