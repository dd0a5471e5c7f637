import Mmvx.Base.AsyncLogging
import Mmvx.Base.ConnectionPool
import Mmvx.Base.Date
import Mmvx.Base.LocalTime
import Mmvx.Base.LogFile
import Mmvx.Base.LogStream
import Mmvx.Base.Logging
import Mmvx.Base.PoolRest
import Mmvx.Base.ThreadPool
import Mmvx.Base.TimeZone
import Mmvx.Base.Timestamp
import Mmvx.Base.WorkerPool
import Mmvx.Base.ZoneFile
import Mmvx.Cluster.Addressing
import Mmvx.Cluster.AnswerFirst
import Mmvx.Cluster.Authenticity
import Mmvx.Cluster.Calm
import Mmvx.Cluster.Causality
import Mmvx.Cluster.Credentials
import Mmvx.Cluster.Delivery
import Mmvx.Cluster.Flow
import Mmvx.Cluster.Identity
import Mmvx.Cluster.KeeperThreads
import Mmvx.Cluster.Load
import Mmvx.Cluster.Model
import Mmvx.Cluster.Pending
import Mmvx.Cluster.Registry
import Mmvx.Cluster.Routable
import Mmvx.Cluster.Steady
import Mmvx.Cluster.Updates
import Mmvx.Cluster.Wiring
import Mmvx.Lib.BigEndian
import Mmvx.Lib.Blocks
import Mmvx.Lib.Condition
import Mmvx.Lib.Entries
import Mmvx.Lib.Feed
import Mmvx.Lib.FixedWidth
import Mmvx.Lib.Framing
import Mmvx.Lib.Lines
import Mmvx.Lib.Links
import Mmvx.Lib.LowerBound
import Mmvx.Lib.Numeral
import Mmvx.Lib.OrdMap
import Mmvx.Lib.OrdSet
import Mmvx.Lib.Precedence
import Mmvx.Lib.Reader
import Mmvx.Lib.Run
import Mmvx.Net.AesBuffer
import Mmvx.Net.AesSegmentation
import Mmvx.Net.AesStream
import Mmvx.Net.Buffer
import Mmvx.Net.BufferFields
import Mmvx.Net.BufferOps
import Mmvx.Net.BufferQueue
import Mmvx.Net.CodecLite
import Mmvx.Net.ConnectionLife
import Mmvx.Net.Connector
import Mmvx.Net.Corruption
import Mmvx.Net.DecryptCursor
import Mmvx.Net.EncryptCover
import Mmvx.Net.EventLoop
import Mmvx.Net.Frame
import Mmvx.Net.HalfClose
import Mmvx.Net.HttpContext
import Mmvx.Net.HttpServer
import Mmvx.Net.HttpStream
import Mmvx.Net.LiteStream
import Mmvx.Net.OneAttempt
import Mmvx.Net.OutputStream
import Mmvx.Net.PlainStream
import Mmvx.Net.Poller
import Mmvx.Net.PollerWatch
import Mmvx.Net.ProtobufCodec
import Mmvx.Net.ReceiveBounds
import Mmvx.Net.Reconnect
import Mmvx.Net.RpcCalls
import Mmvx.Net.RpcChannel
import Mmvx.Net.StreamLaw
import Mmvx.Net.TcpClient
import Mmvx.Net.TcpConnection
import Mmvx.Net.TimerArming
import Mmvx.Net.TimerCancel
import Mmvx.Net.TimerQueue
import Mmvx.Net.TimerRuns
import Mmvx.Net.TimerSets
import Mmvx.Server.ConnectionNames
import Mmvx.Server.Forward
import Mmvx.Server.Hub
import Mmvx.Server.HubRegistry
import Mmvx.Server.HubRouting
import Mmvx.Server.HubTable
import Mmvx.Server.Keeper
import Mmvx.Server.KeeperAllocation
import Mmvx.Server.KeeperBounds
import Mmvx.Server.KeeperOps
import Mmvx.Server.KeeperRelease
import Mmvx.Server.Logon
import Mmvx.Server.Messages
import Mmvx.Server.Sessions
