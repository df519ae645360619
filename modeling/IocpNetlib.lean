import IocpNetlib.Lib.Framer
import IocpNetlib.Tcp.SplitPacket
import IocpNetlib.Tcp.CutIndependence
import IocpNetlib.Tcp.Decode
import IocpNetlib.Http.HeaderGrammar
import IocpNetlib.Http.SplitHttpPacket
import IocpNetlib.Http.Request
import IocpNetlib.Http.SplitHttpDelivery
import IocpNetlib.Http.HeaderLocality
import IocpNetlib.Http.FramedCalls
import IocpNetlib.Http.Dispatch
import IocpNetlib.Http.Answers
import IocpNetlib.Http.SendResponse
import IocpNetlib.Baselib.MemoryPool
import IocpNetlib.Lib.Ledger
import IocpNetlib.Lib.Reach
import IocpNetlib.Service.Client
import IocpNetlib.Service.Step
import IocpNetlib.Service.View
import IocpNetlib.Service.Simulation
import IocpNetlib.Service.Counters
import IocpNetlib.Service.Runs
import IocpNetlib.Service.Pending
import IocpNetlib.Service.Removal
import IocpNetlib.Service.Closing
import IocpNetlib.Service.Announce
import IocpNetlib.Service.Connection
import IocpNetlib.Service.Reported
import IocpNetlib.Service.Resources
import IocpNetlib.Service.ConnectServer
import IocpNetlib.Baselib.PackageQueue
import IocpNetlib.Baselib.ProducerConsumer
import IocpNetlib.Baselib.MessageQueue
import IocpNetlib.Baselib.QueueLifecycle
import IocpNetlib.Baselib.DynamicMemoryPool
import IocpNetlib.Service.SendResources
import IocpNetlib.Service.Acceptor
import IocpNetlib.Http.ProcessMsg
import IocpNetlib.Http.CloseAfterSend
import IocpNetlib.Http.ResponseOrder
import IocpNetlib.Service.Stop
import IocpNetlib.Http.HeaderLookup
import IocpNetlib.Http.Routing
import IocpNetlib.Tcp.PacketLength
import IocpNetlib.Http.Conservation
import IocpNetlib.Http.ScanBounds
import IocpNetlib.Http.SendBounds
import IocpNetlib.Http.QueuePacket
import IocpNetlib.Service.SocketIDs
import IocpNetlib.Service.FirstCause
import IocpNetlib.Baselib.PoolAddresses
import IocpNetlib.Baselib.PacketWrite
import IocpNetlib.Baselib.QueueCapacity
import IocpNetlib.Baselib.MessageFifo
import IocpNetlib.Baselib.Buffer
import IocpNetlib.Baselib.ObjectPool
import IocpNetlib.Lib.TickClock
import IocpNetlib.Service.IdleClock
import IocpNetlib.Service.CheckStatus
import IocpNetlib.Service.SweepRuns
import IocpNetlib.Net.CoreLifecycle
import IocpNetlib.Lib.LocalTime
import IocpNetlib.Lib.Stdio
import IocpNetlib.Baselib.LogManager
import IocpNetlib.Baselib.LogRotation
import IocpNetlib.Baselib.LogFilter
import IocpNetlib.Db.VariantConvert
import IocpNetlib.Service.LogStats
import IocpNetlib.Baselib.CTimer
import IocpNetlib.Lib.Transfer
import IocpNetlib.Net.SuperSocket
import IocpNetlib.Lib.StrCat
import IocpNetlib.Baselib.ModulePaths
import IocpNetlib.Lib.CheckedBuffer
import IocpNetlib.Tcp.SplitBounds
import IocpNetlib.Http.ResponseWire
import IocpNetlib.Http.Exchange
import IocpNetlib.Tcp.Channel
import IocpNetlib.TestServer.LoginLoop
import IocpNetlib.Lib.BitField
import IocpNetlib.Markup.Encoding
import IocpNetlib.Lib.LockOrder
import IocpNetlib.Net.Locks
import IocpNetlib.TestServer.Locks
import IocpNetlib.Lib.OrderedMap
import IocpNetlib.Net.Registry
import IocpNetlib.Lib.Disk
import IocpNetlib.Baselib.LogHistory
import IocpNetlib.Markup.ParseNode
import IocpNetlib.Markup.Tiling
import IocpNetlib.Markup.ParseElem
import IocpNetlib.Lib.IndexList
import IocpNetlib.Markup.ElemTree
import IocpNetlib.Lib.Nesting
import IocpNetlib.Markup.WellFormed
import IocpNetlib.Lib.IndexTree
import IocpNetlib.Markup.ParseTree
