import Yasio.Lib.Machine
import Yasio.Lib.Cutter
import Yasio.Framing
import Yasio.FramingStream
import Yasio.FramingBounds
import Yasio.LengthField
import Yasio.Kcp
import Yasio.Endpoint
import Yasio.EndpointOrder
import Yasio.Watcher
import Yasio.Backends
import Yasio.Service.State
import Yasio.Service.Base
import Yasio.Service.Transports
import Yasio.Service.Channels
import Yasio.Service.Step
import Yasio.Service.Pool
import Yasio.Service.TransportTurn
import Yasio.Service.ChannelTurn
import Yasio.Service.PoolSteps
import Yasio.Service.Resolve
import Yasio.Service.Kinds
import Yasio.Service.Routing
import Yasio.Service.Delivery
import Yasio.Service.Handles
import Yasio.Service.SendQueue
import Yasio.Service.Destinations
import Yasio.Service.TimerQueue
import Yasio.Service.ProcessTimers
import Yasio.Service.Stop
import Yasio.Service.ClientTurn
import Yasio.Service.Reopen
import Yasio.Service.ServerTurn
import Yasio.Service.ConnectTimer
import Yasio.Service.SocketMoves
import Yasio.Service.Readiness
import Yasio.Service.Interest
import Yasio.Service.Results
import Yasio.Service.Answers
import Yasio.Lib.Throwing
import Yasio.Stream
import Yasio.StreamBounds
import Yasio.SevenBits
import Yasio.StreamTrip
import Yasio.Blobs
import Yasio.Lib.Overwrite
import Yasio.Output
import Yasio.Appending
import Yasio.NestedFields
import Yasio.SpanAgreement
import Yasio.BlobTrip
import Yasio.PodVector
import Yasio.PodThrows
import Yasio.PodContents
import Yasio.PodLists
import Yasio.PodCapacity
import Yasio.PodAllocators
import Yasio.PodBlocks
import Yasio.PodTwins
import Yasio.PodInterchange
import Yasio.Lib.Occurrences
import Yasio.BasicString
import Yasio.StringBlocks
import Yasio.StringReplace
import Yasio.StringReplaceAll
import Yasio.StringBounds
import Yasio.StringTerminator
import Yasio.StringRewrite
import Yasio.Split
import Yasio.Xxsocket
import Yasio.HttpClient
import Yasio.PendingRequests
import Yasio.Lib.CircularClock
import Yasio.KcpClock
import Yasio.ConcurrentQueue
import Yasio.QueryThreads
import Yasio.Service.OpenRequests
import Yasio.Service.Conversations
import Yasio.Service.EventOrder
import Yasio.Service.ChannelStates
import Yasio.Service.LoopEnd
import Yasio.Service.Shutdown
import Yasio.Strfmt
import Yasio.Service.DnsDirty
import Yasio.ResultArray
import Yasio.EndpointText
import Yasio.EndpointTrip
import Yasio.UrlCodec
import Yasio.TSRefCountedObject
import Yasio.RefCounts
import Yasio.TransferN
import Yasio.Lib.Chain
import Yasio.ObjectPool
import Yasio.HttpCookie
import Yasio.CookieScope
import Yasio.Lib.Decimal
import Yasio.Lib.HttpMessage
import Yasio.HttpRequest
import Yasio.CookieFile
import Yasio.Inet4
import Yasio.InetPton6
import Yasio.InetNtop6
import Yasio.CompatInet
import Yasio.SharedMutex
import Yasio.Lib.CircularBuffer
import Yasio.ReaderWriterQueue
import Yasio.ReaderWriterBlocks
import Yasio.ReaderWriterThreads
import Yasio.ReaderWriterProducer
import Yasio.ReaderWriterConsumer
import Yasio.ReaderWriterRuns
import Yasio.ReaderWriterRest
import Yasio.Service.Wakeup
import Yasio.Service.Unserved
import Yasio.Service.Asleep
import Yasio.Service.Punctual
