import Yasio.Endpoint
import Yasio.Watcher
import Mathlib.Logic.Function.Basic

/-!
# The state of an io_service

The fields of `io_service`, of its channels, of its transports and of their sockets, on Linux with
the poll watcher, SSL and KCP, and with the resolver threads of the standard library.  A channel is
named by its index, the memory block of a transport by its number and a socket object by a number
of its own, the channels' sockets first.
-/

namespace Yasio

/-! ## Channel properties -/

/-- `yasio__testbits` -/
def testbits (value bits : ℕ) : Bool := value &&& bits != 0

namespace Ycm

def client : ℕ := 1
def server : ℕ := 2
def tcp : ℕ := 4
def udp : ℕ := 8
def kcp : ℕ := 16
def ssl : ℕ := 32
def uds : ℕ := 64

end Ycm

namespace Yck

def tcpClient : ℕ := Ycm.tcp ||| Ycm.client
def tcpServer : ℕ := Ycm.tcp ||| Ycm.server
def udpClient : ℕ := Ycm.udp ||| Ycm.client
def udpServer : ℕ := Ycm.udp ||| Ycm.server
def kcpClient : ℕ := Ycm.kcp ||| Ycm.client ||| Ycm.udp
def kcpServer : ℕ := Ycm.kcp ||| Ycm.server ||| Ycm.udp
def sslClient : ℕ := tcpClient ||| Ycm.ssl
def sslServer : ℕ := tcpServer ||| Ycm.ssl

end Yck

/-- The kinds that the assertion of `io_service::open` lets pass. -/
def validKind (kind : ℕ) : Bool := 0 < kind && kind ≤ 0xff && kind &&& (kind - 1) != 0

/-! ## Channels -/

abbrev SockId := ℕ
abbrev Block := ℕ
abbrev Host := List Char

/-- `io_base::state` -/
inductive IoState
  | closed
  | resolving
  | connecting
  | opened
  deriving DecidableEq, Repr

/-- The mutable part of an `io_base`; `opmask_` as its two bits. -/
structure IoBase where
  state : IoState := .closed
  opOpen : Bool := false
  opClose : Bool := false
  error : Int := 0
  deriving DecidableEq, Repr

/-- An element of `remote_eps_`, and the host that it was resolved for. -/
structure RemoteEp where
  ep : Endpoint
  host : Host
  deriving DecidableEq, Repr

/-- The addresses of a channel and the property bits that belong to them. -/
structure Net where
  remoteHost : Host := []
  remotePort : ℕ := 0
  hostDirty : Bool := false
  portDirty : Bool := false
  needsQuery : Bool := false
  remoteEps : List RemoteEp := []
  querySuccessTime : ℕ := 0
  localHost : Host := []
  localPort : ℕ := 0
  mcast : Bool := false
  deriving DecidableEq, Repr

/-- A resolver thread with what it captured. -/
structure Query where
  channel : ℕ
  host : Host
  port : ℕ
  deriving DecidableEq, Repr

/-- How far a user's call of `open` has come. -/
inductive OpenStage
  | kinded
  | tested
  | masked
  deriving DecidableEq, Repr

/-! ## Transports -/

/-- The class that `allocate_transport` chose. -/
inductive TransportClass
  | tcp
  | ssl
  | udp
  | kcp
  deriving DecidableEq, Repr

/-- Whether transports of this class are `io_transport_udp`s. -/
def TransportClass.isUdp : TransportClass → Bool
  | .tcp | .ssl => false
  | .udp | .kcp => true

/-- What a transport was built with: `id_`, `ctx_`, its class, the kind of the channel at that
time, `socket_` and how often that had been opened, and the `interval` of its KCP block. -/
structure Built where
  id : ℕ := 0
  ctx : ℕ := 0
  cls : TransportClass := .tcp
  kind : ℕ := 0
  sock : SockId := 0
  gen : ℕ := 0
  interval : ℕ := 0
  deriving DecidableEq, Repr

/-- `connected_`, `peer_` and `destination_` of an `io_transport_udp`. -/
structure Udp where
  connected : Bool := false
  peer : Endpoint := .unspec
  destination : Endpoint := .unspec
  deriving DecidableEq, Repr

/-- An `io_send_op`, or an `io_sendto_op` with its destination.  `origin` is the `source_id` of the
event through which it was written, if it was. -/
structure SendOp where
  data : List UInt8
  offset : ℕ := 0
  destination : Option Endpoint := none
  origin : Option ℕ := none
  deriving DecidableEq, Repr

/-- `send_queue_` and `pollout_registerred_`. -/
structure Tx where
  sendQueue : List SendOp := []
  pollout : Bool := false
  deriving DecidableEq, Repr

/-! ## Events and timers -/

inductive EventKind
  | onOpen
  | onClose
  | onPacket
  deriving DecidableEq, Repr

/-- An `io_event`; `transport` is none for the events of a channel. -/
structure Event where
  kind : EventKind
  channel : ℕ
  status : Int := 0
  sourceId : ℕ
  transport : Option Block := none
  packet : List UInt8 := []
  deriving DecidableEq, Repr

/-- The timer of a channel, or a timer of the user. -/
inductive TimerId
  | connect (channel : ℕ)
  | user (n : ℕ)
  deriving DecidableEq, Repr

/-! ## The history of a run -/

/-- Bytes put on a connection; `id` is none when the socket had been opened again since the
transport that sent them was built. -/
structure Sent where
  id : Option ℕ
  origin : Option ℕ
  data : List UInt8
  deriving DecidableEq, Repr

/-- A positive answer of `is_ready`: the socket, after how many polls it had been registered, and
how many polls there were before the answer. -/
structure Asked where
  sock : SockId
  registered : Option ℕ
  poll : ℕ
  deriving DecidableEq, Repr

/-- A socket opened by `do_connect`: the transports of the channel that were left, and the
connections of the channel that had been announced and whose loss had not. -/
structure Attempt where
  channel : ℕ
  left : List Block
  unclosed : List ℕ
  deriving DecidableEq, Repr

/-- A datagram that a server channel received from a peer, and the transport that took it: whether
it was alive, its channel, and the peer it had been built for.  One that no transport took counts
as taken by one that was not alive. -/
structure Delivery where
  channel : ℕ
  peer : Endpoint
  alive : Bool
  ctx : ℕ
  builtFor : Option Endpoint
  deriving DecidableEq, Repr

/-- An event that was handed to the callback, by `dispatch` or directly by `forward_packet`. -/
structure Seen where
  event : Event
  direct : Bool
  deriving DecidableEq, Repr

/-- A connect in progress whose timer was set: the channel, how often its socket had been opened,
and the expiry. -/
structure Armed where
  channel : ℕ
  gen : ℕ
  expiry : ℕ
  deriving DecidableEq, Repr

/-- A connect timer that failed its channel: the state of the channel, how often its socket had
been opened, the expiry of the timer and the time of the frame. -/
structure Timeout where
  channel : ℕ
  state : IoState
  gen : ℕ
  expiry : ℕ
  time : ℕ
  deriving DecidableEq, Repr

/-- A request that `process_channels` took up on a client channel: how many results the channel had
had, how often the service had been stopped, and whether it was stopping. -/
structure TakeUp where
  channel : ℕ
  results : ℕ
  stops : ℕ
  stopping : Bool
  deriving DecidableEq, Repr

/-! ## The service -/

/-- Where the service thread is in `run`, between two of its steps, or how far a thread that stops
the service has come after that. -/
inductive Phase
  | idle
  | top
  | polling
  | transports (n : ℕ)
  | channels (n : ℕ)
  | timers (n : ℕ)
  | events (dispatched : Bool)
  | exiting
  | stopping
  | terminated
  deriving DecidableEq, Repr

structure Options where
  connectTimeout : ℕ := 10000000
  dnsCacheTimeout : Int := 600000000
  dnsDirty : Bool := false
  noDispatch : Bool := false
  forwardPacket : Bool := false
  deriving DecidableEq, Repr

/-- `yasio__max_wait_usec` -/
def maxWaitUsec : ℕ := 300000000

/-- The variables of the loop. -/
structure Loop where
  phase : Phase := .idle
  options : Options := {}
  stopFlag : Bool := false
  currentTime : ℕ := 0
  waitDuration : Int := 300000000

/-- The channels: the low byte of `properties_`, the `io_base`, the addresses and the parameters
of each, the queue of `process_channels`, the calls of `open` under way and the resolver threads. -/
structure Channels where
  channelCount : ℕ := 0
  kind : ℕ → ℕ := fun _ => 0
  chan : ℕ → IoBase := fun _ => {}
  channelId : ℕ → ℕ := fun i => i + 1
  net : ℕ → Net := fun _ => {}
  uparams : ℕ → UnpackParams := fun _ => {}
  channelOps : List ℕ := []
  opens : List (ℕ × OpenStage) := []
  queries : List Query := []

/-- The transports that live, the blocks to be used again (last first), what each block was built
as, the peer map, and for the transports that `do_dgram_accept` made the peer it stored. -/
structure Pool where
  transports : List Block := []
  tpool : List Block := []
  nextBlock : Block := 0
  objectId : ℕ := 0
  built : Block → Built := fun _ => {}
  transportMap : PeerMap Block := []
  mapKey : Block → Option Endpoint := fun _ => none
  nsched : Int := 0
  schedFreq : ℕ := 300000000

/-- The mutable parts of the transports. -/
structure Contents where
  io : Block → IoBase := fun _ => {}
  rx : Block → Rx := fun _ => { buffer := [] }
  tx : Block → Tx := fun _ => {}
  udp : Block → Udp := fun _ => {}

/-- The socket objects, how often each was opened and its peer; the watcher, the number of polls,
and for the registered sockets the number of polls before. -/
structure Sockets where
  sock : SockId → Option Fd := fun _ => none
  gen : SockId → ℕ := fun _ => 0
  sockPeer : SockId → Endpoint := fun _ => .unspec
  nextSock : SockId := 0
  watcher : PollWatcher := {}
  npoll : ℕ := 0
  regAt : SockId → Option ℕ := fun _ => none

structure Timers where
  timerQueue : List TimerId := []
  expireTime : TimerId → ℕ := fun _ => 0

/-- `events_`, the event that is handled, whether its handler is inside a `write`, and the count
that `consume` has left. -/
structure Events where
  queue : List Event := []
  deal : List Event := []
  handling : Option Event := none
  writing : Bool := false
  budget : Option ℕ := none

/-- What has happened. -/
structure History where
  fired : List Event := []
  sent : List Sent := []
  asked : List Asked := []
  attempts : List Attempt := []
  delivered : List Delivery := []
  seen : List Seen := []
  armed : List Armed := []
  timeouts : List Timeout := []
  taken : List TakeUp := []
  stops : ℕ := 0

structure Service extends Loop, Channels, Pool, Contents, Sockets, Timers, Events, History

/-- A service that was just constructed. -/
def Service.fresh (channelCount : ℕ) (options : Options := {})
    (uparams : ℕ → UnpackParams := fun _ => {}) : Service :=
  { channelCount, options, uparams, objectId := channelCount, nextSock := channelCount }

end Yasio
