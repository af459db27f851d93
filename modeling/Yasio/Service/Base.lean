import Yasio.Service.State

/-!
# Sockets, events and the life of a transport

The functions of `io_service` that the frame is built from: `cleanup_io`, `fire_event`,
`allocate_transport`, `handle_connect_succeed`, `active_transport`, `handle_close` and
`handle_connect_failed`.
-/

namespace Yasio

open Function (update)

/-! ## Sockets -/

namespace Sockets

variable (t : Sockets)

/-- No open socket has this number. -/
def fdFree (fd : Fd) : Bool := ∀ k < t.nextSock, t.sock k ≠ some fd

/-- The kernel gives out free numbers only; `socket` and `accept` fail otherwise. -/
def newFd (answer : Except ℕ Fd) : Except ℕ Fd :=
  answer.bind fun fd => if t.fdFree fd then .ok fd else .error 24

/-- `io_watcher_.mod_event` on the handle of a socket. -/
def modEvent (k : SockId) (add remove : Interest) : Sockets :=
  { t with
    watcher := (t.sock k).elim t.watcher fun fd => t.watcher.modEvent fd add remove
    regAt := if add = .none then t.regAt else update t.regAt k ((t.regAt k).getD t.npoll) }

/-- `xxsocket::popen` on a closed socket. -/
def openSock (k : SockId) (fd : Fd) : Sockets :=
  { t with
    sock := update t.sock k fd
    gen := update t.gen k (t.gen k + 1)
    sockPeer := update t.sockPeer k .unspec }

/-- The part of `cleanup_io` on the socket. -/
def closeSock (k : SockId) : Sockets :=
  { t with
    watcher := (t.sock k).elim t.watcher fun fd => t.watcher.modEvent fd .none .readwrite
    sock := update t.sock k none
    regAt := update t.regAt k none }

/-- A new socket object. -/
def newSock (fd : Fd) (peer : Endpoint) : Sockets :=
  { t.openSock t.nextSock fd with
    nextSock := t.nextSock + 1
    sockPeer := update t.sockPeer t.nextSock peer }

/-- `io_watcher_.is_ready` on the handle of a socket. -/
def ready (k : SockId) (events : Ready) : Bool :=
  (t.sock k).elim false fun fd => t.watcher.isReady fd events

end Sockets

namespace Service

variable (s : Service)

def modEvent (k : SockId) (add remove : Interest) : Service :=
  { s with toSockets := s.toSockets.modEvent k add remove }

def openSock (k : SockId) (fd : Fd) : Service := { s with toSockets := s.toSockets.openSock k fd }

def closeSock (k : SockId) : Service := { s with toSockets := s.toSockets.closeSock k }

def newSock (fd : Fd) (peer : Endpoint) : Service :=
  { s with toSockets := s.toSockets.newSock fd peer }

/-- The record of a call of `is_ready`. -/
def ask (k : SockId) (events : Ready) : Service :=
  { s with
    asked := if s.ready k events then s.asked ++ [⟨k, s.regAt k, s.npoll⟩] else s.asked }

/-! ## Events and the state of channels -/

/-- `fire_event` for each of these. -/
def fireEvents (events : List Event) : Service :=
  { s with queue := s.queue ++ events, fired := s.fired ++ events }

def setChan (i : ℕ) (base : IoBase) : Service := { s with chan := update s.chan i base }

def setIo (b : Block) (base : IoBase) : Service := { s with io := update s.io b base }

end Service

/-- The part of `cleanup_io` on an `io_base`. -/
def IoBase.cleanup (base : IoBase) (clearMask : Bool) : IoBase where
  state := .closed
  opOpen := base.opOpen && !clearMask
  opClose := base.opClose && !clearMask
  error := 0

namespace Service

variable (s : Service)

/-- `cleanup_channel`, and `cleanup_io` on a channel. -/
def cleanupChannel (i : ℕ) (clearMask : Bool := true) : Service :=
  (s.closeSock i).setChan i ((s.chan i).cleanup clearMask)

/-- `cleanup_io` on a transport. -/
def cleanupTransport (b : Block) : Service :=
  (s.closeSock (s.built b).sock).setIo b ((s.io b).cleanup true)

/-- The channel events that `handle_connect_failed` and a failed handshake fire. -/
def channelEvent (i : ℕ) (status : Int) : Event where
  kind := .onOpen
  channel := i
  status := status
  sourceId := s.channelId i

def transportEvent (b : Block) (kind : EventKind) (status : Int) (packet : List UInt8 := []) :
    Event where
  kind := kind
  channel := (s.built b).ctx
  status := status
  sourceId := (s.built b).id
  transport := b
  packet := packet

/-- `forward_packet` -/
def forwardPacket (b : Block) (view : List UInt8) : Service :=
  { s with seen := s.seen ++ [⟨s.transportEvent b .onPacket 0 view, true⟩] }

/-- `handle_connect_failed` -/
def handleConnectFailed (i : ℕ) (error : Int) : Service :=
  (s.cleanupChannel i).fireEvents [s.channelEvent i error]

end Service

/-! ## Transports -/

/-- The class that `allocate_transport` chooses. -/
def TransportClass.ofKind (kind : ℕ) : TransportClass :=
  if testbits kind Ycm.tcp then if testbits kind Ycm.ssl then .ssl else .tcp
  else if testbits kind Ycm.kcp then .kcp
  else .udp

namespace Pool

variable (p : Pool)

/-- The block that `allocate_transport` takes: the back of `tpool_`, or a new one. -/
def freshBlock : Block := p.tpool.headD p.nextBlock

/-- The part of `allocate_transport` on the pool, with the number that `io_base` gives. -/
def allocate (built : Built) : Pool :=
  { p with
    tpool := p.tpool.tail
    nextBlock := if p.tpool = [] then p.nextBlock + 1 else p.nextBlock
    objectId := (p.objectId + 1) % 2 ^ 32
    built := update p.built p.freshBlock { built with id := (p.objectId + 1) % 2 ^ 32 }
    mapKey := update p.mapKey p.freshBlock none }

/-- The part of `active_transport` on the pool. -/
def activate (kind : ℕ) (b : Block) : Pool :=
  let kcp := testbits kind Ycm.kcp
  { p with
    transports := p.transports ++ [b]
    nsched := if kcp then p.nsched + 1 else p.nsched
    schedFreq := if kcp then min p.schedFreq (p.built b).interval else p.schedFreq }

/-- The part of `handle_close` on the peer map and the schedule. -/
def detach (kind : ℕ) (remote : Endpoint) : Pool :=
  let kcp := testbits kind Ycm.kcp
  { p with
    transportMap :=
      if testbits kind Ycm.udp then p.transportMap.erase remote else p.transportMap
    nsched := if kcp then p.nsched - 1 else p.nsched
    -- Without a KCP transport the longest wait holds again.
    schedFreq := if kcp && p.nsched - 1 ≤ 0 then maxWaitUsec else p.schedFreq }

/-- `deallocate_transport` -/
def deallocate (b : Block) : Pool := { p with tpool := b :: p.tpool }

end Pool

namespace Service

variable (s : Service)

/-- `allocate_transport` and the constructors that it calls. -/
def allocateTransport (i : ℕ) (k : SockId) (interval : ℕ) : Service :=
  let b := s.freshBlock
  let cls := TransportClass.ofKind (s.kind i)
  { s with
    toPool := s.toPool.allocate
      { ctx := i, cls, kind := s.kind i, sock := k, gen := s.gen k, interval }
    io := update s.io b { state := if cls = .ssl then .connecting else .opened }
    rx := update s.rx b { buffer := List.replicate maxRcvbuf 0 }
    tx := update s.tx b {}
    udp := update s.udp b {} }

/-- `io_transport_udp::connect`; `ok` is what `connect_n` answers. -/
def udpConnect (b : Block) (ok : Bool) : Service :=
  let u := s.udp b
  let peer :=
    if u.peer = .unspec then
      (s.net (s.built b).ctx).remoteEps.head?.elim .unspec RemoteEp.ep
    else u.peer
  if u.connected || peer = .unspec then s
  else
    { s with
      udp := update s.udp b { u with connected := ok, peer }
      sockPeer := if ok then update s.sockPeer (s.built b).sock peer else s.sockPeer }

/-- `io_transport_udp::disconnect` -/
def udpDisconnect (b : Block) : Service :=
  { s with
    udp := update s.udp b { s.udp b with connected := false }
    sockPeer := update s.sockPeer (s.built b).sock .unspec }

/-- `io_transport_udp::confgure_remote` -/
def configureRemote (b : Block) (peer : Endpoint) (ok : Bool) : Service :=
  let i := (s.built b).ctx
  if (s.udp b).connected then s
  else
    let s' := { s with udp := update s.udp b { s.udp b with peer } }
    -- A multicast client also receives from addresses outside the group.
    if !(s.net i).mcast || !testbits (s.kind i) Ycm.client then s'.udpConnect b ok else s'

/-- `active_transport` -/
def activeTransport (b : Block) : Service :=
  let kind := s.kind (s.built b).ctx
  -- With SSL the event follows the handshake.
  { s.fireEvents (if testbits kind Ycm.ssl then [] else [s.transportEvent b .onOpen 0]) with
    toPool := s.toPool.activate kind b }

/-- `handle_connect_succeed`; `clear_mutable_flags` clears no property that is used. -/
def handleConnectSucceed (b : Block) (connectOk : Bool) : Service :=
  let i := (s.built b).ctx
  let kind := s.kind i
  let client := testbits kind Ycm.client
  let s := s.setChan i
    { s.chan i with error := 0, state := if client then .opened else (s.chan i).state }
  let s :=
    if client then
      if testbits kind Ycm.udp then
        s.configureRemote b ((s.net i).remoteEps.head?.elim .unspec RemoteEp.ep) connectOk
      else s
    else s.modEvent (s.built b).sock { read := true } .none
  s.activeTransport b

/-- `remote_endpoint`.  `peer_endpoint` hands `getpeername` an object of its own, and `tail` are the
bytes that are left behind the address in it. -/
def remoteEndpoint (b : Block) (tail : ℕ) : Endpoint :=
  let k := (s.built b).sock
  if (s.built b).cls.isUdp && !(s.udp b).connected then (s.udp b).peer
  else if s.sock k = none then .unspec
  else (s.sockPeer k).withPad tail

/-- `handle_close`.  The shutdowns of SSL and TCP change nothing that is modelled. -/
def handleClose (b : Block) (tail : ℕ) : Service :=
  let i := (s.built b).ctx
  let kind := s.kind i
  let s := { s with toPool := s.toPool.detach kind (s.remoteEndpoint b tail) }
  let s := s.fireEvents
    (if (s.io b).state = .opened then [s.transportEvent b .onClose (s.io b).error] else [])
  -- the destructor that `deallocate_transport` runs empties the send queue
  let s := s.cleanupTransport b
  let s := { s with toPool := s.toPool.deallocate b, tx := update s.tx b {} }
  if testbits kind Ycm.client then
    -- An `open` that was asked for meanwhile stays asked for.
    (s.setChan i { s.chan i with opClose := false }).cleanupChannel i false
  else s

end Service

end Yasio
