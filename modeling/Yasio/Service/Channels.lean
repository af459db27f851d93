import Yasio.Service.Base
import Mathlib.Data.List.Sort

/-!
# Processing the channels

One turn of the loop of `process_channels`: resolving, connecting and accepting.
-/

namespace Yasio

open Function (update)

/-- What the outside answers while a channel is processed.  An optional number is the error of the
call, if it fails. -/
structure ChannelAnswers where
  /-- `highp_clock`, and the clock of `expires_from_now` -/
  now : ℕ := 0
  /-- `socket` on the channel's own socket object -/
  socket : Except ℕ Fd := .error 24
  bind : Option ℕ := none
  listen : Option ℕ := none
  connect : Option ℕ := none
  /-- `SO_ERROR`, if `getsockopt` gives it -/
  soError : Option Int := some 0
  accept : Except ℕ Fd := .error 11
  acceptPeer : Endpoint := .unspec
  /-- `recvfrom` on the socket of a UDP server channel -/
  datagram : RawRead := .fail 11
  peer : Endpoint := .unspec
  /-- `socket`, `bind` and `connect_n` for the transport of a new peer -/
  dgramSocket : Except ℕ Fd := .error 24
  dgramBind : Option ℕ := none
  dgramConnect : Bool := true
  /-- the error of `io_transport_kcp::handle_input` -/
  input : Option ℕ := none
  /-- the `interval` that `ikcp_nodelay` leaves in a new KCP block -/
  interval : ℕ := 10000

namespace Service

variable (s : Service)

/-! ## Timers -/

/-- `std::sort` by descending expiry. -/
def sortTimers : Service :=
  { s with
    timerQueue := List.insertionSort (fun t t' => s.expireTime t' ≤ s.expireTime t) s.timerQueue }

/-- `schedule_timer` -/
def scheduleTimer (t : TimerId) : Service :=
  { s with
    timerQueue := if t ∈ s.timerQueue then s.timerQueue else s.timerQueue ++ [t] }.sortTimers

/-- `remove_timer` -/
def removeTimer (t : TimerId) : Service :=
  if t ∈ s.timerQueue then { s with timerQueue := s.timerQueue.erase t }.sortTimers else s

/-- `highp_timer::expired` -/
def expired (t : TimerId) : Bool := s.expireTime t ≤ s.currentTime

/-- `highp_timer::cancel` -/
def cancelTimer (t : TimerId) : Service := if s.expired t then s else s.removeTimer t

/-- `expires_from_now` at `now`. -/
def expiresAt (t : TimerId) (time : ℕ) : Service :=
  { s with expireTime := update s.expireTime t time }

/-! ## Resolving -/

def setNet (i : ℕ) (net : Net) : Service := { s with net := update s.net i net }

/-- `update_dns_status` -/
def updateDnsStatus : Service :=
  if s.options.dnsDirty then
    { s with
      options := { s.options with dnsDirty := false }
      net := fun i =>
        if i < s.channelCount then { s.net i with querySuccessTime := 0 } else s.net i }
  else s

/-- `start_query` -/
def startQuery (i : ℕ) : Service :=
  { s.setChan i { s.chan i with error := EINPROGRESS } with
    queries := s.queries ++ [⟨i, (s.net i).remoteHost, (s.net i).remotePort⟩] }

end Service

/-- The part of `do_resolve` that follows `YCPF_HOST_DIRTY`. -/
def Net.refreshHost (inetPton : Host → Option Ip) (net : Net) : Net :=
  if net.hostDirty then
    { net with
      hostDirty := false
      -- A host that is an IP address needs no query.
      needsQuery := (inetPton net.remoteHost).isNone
      remoteEps := (inetPton net.remoteHost).toList.map fun ip =>
        ⟨ip.endpoint net.remotePort, net.remoteHost⟩ }
  else net

/-- The part of `do_resolve` that follows `YCPF_PORT_DIRTY`. -/
def Net.refreshPort (net : Net) : Net :=
  if net.portDirty then
    { net with
      portDirty := false
      remoteEps := net.remoteEps.map fun r => { r with ep := r.ep.setPort net.remotePort } }
  else net

namespace Service

variable (inetPton : Host → Option Ip) (s : Service)

/-- `address_expired` -/
def addressExpired (i now : ℕ) : Bool :=
  s.options.dnsCacheTimeout < (now : Int) - (s.net i).querySuccessTime

/-- `do_resolve`, and whether it returns 0. -/
def doResolve (i now : ℕ) : Service × Bool :=
  let s := s.setNet i ((s.net i).refreshHost inetPton).refreshPort
  let query (s : Service) : Service × Bool :=
    if (s.net i).remoteHost ≠ [] then
      if (s.chan i).error = 0 then (s.startQuery i, false) else (s, false)
    else (s.setChan i { s.chan i with error := Errc.noAvailableAddress }, false)
  if (s.net i).remoteEps ≠ [] then
    if !(s.net i).needsQuery then (s, true)
    else
      let s := s.updateDnsStatus
      -- The answer is there, and this connect has not used it.
      if (s.chan i).error = EINPROGRESS then (s, true)
      else if !s.addressExpired i now then (s, true)
      else query (s.setNet i { s.net i with remoteEps := [] })
  else query s

/-! ## Connecting -/

/-- The connections of channel `i` that were announced and whose loss was not. -/
def unclosed (i : ℕ) : List ℕ :=
  (s.fired.filter fun e =>
    e.kind = .onOpen ∧ e.channel = i ∧ e.transport ≠ none ∧
      ∀ e' ∈ s.fired, ¬ (e'.kind = .onClose ∧ e'.sourceId = e.sourceId)).map Event.sourceId

/-- The number of `YEK_ON_OPEN` events of channel `i`. -/
def results (i : ℕ) : ℕ := s.fired.countP fun e => e.kind = .onOpen ∧ e.channel = i

/-- The error of the calls of `bind` and `connect` in `do_connect`. -/
def connectError (i : ℕ) (a : ChannelAnswers) : Option ℕ :=
  let kind := s.kind i
  let net := s.net i
  let bind :=
    if !testbits kind Ycm.uds &&
        (net.localHost ≠ [] || net.localPort ≠ 0 || testbits kind Ycm.udp) then
      -- EPERM is suppressed.
      a.bind.filter fun error : ℕ => (error : Int) != EPERM
    else none
  bind <|> (if testbits kind Ycm.tcp then a.connect else none)

/-- `do_connect` once the socket is open. -/
def startConnect (i : ℕ) (a : ChannelAnswers) : Service :=
  match s.connectError i a with
  | some error =>
    if (error : Int) ≠ EINPROGRESS ∧ (error : Int) ≠ EWOULDBLOCK then s.handleConnectFailed i error
    else
      -- The timer fails the channel unless it is open by then.
      let expiry := a.now + s.options.connectTimeout
      let s := (s.setChan i { s.chan i with error := EINPROGRESS }).modEvent i .readwrite .none
      let s := (s.expiresAt (.connect i) expiry).scheduleTimer (.connect i)
      { s with armed := s.armed ++ [({ channel := i, gen := s.gen i, expiry } : Armed)] }
  | none =>
    let s := s.modEvent i { read := true } .none
    (s.allocateTransport i i a.interval).handleConnectSucceed s.freshBlock a.dgramConnect

/-- `do_connect` -/
def doConnect (i : ℕ) (a : ChannelAnswers) : Service :=
  let s := if (s.sock i).isSome then s.cleanupChannel i else s
  let s := s.setChan i { s.chan i with state := .connecting }
  match s.newFd a.socket with
  | .error error => s.handleConnectFailed i error
  | .ok fd =>
    let ep := (s.net i).remoteEps.head?.elim .unspec RemoteEp.ep
    let s := s.openSock i fd
    let s :=
      { s with
        attempts := s.attempts ++
          [({ channel := i
              left := s.transports.filter fun b => (s.built b).ctx = i
              unclosed := s.unclosed i } : Attempt)]
        sockPeer := if testbits (s.kind i) Ycm.tcp then update s.sockPeer i ep else s.sockPeer }
    s.startConnect i a

/-- `do_connect_completion` -/
def doConnectCompletion (i : ℕ) (a : ChannelAnswers) : Service :=
  let readwrite : Ready := { read := true, write := true }
  if (s.chan i).state = .connecting then
    let answer := s.ready i readwrite
    let s := s.ask i readwrite
    if answer then
      let s :=
        if a.soError = some 0 then
          let s := s.modEvent i .none { write := true }
          (s.allocateTransport i i a.interval).handleConnectSucceed s.freshBlock a.dgramConnect
        else s.handleConnectFailed i (a.soError.getD (-1))
      s.cancelTimer (.connect i)
    else s
  else s

/-! ## Accepting -/

/-- `do_accept` -/
def doAccept (i : ℕ) (a : ChannelAnswers) : Service :=
  let s := s.cleanupChannel i
  match s.newFd a.socket with
  | .error _ => s
  | .ok fd =>
    let s := s.openSock i fd
    if a.bind.isSome || testbits (s.kind i) Ycm.tcp && a.listen.isSome then s.closeSock i
    else
      (s.setChan i { s.chan i with state := .opened }).modEvent i { read := true } .none

/-- `do_dgram_accept`: the transport for a peer, if there is one or one can be made. -/
def doDgramAccept (i : ℕ) (peer : Endpoint) (a : ChannelAnswers) : Service × Option Block :=
  match s.transportMap.find peer with
  | some b => (s, some b)
  | none =>
    match s.newFd a.dgramSocket with
    | .error _ => (s, none)
    | .ok fd =>
      -- The new socket goes out of scope and is closed.
      if a.dgramBind.isSome then (s, none)
      else
        let b := s.freshBlock
        let k := s.nextSock
        let s := (s.newSock fd .unspec).allocateTransport i k a.interval
        let s := s.configureRemote b peer a.dgramConnect
        -- The peers of a multicast group are told apart here and not by the kernel.
        let s := if (s.net i).mcast then s.activeTransport b else s.handleConnectSucceed b true
        ({ s with
          transportMap := s.transportMap.emplace peer b
          mapKey := update s.mapKey b (some peer) }, some b)

/-- `handle_input` of the transport that takes a datagram. -/
def handleInput (b : Block) (data : List UInt8) (error : Option ℕ) : Service :=
  match (s.built b).cls with
  | .kcp =>
    match error with
    | some error => s.setIo b { s.io b with error, opClose := true }
    | none => s
  | _ =>
    if s.options.forwardPacket then s.forwardPacket b data
    else s.fireEvents [s.transportEvent b .onPacket 0 data]

/-- A datagram that came through the socket of channel `i`. -/
def acceptDatagram (i : ℕ) (data : List UInt8) (a : ChannelAnswers) : Service :=
  match s.doDgramAccept i a.peer a with
  | (s, none) =>
    -- The datagram is dropped.
    { s with
      delivered := s.delivered ++
        [({ channel := i, peer := a.peer, alive := false, ctx := i, builtFor := none } :
          Delivery)] }
  | (s, some b) =>
    let s :=
      { s with
        delivered := s.delivered ++
          [({ channel := i
              peer := a.peer
              alive := b ∈ s.transports
              ctx := (s.built b).ctx
              builtFor := s.mapKey b } : Delivery)] }
    s.handleInput b data a.input

/-- `do_accept_completion` -/
def doAcceptCompletion (i : ℕ) (a : ChannelAnswers) : Service :=
  if (s.chan i).state = .opened then
    let answer := s.ready i { read := true }
    let s := s.ask i { read := true }
    if answer ∧ a.soError = some 0 then
      if testbits (s.kind i) Ycm.tcp then
        match s.newFd a.accept with
        -- A failed accept of the non-blocking socket is ignored.
        | .error _ => s
        | .ok fd =>
          let k := s.nextSock
          let s := s.newSock fd a.acceptPeer
          (s.allocateTransport i k a.interval).handleConnectSucceed s.freshBlock true
      else if a.datagram.data ≠ [] then s.acceptDatagram i a.datagram.data a
      else s
    else s
  else s

/-! ## One turn of the loop -/

/-- `process_channels` on the mask of a client channel. -/
def takeOpen (i : ℕ) : Service :=
  if (s.chan i).opOpen then
    { s.setChan i { s.chan i with opOpen := false, state := .resolving } with
      taken := s.taken ++
        [({ channel := i, results := s.results i, stops := s.stops, stopping := s.stopFlag } :
          TakeUp)] }
  else s

/-- `process_channels` on the mask of a server channel. -/
def takeMasks (i : ℕ) (a : ChannelAnswers) : Service :=
  if (s.chan i).opOpen then s.doAccept i a
  else if (s.chan i).opClose then s.cleanupChannel i
  else s

/-- `process_channels` on the state of a client channel. -/
def advance (i : ℕ) (a : ChannelAnswers) : Service :=
  match (s.chan i).state with
  | .resolving =>
    match s.doResolve inetPton i a.now with
    | (s, true) => s.doConnect i a
    | (s, false) =>
      if (s.chan i).error ≠ EINPROGRESS then s.handleConnectFailed i (s.chan i).error else s
  | .connecting => s.doConnectCompletion i a
  | _ => s

/-- Whether the channel has nothing left to do in `process_channels`. -/
def finished (i : ℕ) : Bool :=
  if testbits (s.kind i) Ycm.client then (s.chan i).error ≠ EINPROGRESS
  else if testbits (s.kind i) Ycm.server then (s.chan i).state ≠ .opened
  else true

/-- One turn of the loop of `process_channels`, at position `n`. -/
def visitChannel (n i : ℕ) (a : ChannelAnswers) : Service :=
  let s :=
    if testbits (s.kind i) Ycm.client then (s.takeOpen i).advance inetPton i a
    else if testbits (s.kind i) Ycm.server then (s.takeMasks i a).doAcceptCompletion i a
    else s
  if s.finished i then { s with channelOps := s.channelOps.eraseIdx n }
  else { s with phase := .channels (n + 1) }

end Service

end Yasio
