import Yasio.Service.Transports
import Yasio.Service.Channels
import Yasio.Lib.Machine

/-!
# The steps of a service

`step` takes one step of the service thread (a part of a frame of `run`), of a thread that
dispatches events, of a resolver thread or of a user thread.  The user's callbacks act between the
steps, as user threads do.  There is no defer callback.
-/

namespace Yasio

open Function (update)

inductive Action
  -- the service thread
  | start
  | frame (now : ℕ)
  | poll (answer : Option (Fd → Ready))
  | transport (a : TransportAnswers)
  | channel (a : ChannelAnswers)
  | timer (again : Option ℕ)
  | endEvents
  -- the thread that dispatches
  | beginDispatch (count : ℕ)
  | nextEvent
  | endEvent
  | endDispatch
  -- the resolver threads
  | answer (n : ℕ) (result : Except ℕ (List Endpoint × ℕ))
  -- the four parts of `open`
  | openKind (i kind : ℕ)
  | openTest (n : ℕ)
  | openMask (n : ℕ)
  | openInsert (n : ℕ)
  -- the two parts of a `write` through the handle of the event that is handled
  | writeTest
  | writeQueue (data : List UInt8) (dest : Option Endpoint)
  -- other calls
  | write (b : Block) (data : List UInt8) (dest : Option Endpoint)
  | closeChannel (i : ℕ)
  | closeTransport (b : Block)
  | setHost (i : ℕ) (host : Host)
  | setPort (i port : ℕ)
  | setLocal (i : ℕ) (host : Host) (port : ℕ)
  | setMcast (i : ℕ) (flag : Bool)
  | setDnsDirty
  | udpConnect (b : Block) (ok : Bool)
  | udpDisconnect (b : Block)
  | expiresFromNow (n time : ℕ)
  | scheduleTimer (n time : ℕ)
  | cancelTimer (n : ℕ)
  -- the parts of `stop`
  | stop
  | join
  | finishStop

namespace Service

/-! ## The frame -/

/-- The test at the end of a turn of `run`. -/
def nextPhase (s : Service) : Phase := if s.stopFlag ∧ s.transports = [] then .exiting else .top

/-- `get_timeout` at `now`. -/
def getTimeout (s : Service) (now : ℕ) : Int :=
  s.timerQueue.getLast?.elim s.waitDuration fun t =>
    min s.waitDuration ((s.expireTime t : Int) - now)

/-- A turn of `run` up to the test of the wait duration. -/
def beginFrame (s : Service) (now : ℕ) : Service :=
  { s with
    currentTime := now
    waitDuration := s.schedFreq
    -- With a timer that is due there is no poll.
    phase := if 0 < s.getTimeout now then .polling else .transports 0 }

/-- `poll_io`; a turn whose poll fails ends. -/
def poll (s : Service) (answer : Option (Fd → Ready)) : Service :=
  { s with
    watcher := s.watcher.pollIo answer
    npoll := s.npoll + 1
    phase := if answer.isSome then .transports 0 else s.nextPhase }

/-- The test that opens `process_channels`. -/
def endTransports (s : Service) : Service :=
  { s with phase := if s.channelOps = [] then .timers 0 else .channels 0 }

/-- The end of `process_timers` after `n` timers that want to wait again. -/
def endTimers (s : Service) (n : ℕ) : Service :=
  { (if 0 < n then s.sortTimers else s) with phase := .events false }

/-- A timer that fires, and when it fires again if it wants to. -/
def fireTimer (s : Service) (n : ℕ) (t : TimerId) (again : Option ℕ) : Service :=
  let s := { s with timerQueue := s.timerQueue.dropLast }
  match t with
  -- The callback of `async_wait_once`, which does not wait again.
  | .connect i =>
    if (s.chan i).state ≠ .opened then
      { s.handleConnectFailed i ETIMEDOUT with
        timeouts := s.timeouts ++
          [({ channel := i
              state := (s.chan i).state
              gen := s.gen i
              expiry := s.expireTime t
              time := s.currentTime } : Timeout)] }
    else s
  | .user _ =>
    match again with
    | none => s
    | some time =>
      { s.expiresAt t time with timerQueue := s.timerQueue ++ [t], phase := .timers (n + 1) }

/-- One turn of the loop of `process_timers`. -/
def processTimer (s : Service) (n : ℕ) (again : Option ℕ) : Service :=
  match s.timerQueue.getLast? with
  | some t => if s.expired t then s.fireTimer n t again else s.endTimers n
  | none => s.endTimers n

/-- `process_deferred_events` behind `consume`. -/
def endEvents (s : Service) : Service :=
  { s with
    waitDuration :=
      if !s.options.noDispatch ∧ s.queue ++ s.deal ≠ [] then 0 else s.waitDuration
    phase := s.nextPhase }

/-! ## Dispatching -/

/-- `consume` up to its loop. -/
def beginDispatch (s : Service) (count : ℕ) : Service :=
  { s with
    deal := if s.deal = [] then s.queue else s.deal
    queue := if s.deal = [] then [] else s.queue
    budget := some count
    phase := if s.phase = .events false then .events true else s.phase }

/-! ## Resolver threads -/

/-- The `n`-th resolver thread. -/
def query (s : Service) (n : ℕ) : Query := s.queries.getD n ⟨0, [], 0⟩

/-- The assignment of the answer to the `n`-th query. -/
def storeAnswer (s : Service) (n : ℕ) (result : Except ℕ (List Endpoint × ℕ)) : Service :=
  let q := s.query n
  let s := { s with queries := s.queries.eraseIdx n }
  match result with
  | .ok (eps, now) =>
    s.setNet q.channel
      { s.net q.channel with
        remoteEps := eps.map fun ep => ⟨ep, q.host⟩
        querySuccessTime := now }
  | .error _ =>
    s.setChan q.channel { s.chan q.channel with error := Errc.resolveHostFailed }

/-! ## Calls of the user -/

/-- `yasio__setlobyte(properties_, kind)`, the first thing that `open` does. -/
def openKind (s : Service) (i kind : ℕ) : Service :=
  { s with kind := update s.kind i kind, opens := s.opens ++ [(i, .kinded)] }

/-- The channel and the stage of the `n`-th call of `open` under way. -/
def opening (s : Service) (n : ℕ) : ℕ × OpenStage := s.opens.getD n (0, .kinded)

/-- The state test of `open_internal`. -/
def openTest (s : Service) (n : ℕ) : Service :=
  let i := (s.opening n).1
  { s with
    opens :=
      if (s.chan i).state = .connecting ∨ (s.chan i).state = .resolving then s.opens.eraseIdx n
      else s.opens.set n (i, .tested) }

/-- The writes of the masks in `open_internal`. -/
def openMask (s : Service) (n : ℕ) : Service :=
  let i := (s.opening n).1
  { s.setChan i { s.chan i with opClose := false, opOpen := true } with
    opens := s.opens.set n (i, .masked) }

/-- The locked insertion in `open_internal`. -/
def openInsert (s : Service) (n : ℕ) : Service :=
  let i := (s.opening n).1
  { s with
    channelOps := if i ∈ s.channelOps then s.channelOps else s.channelOps ++ [i]
    opens := s.opens.eraseIdx n }

/-- What `close(index)` does to the masks of the channel. -/
def closedChan (s : Service) (i : ℕ) : IoBase :=
  if (s.chan i).opClose then s.chan i
  else { s.chan i with opOpen := false, opClose := (s.sock i).isSome }

/-- `io_transport::is_open` -/
def isOpen (s : Service) (b : Block) : Bool :=
  (s.io b).state = .opened && (s.sock (s.built b).sock).isSome

/-- `write` and `write_to` of a transport: the operation that is queued. -/
def sendOp (s : Service) (b : Block) (data : List UInt8) (dest : Option Endpoint)
    (origin : Option ℕ) : SendOp where
  data := data
  destination :=
    dest <|> if (s.built b).cls.isUdp && !(s.udp b).connected then
      some (if (s.udp b).destination = .unspec then (s.udp b).peer else (s.udp b).destination)
    else none
  origin := origin

/-- `send_queue_.emplace`; `ensure_destination` keeps what it finds. -/
def enqueue (s : Service) (b : Block) (op : SendOp) (dest : Option Endpoint) : Service :=
  { s with
    tx := update s.tx b { s.tx b with sendQueue := (s.tx b).sendQueue ++ [op] }
    udp := update s.udp b
      { s.udp b with
        destination :=
          if dest = none then op.destination.getD (s.udp b).destination
          else (s.udp b).destination } }

end Service

/-- `io_channel::set_host` -/
def Net.setHost (net : Net) (host : Host) : Net :=
  if net.remoteHost ≠ host then { net with remoteHost := host, hostDirty := true } else net

/-- `io_channel::set_port` -/
def Net.setPort (net : Net) (port : ℕ) : Net :=
  if port = 0 then net
  else if net.remotePort ≠ port then { net with remotePort := port, portDirty := true }
  else net

namespace Service

/-- `do_stop` -/
def stop (s : Service) : Service :=
  { s with
    stopFlag := true
    stops := s.stops + 1
    chan := fun i =>
      if s.stopFlag ∨ s.phase = .exiting ∨ s.phase = .stopping ∨ s.channelCount ≤ i then s.chan i
      else s.closedChan i }

/-- `handle_stop` once the worker has been joined: `events_.empty()` is a test of `queue_`. -/
def join (s : Service) : Service :=
  { (if s.queue = [] then s else s.beginDispatch (2 ^ 31 - 1)) with phase := .stopping }

/-- `clear_transports` -/
def clearTransports (s : Service) : Service :=
  { s.transports.foldl (fun s b => { s.cleanupTransport b with tpool := b :: s.tpool })
      { s with transportMap := [] } with
    transports := [] }

/-- `handle_stop` behind its `dispatch`. -/
def finishStop (s : Service) : Service :=
  { s.clearTransports with timerQueue := [], stopFlag := false, phase := .idle }

end Service

namespace Service

/-- The block that the handled event names. -/
def handle (s : Service) : Option Block := s.handling.bind Event.transport

/-- `process_channels` holds the mutex of `channel_ops_` while it runs. -/
def opsLocked (s : Service) : Bool :=
  match s.phase with
  | .channels _ => true
  | _ => false

/-- Whether the step can be taken in the state. -/
def enabled (s : Service) : Action → Bool
  | .start => s.phase = .idle
  | .frame now => s.phase = .top && s.currentTime ≤ now
  | .poll _ => s.phase = .polling
  | .transport _ => match s.phase with | .transports _ => true | _ => false
  | .channel _ => s.opsLocked
  | .timer _ => match s.phase with | .timers _ => true | _ => false
  | .endEvents =>
    match s.phase with
    | .events dispatched => s.budget.isNone && (dispatched || s.options.noDispatch)
    | _ => false
  | .beginDispatch _ => s.budget.isNone
  | .nextEvent => s.budget.any (0 < ·) && s.deal ≠ [] && s.handling = none
  | .endEvent => s.handling.isSome
  | .endDispatch => s.budget.isSome && s.handling = none && (s.budget = some 0 || s.deal = [])
  | .answer n _ => n < s.queries.length
  | .openKind i kind => i < s.channelCount && validKind kind
  | .openTest n => n < s.opens.length && (s.opening n).2 = .kinded
  | .openMask n => n < s.opens.length && (s.opening n).2 = .tested
  | .openInsert n => n < s.opens.length && (s.opening n).2 = .masked && !s.opsLocked
  | .writeTest => s.handle.isSome
  | .writeQueue data _ => s.handle.isSome && s.writing && data ≠ []
  | .write b data _ => s.isOpen b && data ≠ []
  | .closeChannel i | .setHost i _ | .setPort i _ | .setLocal i _ _ | .setMcast i _ =>
    i < s.channelCount
  | .udpConnect b _ | .udpDisconnect b => s.isOpen b && s.kind (s.built b).ctx = Yck.udpClient
  | .closeTransport _ | .setDnsDirty | .expiresFromNow _ _ | .scheduleTimer _ _
  | .cancelTimer _ => true
  | .stop => s.phase ≠ .idle
  | .join => s.phase = .exiting && s.budget.isNone
  | .finishStop => s.phase = .stopping && s.budget.isNone

/-- The state after the step. -/
def effect (inetPton : Host → Option Ip) (s : Service) : Action → Service
  | .start => { s with phase := .top }
  | .frame now => s.beginFrame now
  | .poll answer => s.poll answer
  | .transport a =>
    match s.phase with
    | .transports n => s.transports[n]?.elim s.endTransports fun b => s.visitTransport n b a
    | _ => s
  | .channel a =>
    match s.phase with
    | .channels n =>
      s.channelOps[n]?.elim { s with phase := .timers 0 } fun i => s.visitChannel inetPton n i a
    | _ => s
  | .timer again =>
    match s.phase with
    | .timers n => s.processTimer n again
    | _ => s
  | .endEvents => s.endEvents
  | .beginDispatch count => s.beginDispatch count
  | .nextEvent =>
    { s with
      budget := s.budget.map fun count => count - 1
      handling := s.deal.head?
      deal := s.deal.tail
      writing := false
      seen := s.seen ++ (s.deal.head?.map fun e => ⟨e, false⟩).toList }
  | .endEvent => { s with handling := none, writing := false }
  | .endDispatch => { s with budget := none }
  | .answer n result => s.storeAnswer n result
  | .openKind i kind => s.openKind i kind
  | .openTest n => s.openTest n
  | .openMask n => s.openMask n
  | .openInsert n => s.openInsert n
  | .writeTest => { s with writing := s.handle.any s.isOpen }
  | .writeQueue data dest =>
    let b := s.handle.getD 0
    { s.enqueue b (s.sendOp b data dest (s.handling.map Event.sourceId)) dest with
      writing := false }
  | .write b data dest => s.enqueue b (s.sendOp b data dest none) dest
  | .closeChannel i => s.setChan i (s.closedChan i)
  | .closeTransport b => s.setIo b { s.io b with opClose := true }
  | .setHost i host => s.setNet i ((s.net i).setHost host)
  | .setPort i port => s.setNet i ((s.net i).setPort port)
  | .setLocal i host port => s.setNet i { s.net i with localHost := host, localPort := port }
  | .setMcast i flag => s.setNet i { s.net i with mcast := flag }
  | .setDnsDirty => { s with options := { s.options with dnsDirty := true } }
  | .udpConnect b ok => s.udpConnect b ok
  | .udpDisconnect b => s.udpDisconnect b
  -- The expiry of a timer that may wait; nothing is sorted and nobody is woken.
  | .expiresFromNow n time => s.expiresAt (.user n) time
  | .scheduleTimer n time => (s.expiresAt (.user n) time).scheduleTimer (.user n)
  | .cancelTimer n => s.cancelTimer (.user n)
  | .stop => s.stop
  | .join => s.join
  | .finishStop => s.finishStop

end Service

/-- One step; `none` when this step cannot be taken in the state. -/
def step (inetPton : Host → Option Ip) (a : Action) (s : Service) : Option Service :=
  if s.enabled a then some (s.effect inetPton a) else none

theorem step_eq_some {inetPton : Host → Option Ip} {a : Action} {s s' : Service} :
    step inetPton a s = some s' ↔ s.enabled a = true ∧ s.effect inetPton a = s' := by
  simp [step]

/-- A service whose channel 0 connects on the descriptor 5. -/
def connectFirst : List Action :=
  [.start, .setHost 0 ['a'], .setPort 0 80, .openKind 0 Yck.tcpClient, .openTest 0, .openMask 0,
    .openInsert 0, .frame 1, .poll (some fun _ => {}), .transport {},
    .channel { socket := .ok 5 }, .channel {}, .timer none, .endEvents]

end Yasio
