import Yasio.Service.PoolSteps

/-!
# The turn of a client channel

The ways in which `process_channels` advances a client channel, each with the state that it leaves.
-/

namespace Yasio

open Function (update)

/-- What `do_resolve` for channel `i` can change. -/
def Resolves (i : ℕ) (s s' : Service) : Prop :=
  ∃ net queries options error, s' =
    { s with net, queries, options, chan := update s.chan i { s.chan i with error } }

namespace Resolves

variable {i : ℕ} {s s' s'' : Service}

theorem of_net (net : ℕ → Net) (queries : List Query) (options : Options) :
    Resolves i s { s with net, queries, options } := by
  refine ⟨net, queries, options, (s.chan i).error, ?_⟩
  rw [show ({ s.chan i with error := (s.chan i).error } : IoBase) = s.chan i from rfl,
    Function.update_eq_self]

theorem setError (error : Int) : Resolves i s (s.setChan i { s.chan i with error }) :=
  ⟨s.net, s.queries, s.options, error, rfl⟩

theorem trans (h : Resolves i s s') (h' : Resolves i s' s'') : Resolves i s s'' := by
  obtain ⟨net, queries, options, error, rfl⟩ := h
  obtain ⟨net', queries', options', error', rfl⟩ := h'
  refine ⟨net', queries', options', error', ?_⟩
  simp

theorem updateDnsStatus : Resolves i s s.updateDnsStatus := by
  unfold Service.updateDnsStatus
  split
  · exact of_net _ s.queries _
  · exact of_net s.net s.queries s.options

theorem startQuery : Resolves i s (s.startQuery i) :=
  (setError EINPROGRESS).trans (of_net s.net _ s.options)

theorem doResolve (inetPton : Host → Option Ip) (i now : ℕ) (s : Service) :
    Resolves i s (s.doResolve inetPton i now).1 := by
  apply Service.doResolve_induction
  · exact of_net _ s.queries s.options
  · exact fun t ht => ht.trans updateDnsStatus
  · exact fun t ht => ht.trans (of_net _ t.queries t.options)
  · exact fun t ht => ht.trans startQuery
  · exact fun t ht => ht.trans (setError _)

end Resolves

namespace Service

variable (s : Service)

/-- `do_connect` up to the opening of the socket. -/
def unbound (i : ℕ) : Service :=
  let s := if (s.sock i).isSome then s.cleanupChannel i else s
  s.setChan i { s.chan i with state := .connecting }

/-- The opening of the socket in `do_connect`. -/
def attempted (i : ℕ) (fd : Fd) : Service :=
  let ep := (s.net i).remoteEps.head?.elim .unspec RemoteEp.ep
  { s.openSock i fd with
    attempts := s.attempts ++
      [({ channel := i
          left := s.transports.filter fun b => (s.built b).ctx = i
          unclosed := s.unclosed i } : Attempt)]
    sockPeer :=
      if testbits (s.kind i) Ycm.tcp then update (s.openSock i fd).sockPeer i ep
      else (s.openSock i fd).sockPeer }

/-- The end of `do_connect` when the connect is in progress. -/
def awaitConnect (i : ℕ) (a : ChannelAnswers) : Service :=
  let expiry := a.now + s.options.connectTimeout
  let s := (s.setChan i { s.chan i with error := EINPROGRESS }).modEvent i .readwrite .none
  let s := (s.expiresAt (.connect i) expiry).scheduleTimer (.connect i)
  { s with armed := s.armed ++ [({ channel := i, gen := s.gen i, expiry } : Armed)] }

end Service

/-- The interest that `do_connect_completion` asks for. -/
def connectReady : Ready := { read := true, write := true }

section

variable (inetPton : Host → Option Ip) (i : ℕ) (a : ChannelAnswers)

/-- How a client channel advances whose request, if there was one, has been taken up. -/
inductive ClientTurn (s : Service) : Service → Prop
  | idle (hstate : (s.chan i).state ≠ .resolving ∧ (s.chan i).state ≠ .connecting) :
      ClientTurn s s
  | waits (hstate : (s.chan i).state = .resolving) {s₁ : Service} (h : Resolves i s s₁)
      (herror : (s₁.chan i).error = EINPROGRESS) : ClientTurn s s₁
  | unresolved (hstate : (s.chan i).state = .resolving) {s₁ : Service} (h : Resolves i s s₁)
      (error : Int) : ClientTurn s (s₁.handleConnectFailed i error)
  | noSocket (hstate : (s.chan i).state = .resolving) {s₁ : Service} (h : Resolves i s s₁)
      (error : ℕ) : ClientTurn s ((s₁.unbound i).handleConnectFailed i error)
  | refused (hstate : (s.chan i).state = .resolving) {s₁ : Service} (h : Resolves i s s₁)
      (fd : Fd) (hfd : (s₁.unbound i).fdFree fd = true) (error : ℕ) :
      ClientTurn s (((s₁.unbound i).attempted i fd).handleConnectFailed i error)
  | starts (hstate : (s.chan i).state = .resolving) {s₁ : Service} (h : Resolves i s s₁)
      (fd : Fd) (hfd : (s₁.unbound i).fdFree fd = true) :
      ClientTurn s (((s₁.unbound i).attempted i fd).awaitConnect i a)
  | connects (hstate : (s.chan i).state = .resolving) {s₁ : Service} (h : Resolves i s s₁)
      (fd : Fd) (hfd : (s₁.unbound i).fdFree fd = true) :
      ClientTurn s
        ((((s₁.unbound i).attempted i fd).modEvent i { read := true } .none).establish i i
          a.interval a.dgramConnect)
  | pending (hstate : (s.chan i).state = .connecting) (hready : s.ready i connectReady = false) :
      ClientTurn s s
  | completes (hstate : (s.chan i).state = .connecting) (hready : s.ready i connectReady = true) :
      ClientTurn s
        ((((s.ask i connectReady).modEvent i .none { write := true }).establish i i a.interval
          a.dgramConnect).cancelTimer (.connect i))
  | fails (hstate : (s.chan i).state = .connecting) (hready : s.ready i connectReady = true)
      (error : Int) :
      ClientTurn s (((s.ask i connectReady).handleConnectFailed i error).cancelTimer (.connect i))

end

namespace Service

variable {inetPton : Host → Option Ip} {i : ℕ} {a : ChannelAnswers} {s : Service}

theorem ask_of_not_ready {k : SockId} {events : Ready} (h : s.ready k events = false) :
    s.ask k events = s := by
  unfold ask
  rw [h]
  rfl

theorem toPool_takeOpen (s : Service) (i : ℕ) : (s.takeOpen i).toPool = s.toPool := by
  unfold takeOpen
  split <;> rfl

theorem kind_takeOpen (s : Service) (i : ℕ) : (s.takeOpen i).kind = s.kind := by
  unfold takeOpen
  split <;> rfl

theorem takeOpen_of_not_opOpen (h : (s.chan i).opOpen = false) : s.takeOpen i = s := by
  rw [takeOpen, h]
  rfl

/-- A channel whose request is taken up resolves. -/
theorem takeOpen_of_connecting (h : ((s.takeOpen i).chan i).state = .connecting) :
    s.takeOpen i = s := by
  cases hopen : (s.chan i).opOpen with
  | false => exact takeOpen_of_not_opOpen hopen
  | true =>
    rw [takeOpen, hopen] at h
    change (update s.chan i _ i).state = .connecting at h
    rw [Function.update_self] at h
    cases h

theorem mem_drop_channelOps {n : ℕ} (hi : s.channelOps[n]? = some i) :
    i ∈ s.channelOps.drop n :=
  List.mem_of_getElem? ((List.getElem?_drop (j := 0)).trans hi)

/-- A channel that is neither a client nor a server leaves the list. -/
theorem visitChannel_of_no_role (inetPton : Host → Option Ip) (n : ℕ) (a : ChannelAnswers)
    (hclient : testbits (s.kind i) Ycm.client = false)
    (hserver : testbits (s.kind i) Ycm.server = false) :
    s.visitChannel inetPton n i a = { s with channelOps := s.channelOps.eraseIdx n } := by
  unfold visitChannel finished
  simp [hclient, hserver]

theorem doConnect_of_error {error : ℕ} (h : (s.unbound i).newFd a.socket = .error error) :
    s.doConnect i a = (s.unbound i).handleConnectFailed i error := by
  unfold doConnect
  dsimp only
  split
  · next _ herror =>
    cases herror.symm.trans h
    rfl
  · next _ hok => cases hok.symm.trans h

theorem doConnect_of_ok {fd : Fd} (h : (s.unbound i).newFd a.socket = .ok fd) :
    s.doConnect i a = ((s.unbound i).attempted i fd).startConnect i a := by
  unfold doConnect
  dsimp only
  split
  · next _ herror => cases herror.symm.trans h
  · next _ hok =>
    cases hok.symm.trans h
    rfl

theorem clientTurn_doConnect (hstate : (s.chan i).state = .resolving) {s₁ : Service}
    (h : Resolves i s s₁) : ClientTurn i a s (s₁.doConnect i a) := by
  cases hsocket : (s₁.unbound i).newFd a.socket with
  | error error =>
    rw [doConnect_of_error hsocket]
    exact .noSocket hstate h error
  | ok fd =>
    have hfree := (Sockets.newFd_eq_ok hsocket).2
    rw [doConnect_of_ok hsocket]
    unfold startConnect
    split
    · next error _ =>
      split
      · exact .refused hstate h fd hfree error
      · exact .starts hstate h fd hfree
    · exact .connects hstate h fd hfree

theorem clientTurn_doConnectCompletion (hstate : (s.chan i).state = .connecting) :
    ClientTurn i a s (s.doConnectCompletion i a) := by
  unfold doConnectCompletion
  dsimp only
  rw [if_pos hstate]
  split
  · next hready =>
    split
    · exact .completes hstate hready
    · exact .fails hstate hready _
  · next hready =>
    rw [show ({ read := true, write := true } : Ready) = connectReady from rfl] at hready ⊢
    have hready' : s.ready i connectReady = false := by simpa using hready
    rw [ask_of_not_ready hready']
    exact .pending hstate hready'

theorem clientTurn_advance (inetPton : Host → Option Ip) (s : Service) :
    ClientTurn i a s (s.advance inetPton i a) := by
  unfold advance
  split
  · next hstate =>
    have h := Resolves.doResolve inetPton i a.now s
    split
    · next s₁ heq =>
      rw [heq] at h
      exact clientTurn_doConnect hstate h
    · next s₁ heq =>
      rw [heq] at h
      split
      · exact .unresolved hstate h _
      · next herror => exact .waits hstate h (not_not.1 herror)
  · next hstate => exact clientTurn_doConnectCompletion hstate
  · next hresolving hconnecting => exact .idle ⟨hresolving, hconnecting⟩

/-- A turn of the loop of `process_channels` on a client channel. -/
theorem exists_clientTurn (inetPton : Host → Option Ip) (n : ℕ) (a : ChannelAnswers)
    (hclient : testbits (s.kind i) Ycm.client = true) :
    ∃ t, ClientTurn i a (s.takeOpen i) t ∧
      (t.finished i = true ∧
          s.visitChannel inetPton n i a = { t with channelOps := t.channelOps.eraseIdx n } ∨
        t.finished i = false ∧
          s.visitChannel inetPton n i a = { t with phase := .channels (n + 1) }) := by
  refine ⟨_, clientTurn_advance inetPton (s.takeOpen i), ?_⟩
  unfold visitChannel
  dsimp only
  rw [if_pos hclient]
  split
  · next h => exact .inl ⟨h, rfl⟩
  · next h => exact .inr ⟨(Bool.not_eq_true _).mp h, rfl⟩

/-! ## The parts of do_connect -/

theorem state_unbound (s : Service) (i : ℕ) : ((s.unbound i).chan i).state = .connecting := by
  unfold unbound setChan
  dsimp only
  rw [Function.update_self]

theorem state_handleConnectFailed (s : Service) (i : ℕ) (error : Int) :
    ((s.handleConnectFailed i error).chan i).state = .closed := by
  change (update s.chan i ((s.chan i).cleanup true) i).state = _
  rw [Function.update_self]
  rfl

theorem gen_unbound (s : Service) (i : ℕ) : (s.unbound i).gen = s.gen := by
  unfold unbound
  dsimp only
  split <;> rfl

theorem kind_unbound (s : Service) (i : ℕ) : (s.unbound i).kind = s.kind := by
  unfold unbound
  dsimp only
  split <;> rfl

theorem gen_attempted (s : Service) (i : ℕ) (fd : Fd) :
    (s.attempted i fd).gen i = s.gen i + 1 :=
  Function.update_self _ _ _

theorem gen_resolves (h : Resolves i s s') :
    s'.gen = s.gen ∧ (s'.chan i).state = (s.chan i).state := by
  obtain ⟨net, queries, options, error, rfl⟩ := h
  refine ⟨rfl, ?_⟩
  change (update s.chan i { s.chan i with error } i).state = _
  rw [Function.update_self]

/-! ## New connections -/

/-- The channel after `handle_connect_succeed`. -/
def connectedChan (s : Service) (i : ℕ) (client : Bool) : IoBase :=
  { s.chan i with error := 0, state := if client then .opened else (s.chan i).state }

/-- All that `handle_connect_succeed` changes before it activates the transport. -/
theorem handleConnectSucceed_eq {b : Block} {client : Bool} (hctx : (s.built b).ctx = i)
    (hclient : testbits (s.kind i) Ycm.client = client) (ok : Bool) :
    ∃ udp sockPeer, s.handleConnectSucceed b ok =
      activeTransport
        { (if client then s else s.modEvent (s.built b).sock { read := true } .none) with
          chan := update s.chan i (s.connectedChan i client)
          udp
          sockPeer } b := by
  unfold handleConnectSucceed
  rw [hctx]
  dsimp only
  rw [hclient]
  cases client with
  | false => exact ⟨s.udp, s.sockPeer, rfl⟩
  | true =>
    cases testbits (s.kind i) Ycm.udp with
    | false => exact ⟨s.udp, s.sockPeer, rfl⟩
    | true =>
      obtain ⟨udp, sockPeer, heq, -⟩ := exists_configureRemote
        (s.setChan i { s.chan i with error := 0, state := .opened }) b
        ((s.net i).remoteEps.head?.elim .unspec RemoteEp.ep) ok
      exact ⟨udp, sockPeer, congrArg (activeTransport · b) heq⟩

/-- The interest that a new connection sets: none for a client, reading for the others. -/
def tuneNew (client : Bool) (k : SockId) (t : Sockets) : Sockets :=
  if client then t else t.modEvent k { read := true } .none

theorem establish_eq (s : Service) {i : ℕ} {client : Bool}
    (hclient : testbits (s.kind i) Ycm.client = client) (k : SockId) (interval : ℕ) (ok : Bool) :
    ∃ udp sockPeer, s.establish i k interval ok =
      activeTransport
        { s.allocateTransport i k interval with
          chan := update s.chan i (s.connectedChan i client)
          udp
          toSockets := { tuneNew client k s.toSockets with sockPeer } }
        s.freshBlock := by
  have hbuilt : (s.allocateTransport i k interval).built s.freshBlock =
      { s.newBuilt i k interval with id := (s.objectId + 1) % 2 ^ 32 } :=
    Pool.built_allocate_freshBlock _
  obtain ⟨udp, sockPeer, heq⟩ := handleConnectSucceed_eq (s := s.allocateTransport i k interval)
    (i := i) (b := s.freshBlock) (by rw [hbuilt]; rfl) hclient ok
  refine ⟨udp, sockPeer, heq.trans ?_⟩
  rw [hbuilt]
  cases client with
  | false => rfl
  | true => rfl

theorem sockets_establish (s : Service) {i : ℕ} {client : Bool}
    (hclient : testbits (s.kind i) Ycm.client = client) (k : SockId) (interval : ℕ) (ok : Bool) :
    ∃ sockPeer, (s.establish i k interval ok).toSockets =
      { tuneNew client k s.toSockets with sockPeer } := by
  obtain ⟨udp, sockPeer, heq⟩ := s.establish_eq hclient k interval ok
  exact ⟨sockPeer, by rw [heq]; rfl⟩

theorem chan_establish (s : Service) {i : ℕ} {client : Bool}
    (hclient : testbits (s.kind i) Ycm.client = client) (k : SockId) (interval : ℕ) (ok : Bool) :
    (s.establish i k interval ok).chan = update s.chan i (s.connectedChan i client) := by
  obtain ⟨udp, sockPeer, heq⟩ := s.establish_eq hclient k interval ok
  rw [heq]
  rfl

/-! ## Timers -/

/-- What a turn of the loop of `process_timers` does. -/
inductive TimerTurn (n : ℕ) (s : Service) : Service → Prop
  | ends (timers : Timers) (htimers : timers = s.toTimers ∨ timers = s.sortTimers.toTimers) :
      TimerTurn n s { s with toTimers := timers, phase := .events false }
  | userDone (m : ℕ) (hlast : s.timerQueue.getLast? = some (.user m)) :
      TimerTurn n s { s with timerQueue := s.timerQueue.dropLast }
  | userAgain (m : ℕ) (hlast : s.timerQueue.getLast? = some (.user m)) (time : ℕ) :
      TimerTurn n s
        { s with
          timerQueue := s.timerQueue.dropLast ++ [.user m]
          expireTime := update s.expireTime (.user m) time
          phase := .timers (n + 1) }
  | late (i : ℕ) (hlast : s.timerQueue.getLast? = some (.connect i))
      (hexpired : s.expired (.connect i) = true) (hstate : (s.chan i).state = .opened) :
      TimerTurn n s { s with timerQueue := s.timerQueue.dropLast }
  | timeout (i : ℕ) (hlast : s.timerQueue.getLast? = some (.connect i))
      (hexpired : s.expired (.connect i) = true) (hstate : (s.chan i).state ≠ .opened) :
      TimerTurn n s
        { ({ s with timerQueue := s.timerQueue.dropLast } : Service).handleConnectFailed i
            ETIMEDOUT with
          timeouts := s.timeouts ++
            [({ channel := i
                state := (s.chan i).state
                gen := s.gen i
                expiry := s.expireTime (.connect i)
                time := s.currentTime } : Timeout)] }

theorem exists_timerTurn (n : ℕ) (again : Option ℕ) :
    TimerTurn n s (s.processTimer n again) := by
  have hend : TimerTurn n s (s.endTimers n) := by
    unfold endTimers
    split
    · exact .ends s.sortTimers.toTimers (.inr rfl)
    · exact .ends s.toTimers (.inl rfl)
  unfold processTimer
  split
  · next t hlast =>
    split
    · next hexpired =>
      unfold fireTimer
      dsimp only
      split
      · next i =>
        split
        · next hstate => exact .timeout i hlast hexpired hstate
        · next hstate => exact .late i hlast hexpired (not_not.1 hstate)
      · next m =>
        split
        · exact .userDone m hlast
        · next time => exact .userAgain m hlast time
    · exact hend
  · exact hend

end Service

end Yasio
