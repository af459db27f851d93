import Yasio.Service.Pool
import Yasio.Service.TransportTurn
import Mathlib.Logic.Relation

/-!
# What a turn of the loop of process_channels can do

A turn is a chain of parts that leave the transports alone, with at most one new connection in it.
-/

namespace Yasio

open Function (update)

namespace Sockets

theorem newFd_eq_ok {t : Sockets} {answer : Except ℕ Fd} {fd : Fd} (h : t.newFd answer = .ok fd) :
    answer = .ok fd ∧ t.fdFree fd = true := by
  unfold newFd at h
  cases answer with
  | error e => cases h
  | ok fd' =>
    simp only [Except.bind] at h
    split at h
    · next hfree =>
      obtain rfl : fd' = fd := by simpa using h
      exact ⟨rfl, hfree⟩
    · cases h

theorem fdFree_iff {t : Sockets} {fd : Fd} :
    t.fdFree fd = true ↔ ∀ k < t.nextSock, t.sock k ≠ some fd := by
  simp [fdFree]

end Sockets

section

variable (inetPton : Host → Option Ip) (i : ℕ)

/-- A part of the turn of channel `i` that leaves the transports alone. -/
inductive Part : Service → Service → Prop
  | setChan (s : Service) (base : IoBase) : Part s (s.setChan i base)
  | resolve (s : Service) (now : ℕ) : Part s (s.doResolve inetPton i now).1
  | closeSock (s : Service) : Part s (s.closeSock i)
  | openSock (s : Service) (fd : Fd) (h : s.fdFree fd = true) : Part s (s.openSock i fd)
  | modEvent (s : Service) (add remove : Interest) : Part s (s.modEvent i add remove)
  | fire (s : Service) (error : Int) : Part s (s.fireEvents [s.channelEvent i error])
  | ask (s : Service) (events : Ready) : Part s (s.ask i events)
  | timers (s : Service) (timers : Timers) : Part s { s with toTimers := timers }
  | attempt (s : Service) (left : List Block) (unclosed : List ℕ)
      (sockPeer : SockId → Endpoint) :
      Part s
        { s with
          attempts := s.attempts ++ [({ channel := i, left, unclosed } : Attempt)]
          sockPeer }
  | note (s : Service) (armed : List Armed) (timeouts : List Timeout) :
      Part s { s with armed, timeouts }
  | take (s : Service) (x : TakeUp) (h : x.channel = i) : Part s { s with taken := s.taken ++ [x] }

/-- A chain of such parts. -/
abbrev Quiet : Service → Service → Prop := Relation.ReflTransGen (Part inetPton i)

end

namespace Service

variable (s : Service)

/-- `handle_connect_succeed` on a new transport for the socket `k`. -/
def establish (i : ℕ) (k : SockId) (interval : ℕ) (ok : Bool) : Service :=
  (s.allocateTransport i k interval).handleConnectSucceed s.freshBlock ok

/-- The transport that `do_dgram_accept` makes for a new peer, on a socket with this number. -/
def acceptPeer (i : ℕ) (peer : Endpoint) (fd : Fd) (a : ChannelAnswers) : Service :=
  let b := s.freshBlock
  let s' := ((s.newSock fd .unspec).allocateTransport i s.nextSock a.interval).configureRemote b
    peer a.dgramConnect
  let s' := if (s'.net i).mcast then s'.activeTransport b else s'.handleConnectSucceed b true
  { s' with
    transportMap := s'.transportMap.emplace peer b
    mapKey := update s'.mapKey b (some peer) }

/-- Channel `i` takes a datagram in its turn. -/
def takesDatagram (i : ℕ) (a : ChannelAnswers) : Bool :=
  let s' := s.takeMasks i a
  !testbits (s.kind i) Ycm.client && testbits (s.kind i) Ycm.server &&
    !testbits (s.kind i) Ycm.tcp && (s'.chan i).state = .opened && s'.ready i { read := true } &&
      a.soError = some 0 && a.datagram.data ≠ []

/-- `do_dgram_accept` can get a socket for a new peer. -/
def granted (i : ℕ) (a : ChannelAnswers) : Bool :=
  ((s.takeMasks i a).newFd a.dgramSocket).toOption.isSome && a.dgramBind.isNone

/-- The record that `b` took a datagram of `peer`. -/
def deliver (i : ℕ) (peer : Endpoint) (b : Block) : Service :=
  { s with
    delivered := s.delivered ++
      [({ channel := i
          peer
          alive := b ∈ s.transports
          ctx := (s.built b).ctx
          builtFor := s.mapKey b } : Delivery)] }

end Service

section

variable (inetPton : Host → Option Ip) (i : ℕ) (a : ChannelAnswers)

/-- What a turn of channel `i` does to the service. -/
inductive ChannelTurn (s : Service) : Service → Prop
  | quiet {s' : Service} (h : Quiet inetPton i s s') : ChannelTurn s s'
  | connect {s₁ s' : Service} (h : Quiet inetPton i s s₁) (ok : Bool)
      (h' : Quiet inetPton i (s₁.establish i i a.interval ok) s') : ChannelTurn s s'
  | accept {s₁ : Service} (h : Quiet inetPton i s s₁) (fd : Fd) (hfd : s₁.fdFree fd = true)
      (hkind : testbits (s₁.kind i) Ycm.client = false) :
      ChannelTurn s
        ((s₁.newSock fd a.acceptPeer).establish i s₁.nextSock a.interval true)
  | lost {s₁ : Service} (h : Quiet inetPton i s s₁) (htakes : s.takesDatagram i a = true)
      (hfind : s₁.transportMap.find a.peer = none) (hgranted : s.granted i a = false) :
      ChannelTurn s
        { s₁ with
          delivered := s₁.delivered ++
            [({ channel := i, peer := a.peer, alive := false, ctx := i, builtFor := none } :
              Delivery)] }
  | datagram {s₁ : Service} (h : Quiet inetPton i s s₁) (htakes : s.takesDatagram i a = true)
      (b : Block) (hfind : s₁.transportMap.find a.peer = some b) :
      ChannelTurn s ((s₁.deliver i a.peer b).handleInput b a.datagram.data a.input)
  | newPeer {s₁ : Service} (h : Quiet inetPton i s s₁) (htakes : s.takesDatagram i a = true)
      (fd : Fd) (hfind : s₁.transportMap.find a.peer = none)
      (hfd : s₁.newFd a.dgramSocket = .ok fd) :
      ChannelTurn s
        (((s₁.acceptPeer i a.peer fd a).deliver i a.peer s₁.freshBlock).handleInput
          s₁.freshBlock a.datagram.data a.input)

end

/-! ## Frames -/

/-- What a turn of channel `i` leaves as it is. -/
structure Frame (i : ℕ) (s s' : Service) : Prop where
  kind : s'.kind = s.kind
  channelCount : s'.channelCount = s.channelCount
  channelOps : s'.channelOps = s.channelOps
  opens : s'.opens = s.opens
  chan : ∀ j, j ≠ i → s'.chan j = s.chan j
  phase : s'.phase = s.phase
  stopFlag : s'.stopFlag = s.stopFlag
  npoll : s'.npoll = s.npoll
  events : s'.toEvents = { s.toEvents with queue := s'.queue }
  sent : s'.sent = s.sent

/-- What a part of it leaves that makes no connection. -/
structure QuietFrame (i : ℕ) (s s' : Service) : Prop extends Frame i s s' where
  pool : s'.toPool = s.toPool
  contents : s'.toContents = s.toContents
  delivered : s'.delivered = s.delivered
  seen : s'.seen = s.seen
  fires : ∃ es, s'.queue = s.queue ++ es ∧ s'.fired = s.fired ++ es ∧
    ∀ e ∈ es, e.kind ≠ .onClose ∧ e.transport = none

section

variable {i : ℕ} {s s' s'' : Service}

theorem Frame.refl (i : ℕ) (s : Service) : Frame i s s :=
  ⟨rfl, rfl, rfl, rfl, fun _ _ => rfl, rfl, rfl, rfl, rfl, rfl⟩

theorem Frame.trans (h : Frame i s s') (h' : Frame i s' s'') : Frame i s s'' where
  kind := h'.kind.trans h.kind
  channelCount := h'.channelCount.trans h.channelCount
  channelOps := h'.channelOps.trans h.channelOps
  opens := h'.opens.trans h.opens
  chan j hj := (h'.chan j hj).trans (h.chan j hj)
  phase := h'.phase.trans h.phase
  stopFlag := h'.stopFlag.trans h.stopFlag
  npoll := h'.npoll.trans h.npoll
  events := by rw [h'.events, h.events]
  sent := h'.sent.trans h.sent

theorem QuietFrame.refl (i : ℕ) (s : Service) : QuietFrame i s s :=
  ⟨.refl i s, rfl, rfl, rfl, rfl, [], by simp⟩

theorem QuietFrame.trans (h : QuietFrame i s s') (h' : QuietFrame i s' s'') :
    QuietFrame i s s'' where
  toFrame := h.toFrame.trans h'.toFrame
  pool := h'.pool.trans h.pool
  contents := h'.contents.trans h.contents
  delivered := h'.delivered.trans h.delivered
  seen := h'.seen.trans h.seen
  fires := by
    obtain ⟨es, hq, hf, hes⟩ := h.fires
    obtain ⟨es', hq', hf', hes'⟩ := h'.fires
    refine ⟨es ++ es', by rw [hq', hq, List.append_assoc], by rw [hf', hf, List.append_assoc], ?_⟩
    intro e he
    exact (List.mem_append.1 he).elim (hes e) (hes' e)

theorem Frame.setChan (base : IoBase) : Frame i s (s.setChan i base) :=
  { Frame.refl i s with chan := fun _ hj => Function.update_of_ne hj _ _ }

theorem QuietFrame.setChan (base : IoBase) : QuietFrame i s (s.setChan i base) :=
  { QuietFrame.refl i s with toFrame := .setChan base }

/-- The steps of `do_resolve`. -/
theorem Service.doResolve_induction {inetPton : Host → Option Ip} {now : ℕ} {P : Service → Prop}
    (hrefresh : P (s.setNet i ((s.net i).refreshHost inetPton).refreshPort))
    (hstatus : ∀ t, P t → P t.updateDnsStatus)
    (hclear : ∀ t, P t → P (t.setNet i { t.net i with remoteEps := [] }))
    (hstart : ∀ t, P t → P (t.startQuery i))
    (hnone : ∀ t, P t → P (t.setChan i { t.chan i with error := Errc.noAvailableAddress })) :
    P (s.doResolve inetPton i now).1 := by
  have hquery : ∀ t : Service, P t →
      P (if (t.net i).remoteHost ≠ [] then
          if (t.chan i).error = 0 then (t.startQuery i, false) else (t, false)
        else (t.setChan i { t.chan i with error := Errc.noAvailableAddress }, false)).1 := by
    intro t ht
    split
    · split
      · exact hstart t ht
      · exact ht
    · exact hnone t ht
  unfold Service.doResolve
  dsimp only
  split
  · split
    · exact hrefresh
    · split
      · exact hstatus _ hrefresh
      · split
        · exact hstatus _ hrefresh
        · exact hquery _ (hclear _ (hstatus _ hrefresh))
  · exact hquery _ hrefresh

theorem QuietFrame.updateDnsStatus : QuietFrame i s s.updateDnsStatus := by
  unfold Service.updateDnsStatus
  split
  · exact { QuietFrame.refl i s with }
  · exact .refl i s

theorem QuietFrame.doResolve (inetPton : Host → Option Ip) (now : ℕ) :
    QuietFrame i s (s.doResolve inetPton i now).1 := by
  apply Service.doResolve_induction
  · exact { QuietFrame.refl i s with }
  · exact fun t ht => ht.trans .updateDnsStatus
  · exact fun t ht => ht.trans { QuietFrame.refl i t with }
  · exact fun t ht => (ht.trans (.setChan { t.chan i with error := EINPROGRESS })).trans
      { QuietFrame.refl i _ with }
  · exact fun t ht => ht.trans (.setChan _)

theorem Part.frame {inetPton : Host → Option Ip} (h : Part inetPton i s s') :
    QuietFrame i s s' := by
  cases h with
  | setChan base => exact .setChan base
  | resolve now => exact .doResolve inetPton now
  | fire error =>
    refine { QuietFrame.refl i s with events := rfl, fires := ⟨_, rfl, rfl, ?_⟩ }
    intro e he
    obtain rfl := List.mem_singleton.1 he
    exact ⟨nofun, rfl⟩
  | closeSock | openSock fd hfd | modEvent add remove | ask events | timers timers
  | attempt left unclosed sockPeer | note armed timeouts | take x hx =>
    exact { QuietFrame.refl i s with }

theorem Quiet.frame {inetPton : Host → Option Ip} (h : Quiet inetPton i s s') :
    QuietFrame i s s' := by
  induction h with
  | refl => exact .refl i s
  | tail _ hpart ih => exact ih.trans hpart.frame

end

namespace Service

variable {inetPton : Host → Option Ip} {i : ℕ} {a : ChannelAnswers} {s : Service}

open Relation.ReflTransGen in
theorem quiet_cleanupChannel (clearMask : Bool) :
    Quiet inetPton i s (s.cleanupChannel i clearMask) :=
  (single (.closeSock s)).tail (.setChan _ _)

open Relation.ReflTransGen in
theorem quiet_handleConnectFailed (error : Int) :
    Quiet inetPton i s (s.handleConnectFailed i error) :=
  (quiet_cleanupChannel true).tail (.fire _ error)

open Relation.ReflTransGen in
theorem quiet_takeOpen : Quiet inetPton i s (s.takeOpen i) := by
  unfold takeOpen
  split
  · exact (single (.setChan _ _)).tail (.take _ _ rfl)
  · exact refl

open Relation.ReflTransGen in
theorem quiet_doAccept : Quiet inetPton i s (s.doAccept i a) := by
  have hclean : Quiet inetPton i s (s.cleanupChannel i) := quiet_cleanupChannel true
  unfold doAccept
  dsimp only
  split
  · exact hclean
  · next fd hfd =>
    have hopen := hclean.tail (.openSock _ fd (Sockets.newFd_eq_ok hfd).2)
    split
    · exact hopen.tail (.closeSock _)
    · exact (hopen.tail (.setChan _ _)).tail (.modEvent _ _ _)

open Relation.ReflTransGen in
theorem quiet_takeMasks : Quiet inetPton i s (s.takeMasks i a) := by
  unfold takeMasks
  split
  · exact quiet_doAccept
  · split
    · exact quiet_cleanupChannel true
    · exact refl

theorem turn_startConnect {s₁ : Service} (h : Quiet inetPton i s s₁) :
    ChannelTurn inetPton i a s (s₁.startConnect i a) := by
  unfold startConnect
  dsimp only
  split
  · split
    · exact .quiet (h.trans (quiet_handleConnectFailed _))
    · exact .quiet ((((h.tail (.setChan _ _)).tail (.modEvent _ _ _)).tail (.timers _ _)).tail
        (.note _ _ s₁.timeouts))
  · exact .connect (h.tail (.modEvent _ _ _)) _ .refl

theorem turn_doConnect {s₁ : Service} (h : Quiet inetPton i s s₁) :
    ChannelTurn inetPton i a s (s₁.doConnect i a) := by
  have hclean : Quiet inetPton i s
      (if (s₁.sock i).isSome then s₁.cleanupChannel i else s₁) := by
    split
    · exact h.trans (quiet_cleanupChannel true)
    · exact h
  unfold doConnect
  dsimp only
  generalize (if (s₁.sock i).isSome then s₁.cleanupChannel i else s₁) = s₂ at hclean
  split
  · exact .quiet ((hclean.tail (.setChan _ _)).trans (quiet_handleConnectFailed _))
  · next fd hfd =>
    exact turn_startConnect
      (((hclean.tail (.setChan _ _)).tail (.openSock _ fd (Sockets.newFd_eq_ok hfd).2)).tail
        (.attempt _ _ _ _))

theorem exists_cancelTimer (s : Service) (t : TimerId) :
    ∃ timers, s.cancelTimer t = { s with toTimers := timers } := by
  unfold cancelTimer removeTimer
  split_ifs
  · exact ⟨s.toTimers, rfl⟩
  · exact ⟨_, rfl⟩
  · exact ⟨s.toTimers, rfl⟩

theorem quiet_cancelTimer (t : TimerId) : Quiet inetPton i s (s.cancelTimer t) := by
  obtain ⟨timers, heq⟩ := s.exists_cancelTimer t
  rw [heq]
  exact .single (.timers s timers)

theorem turn_doConnectCompletion {s₁ : Service} (h : Quiet inetPton i s s₁) :
    ChannelTurn inetPton i a s (s₁.doConnectCompletion i a) := by
  unfold doConnectCompletion
  dsimp only
  split
  · have hask := h.tail (.ask s₁ { read := true, write := true })
    split
    · split
      · exact .connect (hask.tail (.modEvent _ _ _)) _ (quiet_cancelTimer _)
      · exact .quiet ((hask.trans (quiet_handleConnectFailed _)).trans (quiet_cancelTimer _))
    · exact .quiet hask
  · exact .quiet h

theorem turn_advance {s₁ : Service} (h : Quiet inetPton i s s₁) :
    ChannelTurn inetPton i a s (s₁.advance inetPton i a) := by
  unfold advance
  split
  · have hres := h.tail (.resolve s₁ a.now)
    split
    · next s₂ heq =>
      rw [heq] at hres
      exact turn_doConnect hres
    · next s₂ heq =>
      rw [heq] at hres
      split
      · exact .quiet (hres.trans (quiet_handleConnectFailed _))
      · exact .quiet hres
  · exact turn_doConnectCompletion h
  · exact .quiet h

theorem takesDatagram_iff : s.takesDatagram i a = true ↔
    testbits (s.kind i) Ycm.client = false ∧ testbits (s.kind i) Ycm.server = true ∧
      testbits (s.kind i) Ycm.tcp = false ∧ ((s.takeMasks i a).chan i).state = .opened ∧
        (s.takeMasks i a).ready i { read := true } = true ∧ a.soError = some 0 ∧
          a.datagram.data ≠ [] := by
  simp only [takesDatagram, Bool.and_eq_true, Bool.not_eq_true', decide_eq_true_eq, and_assoc]

theorem granted_eq_false (h : ¬ ∃ fd, (s.takeMasks i a).newFd a.dgramSocket = .ok fd ∧
    a.dgramBind = none) : s.granted i a = false := by
  unfold granted
  cases hfd : (s.takeMasks i a).newFd a.dgramSocket with
  | error e => rfl
  | ok fd =>
    cases hbind : a.dgramBind with
    | some e => rfl
    | none => exact absurd ⟨fd, hfd, hbind⟩ h

theorem turn_acceptDatagram {s₁ : Service} (h : Quiet inetPton i s s₁)
    (htakes : s.takesDatagram i a = true)
    (hsockets : s₁.toSockets = (s.takeMasks i a).toSockets) :
    ChannelTurn inetPton i a s (s₁.acceptDatagram i a.datagram.data a) := by
  unfold acceptDatagram doDgramAccept
  cases hfind : s₁.transportMap.find a.peer with
  | some b => exact .datagram h htakes b hfind
  | none =>
    cases hfd : s₁.newFd a.dgramSocket with
    | error e =>
      refine .lost h htakes hfind (granted_eq_false ?_)
      rintro ⟨fd, hfd', -⟩
      rw [← hsockets, hfd] at hfd'
      cases hfd'
    | ok fd =>
      cases hbind : a.dgramBind with
      | some e =>
        refine .lost h htakes hfind (granted_eq_false ?_)
        rintro ⟨fd, -, hbind'⟩
        cases hbind.symm.trans hbind'
      | none => exact .newPeer h htakes fd hfind hfd

theorem turn_doAcceptCompletion (hclient : testbits (s.kind i) Ycm.client = false)
    (hserver : testbits (s.kind i) Ycm.server = true) :
    ChannelTurn inetPton i a s ((s.takeMasks i a).doAcceptCompletion i a) := by
  have h : Quiet inetPton i s (s.takeMasks i a) := quiet_takeMasks
  have hkind : (s.takeMasks i a).kind = s.kind := h.frame.kind
  unfold doAcceptCompletion
  dsimp only
  split
  · next hstate =>
    have hask := h.tail (.ask (s.takeMasks i a) { read := true })
    split
    · next hready =>
      split
      · split
        · exact .quiet hask
        · next fd hfd =>
          exact .accept hask fd (Sockets.newFd_eq_ok hfd).2 (by rw [← hclient, ← hkind]; rfl)
      · next htcp =>
        split
        · next hdata =>
          refine turn_acceptDatagram hask (takesDatagram_iff.2 ?_) rfl
          refine ⟨hclient, hserver, ?_, hstate, hready.1, hready.2, hdata⟩
          rw [← hkind]
          exact (Bool.not_eq_true _).mp htcp
        · exact .quiet hask
    · exact .quiet hask
  · exact .quiet h

/-- A turn of the loop of `process_channels`, and whether the channel stays in the list. -/
theorem channelTurn_visitChannel (inetPton : Host → Option Ip) (n i : ℕ) (a : ChannelAnswers) :
    ∃ t, ChannelTurn inetPton i a s t ∧
      s.visitChannel inetPton n i a =
        if t.finished i then { t with channelOps := t.channelOps.eraseIdx n }
        else { t with phase := .channels (n + 1) } := by
  refine ⟨_, ?_, rfl⟩
  split
  · exact turn_advance quiet_takeOpen
  · next hclient =>
    split
    · next hserver => exact turn_doAcceptCompletion (by simpa using hclient) hserver
    · exact .quiet .refl

theorem exists_channelTurn (inetPton : Host → Option Ip) (n i : ℕ) (a : ChannelAnswers) :
    ∃ t, ChannelTurn inetPton i a s t ∧
      (s.visitChannel inetPton n i a = { t with channelOps := t.channelOps.eraseIdx n } ∨
        s.visitChannel inetPton n i a = { t with phase := .channels (n + 1) }) := by
  obtain ⟨t, hturn, ht⟩ := s.channelTurn_visitChannel inetPton n i a
  refine ⟨t, hturn, ?_⟩
  rw [ht]
  split
  · exact .inl rfl
  · exact .inr rfl

/-! ## New connections -/

theorem exists_udpConnect (s : Service) (b : Block) (ok : Bool) :
    ∃ udp sockPeer,
      s.udpConnect b ok = { s with udp, sockPeer } ∧ ∀ b', b' ≠ b → udp b' = s.udp b' := by
  unfold udpConnect
  dsimp only
  generalize (if (s.udp b).peer = .unspec then
    (s.net (s.built b).ctx).remoteEps.head?.elim .unspec RemoteEp.ep else (s.udp b).peer) = peer
  split
  · exact ⟨s.udp, s.sockPeer, rfl, fun _ _ => rfl⟩
  · exact ⟨_, _, rfl, fun _ hb => Function.update_of_ne hb _ _⟩

theorem exists_configureRemote (s : Service) (b : Block) (peer : Endpoint) (ok : Bool) :
    ∃ udp sockPeer, s.configureRemote b peer ok = { s with udp, sockPeer } ∧
      ∀ b', b' ≠ b → udp b' = s.udp b' := by
  unfold configureRemote
  dsimp only
  split_ifs
  · exact ⟨s.udp, s.sockPeer, rfl, fun _ _ => rfl⟩
  · obtain ⟨udp, sockPeer, heq, hudp⟩ := exists_udpConnect
      { s with udp := update s.udp b { s.udp b with peer } } b ok
    refine ⟨udp, sockPeer, heq, fun b' hb => ?_⟩
    rw [hudp b' hb]
    exact Function.update_of_ne hb _ _
  · exact ⟨update s.udp b { s.udp b with peer }, s.sockPeer, rfl,
      fun b' hb => Function.update_of_ne hb _ _⟩

end Service

/-- What `handle_connect_succeed` does on the transport `b` before it is activated. -/
structure Prepared (i : ℕ) (b : Block) (s s' : Service) : Prop extends Frame i s s' where
  net : s'.net = s.net
  pool : s'.toPool = s.toPool
  io : s'.io = s.io
  tx : s'.tx = s.tx
  udp : ∀ b', b' ≠ b → s'.udp b' = s.udp b'
  queue : s'.queue = s.queue
  history : s'.toHistory = s.toHistory

/-- What the making of a connection on the new transport `b` does beside the pool. -/
structure Connected (i : ℕ) (b : Block) (s s' : Service) : Prop extends Frame i s s' where
  net : s'.net = s.net
  io : ∀ b', b' ≠ b → s'.io b' = s.io b'
  tx : s'.tx = update s.tx b {}
  udp : ∀ b', b' ≠ b → s'.udp b' = s.udp b'
  history : s'.toHistory = { s.toHistory with fired := s'.fired }
  fires : ∃ es, s'.queue = s.queue ++ es ∧ s'.fired = s.fired ++ es ∧
    ∀ e ∈ es, e.kind ≠ .onClose ∧ e.transport = some b ∧ e.sourceId = (s'.built b).id ∧
      e.channel = (s'.built b).ctx ∧ (s'.io b).state = .opened

/-- Only the interest in the socket `k` and the peers of the sockets differ. -/
def Tuned (k : SockId) (t t' : Sockets) : Prop :=
  ∀ P : Sockets → Prop, (∀ t add remove, P t → P (t.modEvent k add remove)) →
    (∀ t sockPeer, P t → P { t with sockPeer }) → P t → P t'

theorem Tuned.trans {k : SockId} {t t' t'' : Sockets} (h : Tuned k t t') (h' : Tuned k t' t'') :
    Tuned k t t'' :=
  fun P hmod hpeer ht => h' P hmod hpeer (h P hmod hpeer ht)

theorem TransportClass.ofKind_ne_ssl {kind : ℕ} (h : testbits kind Ycm.ssl = false) :
    TransportClass.ofKind kind ≠ .ssl := by
  unfold TransportClass.ofKind
  rw [h]
  split
  · exact nofun
  · split <;> exact nofun

section

variable {i : ℕ} {b : Block} {k : SockId} {s s' s'' : Service}

theorem Prepared.refl (i : ℕ) (b : Block) (s : Service) : Prepared i b s s :=
  ⟨.refl i s, rfl, rfl, rfl, rfl, fun _ _ => rfl, rfl, rfl⟩

theorem Prepared.trans (h : Prepared i b s s') (h' : Prepared i b s' s'') :
    Prepared i b s s'' where
  toFrame := h.toFrame.trans h'.toFrame
  net := h'.net.trans h.net
  pool := h'.pool.trans h.pool
  io := h'.io.trans h.io
  tx := h'.tx.trans h.tx
  udp b' hb := (h'.udp b' hb).trans (h.udp b' hb)
  queue := h'.queue.trans h.queue
  history := h'.history.trans h.history

theorem Prepared.configureRemote (peer : Endpoint) (ok : Bool) :
    Prepared i b s (s.configureRemote b peer ok) ∧
      Tuned k s.toSockets (s.configureRemote b peer ok).toSockets ∧
      (s.configureRemote b peer ok).chan = s.chan := by
  obtain ⟨udp, sockPeer, heq, hudp⟩ := s.exists_configureRemote b peer ok
  rw [heq]
  exact ⟨{ Prepared.refl i b s with udp := hudp }, fun _ _ hpeer h => hpeer _ _ h, rfl⟩

end

namespace Service

variable {i : ℕ} {b : Block} {s s' : Service}

/-- What `allocate_transport` builds. -/
def newBuilt (s : Service) (i : ℕ) (k : SockId) (interval : ℕ) : Built where
  ctx := i
  cls := .ofKind (s.kind i)
  kind := s.kind i
  sock := k
  gen := s.gen k
  interval := interval

@[simp] theorem toPool_allocateTransport (k : SockId) (interval : ℕ) :
    (s.allocateTransport i k interval).toPool = s.toPool.allocate (s.newBuilt i k interval) := rfl

/-- `handle_connect_succeed` prepares the transport and activates it. -/
theorem exists_handleConnectSucceed (hctx : (s.built b).ctx = i) (ok : Bool) :
    ∃ s', Prepared i b s s' ∧ Tuned (s.built b).sock s.toSockets s'.toSockets ∧
      (s'.chan i).state =
        (if testbits (s.kind i) Ycm.client then .opened else (s.chan i).state) ∧
      s.handleConnectSucceed b ok = s'.activeTransport b := by
  have hchan : ∀ base, Prepared i b s (s.setChan i base) := fun base =>
    { Prepared.refl i b s with toFrame := .setChan base }
  have hself : ∀ base, ((s.setChan i base).chan i).state = base.state := fun base =>
    congrArg IoBase.state (Function.update_self _ _ _)
  unfold handleConnectSucceed
  rw [hctx]
  dsimp only
  cases testbits (s.kind i) Ycm.client with
  | false =>
    refine ⟨_, ?_, ?_, ?_, rfl⟩
    · exact (hchan _).trans { Prepared.refl i b _ with }
    · exact fun _ hmod _ h => hmod _ _ _ h
    · exact hself _
  | true =>
    cases testbits (s.kind i) Ycm.udp with
    | false =>
      refine ⟨_, ?_, ?_, ?_, rfl⟩
      · exact hchan _
      · exact fun _ _ _ h => h
      · exact hself _
    | true =>
      let s₁ := s.setChan i { s.chan i with error := 0, state := .opened }
      obtain ⟨hremote, htuned, hstate⟩ := Prepared.configureRemote (i := i) (b := b) (s := s₁)
        (k := (s.built b).sock) ((s.net i).remoteEps.head?.elim .unspec RemoteEp.ep) ok
      refine ⟨_, (hchan _).trans hremote, htuned, ?_, rfl⟩
      rw [hstate]
      exact hself _

/-- A new transport that was prepared and is activated makes a connection. -/
theorem connected_activeTransport {k : SockId} {interval : ℕ}
    (h : Prepared i s.freshBlock (s.allocateTransport i k interval) s') :
    Connected i s.freshBlock s (s'.activeTransport s.freshBlock) where
  toFrame :=
    have halloc : Frame i s (s.allocateTransport i k interval) := { Frame.refl i s with }
    (halloc.trans h.toFrame).trans { Frame.refl i s' with events := rfl }
  net := h.net
  io b hb := (congrFun h.io b).trans (Function.update_of_ne hb _ _)
  tx := h.tx
  udp b hb := (h.udp b hb).trans (Function.update_of_ne hb _ _)
  history := by
    have hact : (s'.activeTransport s.freshBlock).toHistory =
        { s'.toHistory with fired := (s'.activeTransport s.freshBlock).fired } := rfl
    rw [hact, h.history]
    rfl
  fires := by
    refine ⟨_, congrArg (· ++ _) h.queue,
      congrArg (· ++ _) (congrArg History.fired h.history), ?_⟩
    intro e he
    have hbuilt : (s'.built s.freshBlock).ctx = i := by
      rw [h.pool, toPool_allocateTransport, Pool.built_allocate_freshBlock]
      rfl
    have hio : (s'.io s.freshBlock).state =
        if TransportClass.ofKind (s.kind i) = .ssl then .connecting else .opened := by
      rw [h.io]
      simp [allocateTransport]
    split at he
    · cases he
    · next hssl =>
      rw [hbuilt, h.kind] at hssl
      obtain rfl := List.mem_singleton.1 he
      refine ⟨nofun, rfl, rfl, rfl, hio.trans (if_neg ?_)⟩
      exact TransportClass.ofKind_ne_ssl ((Bool.not_eq_true _).mp hssl)

theorem toPool_activeTransport (h : Prepared i b s s') :
    (s'.activeTransport b).toPool = s.toPool.activate (s.kind (s.built b).ctx) b := by
  change s'.toPool.activate (s'.kind (s'.built b).ctx) b = _
  rw [h.kind, h.pool]

theorem exists_establish (k : SockId) (interval : ℕ) (ok : Bool) :
    ∃ s', Prepared i s.freshBlock (s.allocateTransport i k interval) s' ∧
      Tuned k s.toSockets s'.toSockets ∧
      (s'.chan i).state =
        (if testbits (s.kind i) Ycm.client then .opened else (s.chan i).state) ∧
      s.establish i k interval ok = s'.activeTransport s.freshBlock := by
  have hbuilt : (s.allocateTransport i k interval).built s.freshBlock =
      { s.newBuilt i k interval with id := (s.objectId + 1) % 2 ^ 32 } :=
    Pool.built_allocate_freshBlock _
  have h := exists_handleConnectSucceed (i := i) (b := s.freshBlock)
    (s := s.allocateTransport i k interval) (by rw [hbuilt]; rfl) ok
  rw [hbuilt] at h
  exact h

theorem connected_establish (k : SockId) (interval : ℕ) (ok : Bool) :
    Connected i s.freshBlock s (s.establish i k interval ok) := by
  obtain ⟨s', hs', -, -, heq⟩ := s.exists_establish (i := i) k interval ok
  rw [heq]
  exact connected_activeTransport hs'

theorem tuned_establish (k : SockId) (interval : ℕ) (ok : Bool) :
    Tuned k s.toSockets (s.establish i k interval ok).toSockets := by
  obtain ⟨s', -, htuned, -, heq⟩ := s.exists_establish (i := i) k interval ok
  rw [heq]
  exact htuned

theorem state_establish (k : SockId) (interval : ℕ) (ok : Bool) :
    ((s.establish i k interval ok).chan i).state =
      if testbits (s.kind i) Ycm.client then .opened else (s.chan i).state := by
  obtain ⟨s', -, -, hstate, heq⟩ := s.exists_establish (i := i) k interval ok
  rw [heq]
  exact hstate

theorem toPool_establish (k : SockId) (interval : ℕ) (ok : Bool) :
    (s.establish i k interval ok).toPool = s.toPool.connect (s.newBuilt i k interval) := by
  obtain ⟨s', hs', -, -, heq⟩ := s.exists_establish (i := i) k interval ok
  rw [heq, toPool_activeTransport hs', toPool_allocateTransport, Pool.built_allocate_freshBlock]
  rfl

/-- Both ways in which `do_dgram_accept` goes on activate the transport. -/
theorem exists_acceptPeer (peer : Endpoint) (fd : Fd) (a : ChannelAnswers) :
    ∃ s', Prepared i s.freshBlock
        ((s.newSock fd .unspec).allocateTransport i s.nextSock a.interval) s' ∧
      Tuned s.nextSock (s.newSock fd .unspec).toSockets s'.toSockets ∧
      (testbits (s.kind i) Ycm.client = false → (s'.chan i).state = (s.chan i).state) ∧
      s.acceptPeer i peer fd a =
        { s'.activeTransport s.freshBlock with
          transportMap := (s'.activeTransport s.freshBlock).transportMap.emplace peer s.freshBlock
          mapKey := update (s'.activeTransport s.freshBlock).mapKey s.freshBlock (some peer) } := by
  let s₁ := (s.newSock fd .unspec).allocateTransport i s.nextSock a.interval
  let s₂ := s₁.configureRemote s.freshBlock peer a.dgramConnect
  have hbuilt : s₁.built s.freshBlock =
      { (s.newSock fd .unspec).newBuilt i s.nextSock a.interval with
        id := (s.objectId + 1) % 2 ^ 32 } :=
    s.toPool.built_allocate_freshBlock _
  obtain ⟨hpeer, htuned, hchan⟩ := Prepared.configureRemote (i := i) (b := s.freshBlock)
    (k := s.nextSock) (s := s₁) peer a.dgramConnect
  have hbuilt₂ : s₂.built s.freshBlock = s₁.built s.freshBlock := by
    rw [show s₂.built = s₁.built from congrArg Pool.built hpeer.pool]
  unfold acceptPeer
  dsimp only
  split
  · exact ⟨s₂, hpeer, htuned, fun _ => by rw [hchan]; rfl, rfl⟩
  · obtain ⟨s', hs', htuned', hstate, heq⟩ := exists_handleConnectSucceed (i := i)
      (b := s.freshBlock) (s := s₂) (by rw [hbuilt₂, hbuilt]; rfl) true
    rw [hbuilt₂, hbuilt] at htuned'
    refine ⟨s', hpeer.trans hs', htuned.trans htuned', fun hclient => ?_, ?_⟩
    · rw [hstate, hpeer.kind]
      rw [show s₁.kind = s.kind from rfl, hclient, if_neg Bool.false_ne_true, hchan]
      rfl
    · rw [← heq]

theorem connected_acceptPeer (peer : Endpoint) (fd : Fd) (a : ChannelAnswers) :
    Connected i s.freshBlock s (s.acceptPeer i peer fd a) := by
  obtain ⟨s', hs', -, -, heq⟩ := s.exists_acceptPeer (i := i) peer fd a
  have h : Connected i s.freshBlock s (s'.activeTransport s.freshBlock) := by
    have hsock : Frame i s (s.newSock fd .unspec) := { Frame.refl i s with }
    have := connected_activeTransport (s := s.newSock fd .unspec) hs'
    exact { this with toFrame := hsock.trans this.toFrame }
  rw [heq]
  exact { h with toFrame := h.toFrame.trans { Frame.refl i _ with } }

theorem tuned_acceptPeer (peer : Endpoint) (fd : Fd) (a : ChannelAnswers) :
    Tuned s.nextSock (s.toSockets.newSock fd .unspec) (s.acceptPeer i peer fd a).toSockets := by
  obtain ⟨s', -, htuned, -, heq⟩ := s.exists_acceptPeer (i := i) peer fd a
  rw [heq]
  exact htuned

theorem state_acceptPeer (hclient : testbits (s.kind i) Ycm.client = false) (peer : Endpoint)
    (fd : Fd) (a : ChannelAnswers) :
    ((s.acceptPeer i peer fd a).chan i).state = (s.chan i).state := by
  obtain ⟨s', -, -, hstate, heq⟩ := s.exists_acceptPeer (i := i) peer fd a
  rw [heq]
  exact hstate hclient

theorem toPool_acceptPeer (peer : Endpoint) (fd : Fd) (a : ChannelAnswers) :
    (s.acceptPeer i peer fd a).toPool =
      (s.toPool.connect ((s.newSock fd .unspec).newBuilt i s.nextSock a.interval)).register peer
        s.freshBlock := by
  obtain ⟨s', hs', -, -, heq⟩ := s.exists_acceptPeer (i := i) peer fd a
  have hpool : (s'.activeTransport s.freshBlock).toPool =
      s.toPool.connect ((s.newSock fd .unspec).newBuilt i s.nextSock a.interval) := by
    rw [toPool_activeTransport hs', toPool_allocateTransport]
    have hbuilt := s.toPool.built_allocate_freshBlock
      ((s.newSock fd .unspec).newBuilt i s.nextSock a.interval)
    rw [show (s.newSock fd .unspec).toPool = s.toPool from rfl, hbuilt]
    rfl
  rw [heq, ← hpool]
  rfl

end Service

theorem Connected.delivered {i : ℕ} {b : Block} {s s' : Service} (h : Connected i b s s') :
    s'.delivered = s.delivered := by
  rw [show s'.delivered = s'.toHistory.delivered from rfl, h.history]

/-! ## Datagrams -/

/-- What the taking of a datagram by the transport `b` does beside the record. -/
structure Received (i : ℕ) (b : Block) (s s' : Service) : Prop extends Frame i s s' where
  net : s'.net = s.net
  pool : s'.toPool = s.toPool
  sockets : s'.toSockets = s.toSockets
  io : ∀ b', (s'.io b').state = (s.io b').state
  tx : s'.tx = s.tx
  udp : s'.udp = s.udp
  history : s'.toHistory = { s.toHistory with fired := s'.fired, seen := s'.seen }
  fires : ∃ es, s'.queue = s.queue ++ es ∧ s'.fired = s.fired ++ es ∧
    ∀ e ∈ es, e.kind = .onPacket ∧ e.transport = some b ∧ e.sourceId = (s.built b).id
  seen : ∃ xs, s'.seen = s.seen ++ xs ∧
    ∀ x ∈ xs, x.direct = true ∧ x.event.kind = .onPacket ∧ x.event.transport = some b

namespace Service

variable {i : ℕ} {s : Service}

theorem received_refl (b : Block) : Received i b s s where
  toFrame := .refl i s
  net := rfl
  pool := rfl
  sockets := rfl
  io _ := rfl
  tx := rfl
  udp := rfl
  history := rfl
  fires := ⟨[], by simp⟩
  seen := ⟨[], by simp⟩

theorem received_handleInput (b : Block) (data : List UInt8) (error : Option ℕ) :
    Received i b s (s.handleInput b data error) := by
  unfold handleInput
  split
  · split
    · exact { received_refl (i := i) (s := s) b with
        toFrame := { Frame.refl i s with }
        io := fun b' => by
          by_cases hb : b' = b
          · subst hb
            simp [setIo]
          · simp [setIo, hb] }
    · exact received_refl b
  · split
    · refine { received_refl (i := i) (s := s) b with
        toFrame := { Frame.refl i s with }
        history := rfl
        seen := ⟨_, rfl, ?_⟩ }
      intro x hx
      obtain rfl := List.mem_singleton.1 hx
      exact ⟨rfl, rfl, rfl⟩
    · refine { received_refl (i := i) (s := s) b with
        toFrame := { Frame.refl i s with events := rfl }
        history := rfl
        fires := ⟨_, rfl, rfl, ?_⟩ }
      intro e he
      obtain rfl := List.mem_singleton.1 he
      exact ⟨rfl, rfl, rfl⟩

end Service

theorem Received.delivered {i : ℕ} {b : Block} {s s' : Service} (h : Received i b s s') :
    s'.delivered = s.delivered := by
  rw [show s'.delivered = s'.toHistory.delivered from rfl, h.history]

/-! ## The turn as a whole -/

section

variable {inetPton : Host → Option Ip} {i : ℕ} {a : ChannelAnswers} {s t : Service}

theorem Frame.deliver (peer : Endpoint) (b : Block) : Frame i s (s.deliver i peer b) :=
  { Frame.refl i s with }

theorem Frame.newSock (fd : Fd) (peer : Endpoint) : Frame i s (s.newSock fd peer) :=
  { Frame.refl i s with }

theorem ChannelTurn.frame (h : ChannelTurn inetPton i a s t) : Frame i s t := by
  cases h with
  | quiet h => exact h.frame.toFrame
  | connect h ok h' =>
    exact (h.frame.toFrame.trans (Service.connected_establish i a.interval ok).toFrame).trans
      h'.frame.toFrame
  | accept h fd hfd hkind =>
    exact (h.frame.toFrame.trans (.newSock fd a.acceptPeer)).trans
      (Service.connected_establish _ a.interval true).toFrame
  | lost h htakes hfind hgranted => exact h.frame.toFrame.trans { Frame.refl i _ with }
  | datagram h htakes b hfind =>
    exact (h.frame.toFrame.trans (.deliver a.peer b)).trans
      (Service.received_handleInput b _ _).toFrame
  | newPeer h htakes fd hfind hfd =>
    exact ((h.frame.toFrame.trans (Service.connected_acceptPeer a.peer fd a).toFrame).trans
      (.deliver a.peer _)).trans (Service.received_handleInput _ _ _).toFrame

/-- A channel that is not finished stays in `channel_ops_`. -/
theorem Service.channelOps_visitChannel (inetPton : Host → Option Ip) {n i : ℕ} {a : ChannelAnswers}
    (h : (s.visitChannel inetPton n i a).finished i = false) :
    (s.visitChannel inetPton n i a).channelOps = s.channelOps := by
  obtain ⟨t, hturn, ht⟩ := s.channelTurn_visitChannel inetPton n i a
  rw [ht] at h ⊢
  split
  · next hfinished =>
    rw [if_pos hfinished] at h
    cases hfinished.symm.trans h
  · exact hturn.frame.channelOps

/-- The pool after the turn: nothing new, a connection, or a connection with its peer. -/
theorem ChannelTurn.pool (h : ChannelTurn inetPton i a s t) :
    t.toPool = s.toPool ∨
      ∃ built : Built, (built.ctx = i ∧ built.kind = s.kind i ∧ built.cls = .ofKind (s.kind i)) ∧
        (t.toPool = s.toPool.connect built ∨
          s.transportMap.find a.peer = none ∧ s.takesDatagram i a = true ∧
            t.toPool = (s.toPool.connect built).register a.peer s.freshBlock) := by
  cases h with
  | quiet h => exact .inl h.frame.pool
  | @connect s₁ _ h ok h' =>
    refine .inr ⟨s₁.newBuilt i i a.interval, ⟨rfl, ?_, ?_⟩, .inl ?_⟩
    · exact congrFun h.frame.kind i
    · exact congrArg TransportClass.ofKind (congrFun h.frame.kind i)
    · rw [h'.frame.pool, Service.toPool_establish, h.frame.pool]
  | @accept s₁ h fd hfd hkind =>
    refine .inr ⟨(s₁.newSock fd a.acceptPeer).newBuilt i s₁.nextSock a.interval,
      ⟨rfl, ?_, ?_⟩, .inl ?_⟩
    · exact congrFun h.frame.kind i
    · exact congrArg TransportClass.ofKind (congrFun h.frame.kind i)
    · rw [Service.toPool_establish, ← h.frame.pool]
      rfl
  | lost h htakes hfind hgranted => exact .inl h.frame.pool
  | datagram h htakes b hfind =>
    left
    rw [(Service.received_handleInput (i := i) b _ _).pool, ← h.frame.pool]
    rfl
  | @newPeer s₁ h htakes fd hfind hfd =>
    refine .inr ⟨(s₁.newSock fd .unspec).newBuilt i s₁.nextSock a.interval,
      ⟨rfl, ?_, ?_⟩, .inr ⟨?_, ?_, ?_⟩⟩
    · exact congrFun h.frame.kind i
    · exact congrArg TransportClass.ofKind (congrFun h.frame.kind i)
    · rw [← hfind, ← h.frame.pool]
    · exact htakes
    · rw [(Service.received_handleInput (i := i) s₁.freshBlock _ _).pool,
        show (((s₁.acceptPeer i a.peer fd a).deliver i a.peer s₁.freshBlock).toPool) =
          (s₁.acceptPeer i a.peer fd a).toPool from rfl,
        Service.toPool_acceptPeer, h.frame.pool]

end

end Yasio
