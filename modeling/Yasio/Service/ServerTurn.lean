import Yasio.Service.ClientTurn

/-!
# The turn of a server channel

The ways in which `process_channels` advances a server channel, each with the state that it leaves.
-/

namespace Yasio

open Function (update)

section

variable (i : ℕ) (a : ChannelAnswers)

/-- What `process_channels` does about the masks of a server channel. -/
inductive MaskTurn (s : Service) : Service → Prop
  | none (hopen : (s.chan i).opOpen = false) (hclose : (s.chan i).opClose = false) : MaskTurn s s
  | closes (hopen : (s.chan i).opOpen = false) (hclose : (s.chan i).opClose = true) :
      MaskTurn s (s.cleanupChannel i)
  | noSocket (hopen : (s.chan i).opOpen = true) : MaskTurn s (s.cleanupChannel i)
  | unbound (hopen : (s.chan i).opOpen = true) (fd : Fd)
      (hfd : (s.cleanupChannel i).fdFree fd = true) :
      MaskTurn s (((s.cleanupChannel i).openSock i fd).closeSock i)
  | listens (hopen : (s.chan i).opOpen = true) (fd : Fd) (hsocket : a.socket = .ok fd)
      (hfd : (s.cleanupChannel i).fdFree fd = true) :
      MaskTurn s
        ((((s.cleanupChannel i).openSock i fd).setChan i
          { (s.cleanupChannel i).chan i with state := .opened }).modEvent i { read := true } .none)

/-- How a server channel goes on whose masks were taken. -/
inductive ServerTurn (s : Service) : Service → Prop
  | closed (hstate : (s.chan i).state ≠ .opened) : ServerTurn s s
  | unready (hready : s.ready i { read := true } = false) : ServerTurn s s
  | nothing (hready : s.ready i { read := true } = true) : ServerTurn s (s.ask i { read := true })
  | accepts (hready : s.ready i { read := true } = true) (fd : Fd) (hfd : s.fdFree fd = true) :
      ServerTurn s
        (((s.ask i { read := true }).newSock fd a.acceptPeer).establish i s.nextSock a.interval
          true)
  | lost (hready : s.ready i { read := true } = true) :
      ServerTurn s
        { s.ask i { read := true } with
          delivered := s.delivered ++
            [({ channel := i, peer := a.peer, alive := false, ctx := i, builtFor := none } :
              Delivery)] }
  | datagram (hready : s.ready i { read := true } = true) (b : Block)
      (hfind : s.transportMap.find a.peer = some b) :
      ServerTurn s
        (((s.ask i { read := true }).deliver i a.peer b).handleInput b a.datagram.data a.input)
  | newPeer (hready : s.ready i { read := true } = true)
      (hfind : s.transportMap.find a.peer = Option.none) (fd : Fd) (hfd : s.fdFree fd = true) :
      ServerTurn s
        ((((s.ask i { read := true }).acceptPeer i a.peer fd a).deliver i a.peer
          s.freshBlock).handleInput s.freshBlock a.datagram.data a.input)

end

namespace Service

variable {inetPton : Host → Option Ip} {i : ℕ} {a : ChannelAnswers} {s : Service}

theorem maskTurn_takeMasks : MaskTurn i a s (s.takeMasks i a) := by
  unfold takeMasks
  split
  · next hopen =>
    unfold doAccept
    dsimp only
    split
    · exact .noSocket hopen
    · next fd hfd =>
      obtain ⟨hsocket, hfree⟩ := Sockets.newFd_eq_ok hfd
      split
      · exact .unbound hopen fd hfree
      · exact .listens hopen fd hsocket hfree
  · next hopen =>
    have hopen' : (s.chan i).opOpen = false := by simpa using hopen
    split
    · next hclose => exact .closes hopen' hclose
    · next hclose => exact .none hopen' (by simpa using hclose)

theorem kind_maskTurn (h : MaskTurn i a s t) : t.kind = s.kind := by
  cases h <;> rfl

theorem serverTurn_doAcceptCompletion : ServerTurn i a s (s.doAcceptCompletion i a) := by
  unfold doAcceptCompletion
  dsimp only
  split
  · split
    · next hanswer =>
      have hready := hanswer.1
      split
      · split
        · exact .nothing hready
        · next fd hfd => exact .accepts hready fd (Sockets.newFd_eq_ok hfd).2
      · split
        · unfold acceptDatagram doDgramAccept
          cases hfind : (s.ask i { read := true }).transportMap.find a.peer with
          | some b => exact .datagram hready b hfind
          | none =>
            dsimp only
            cases hfd : (s.ask i { read := true }).newFd a.dgramSocket with
            | error e => exact .lost hready
            | ok fd =>
              cases hbind : a.dgramBind with
              | some e => exact .lost hready
              | none => exact .newPeer hready hfind fd (Sockets.newFd_eq_ok hfd).2
        · exact .nothing hready
    · cases hready : s.ready i { read := true } with
      | false =>
        rw [ask_of_not_ready hready]
        exact .unready hready
      | true => exact .nothing hready
  · next hstate => exact .closed hstate

/-- A turn of the loop of `process_channels` on a channel that is no client. -/
theorem exists_serverTurn (inetPton : Host → Option Ip) (n : ℕ) (a : ChannelAnswers)
    (hclient : testbits (s.kind i) Ycm.client = false) :
    ∃ t, (t = s ∨ ∃ s₁, MaskTurn i a s s₁ ∧ ServerTurn i a s₁ t) ∧
      (s.visitChannel inetPton n i a = { t with channelOps := t.channelOps.eraseIdx n } ∨
        s.visitChannel inetPton n i a = { t with phase := .channels (n + 1) }) := by
  unfold visitChannel
  dsimp only
  rw [hclient, if_neg Bool.false_ne_true]
  cases testbits (s.kind i) Ycm.server with
  | false =>
    refine ⟨s, .inl rfl, ?_⟩
    rw [if_neg Bool.false_ne_true]
    split
    · exact .inl rfl
    · exact .inr rfl
  | true =>
    rw [if_pos rfl]
    refine ⟨_, .inr ⟨_, maskTurn_takeMasks, serverTurn_doAcceptCompletion⟩, ?_⟩
    split
    · exact .inl rfl
    · exact .inr rfl

/-! ## New peers -/

/-- All that `do_dgram_accept` changes for a new peer of a server channel. -/
theorem acceptPeer_eq (hclient : testbits (s.kind i) Ycm.client = false) (peer : Endpoint)
    (fd : Fd) (a : ChannelAnswers) :
    ∃ chan udp sockPeer transportMap mapKey client,
      (chan = s.chan ∨ chan = update s.chan i (s.connectedChan i false)) ∧
        s.acceptPeer i peer fd a =
          { activeTransport
              { (s.newSock fd .unspec).allocateTransport i s.nextSock a.interval with
                chan
                udp
                toSockets :=
                  { tuneNew client s.nextSock (s.toSockets.newSock fd .unspec) with sockPeer } }
              s.freshBlock with
            transportMap
            mapKey } := by
  let s₁ := (s.newSock fd .unspec).allocateTransport i s.nextSock a.interval
  obtain ⟨udp, sockPeer, heq, -⟩ := exists_configureRemote s₁ s.freshBlock peer a.dgramConnect
  unfold acceptPeer
  dsimp only
  rw [show configureRemote ((s.newSock fd .unspec).allocateTransport i s.nextSock a.interval)
    s.freshBlock peer a.dgramConnect = { s₁ with udp, sockPeer } from heq]
  have hbuilt : s₁.built s.freshBlock =
      { (s.newSock fd .unspec).newBuilt i s.nextSock a.interval with
        id := (s.objectId + 1) % 2 ^ 32 } :=
    s.toPool.built_allocate_freshBlock _
  split
  · exact ⟨s.chan, udp, sockPeer, _, _, true, .inl rfl, rfl⟩
  · obtain ⟨udp', sockPeer', heq'⟩ := handleConnectSucceed_eq (i := i) (b := s.freshBlock)
      (s := { s₁ with udp, sockPeer }) (by rw [hbuilt]; rfl) hclient true
    rw [heq']
    dsimp only
    rw [hbuilt]
    exact ⟨_, udp', sockPeer', _, _, false, .inr rfl, rfl⟩

end Service

end Yasio
