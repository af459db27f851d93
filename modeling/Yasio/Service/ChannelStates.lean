import Yasio.Service.SocketMoves
import Yasio.Service.Kinds
import Yasio.Service.Answers

/-!
# The states of the channels

What the state of a channel says of its socket, its transports and its place in `channel_ops_`, and
which sockets there are besides those of the channels.
-/

namespace Yasio

open Function (update)

open Sockets

namespace Service

variable {inetPton : Host → Option Ip} {s t : Service} {i : ℕ} {a : ChannelAnswers} {b : Block}

/-! ## What the state of a channel says -/

/-- A closed channel has no socket, a connecting one has the error word of its attempt, and a
connected client has a transport. -/
structure Standing (s : Service) (i : ℕ) : Prop where
  closed : (s.chan i).state = .closed → s.sock i = none
  waiting : (s.chan i).state = .connecting → (s.chan i).error = EINPROGRESS
  connected : (s.chan i).state = .opened → testbits (s.kind i) Ycm.client = true →
    ∃ b, s.Links i b

theorem Standing.of_closed (hstate : (s.chan i).state = .closed) (hsock : s.sock i = none) :
    s.Standing i := by
  refine ⟨fun _ => hsock, ?_, ?_⟩
  · rw [hstate]
    exact nofun
  · rw [hstate]
    exact nofun

/-- The state of the channel is left, and its transports stay as long as it is connected. -/
theorem Standing.of_same (h : s.Standing i) (hstate : (t.chan i).state = (s.chan i).state)
    (herror : (s.chan i).state = .connecting → (t.chan i).error = (s.chan i).error)
    (hsock : s.sock i = none → t.sock i = none)
    (hlinks : (s.chan i).state = .opened → testbits (t.kind i) Ycm.client = true →
      testbits (s.kind i) Ycm.client = true ∧ ∀ b, s.Links i b → t.Links i b) :
    t.Standing i := by
  refine ⟨?_, ?_, ?_⟩
  · rw [hstate]
    exact fun hclosed => hsock (h.closed hclosed)
  · rw [hstate]
    intro hconnecting
    rw [herror hconnecting]
    exact h.waiting hconnecting
  · rw [hstate]
    intro hopened hclient
    obtain ⟨hclient, hkeep⟩ := hlinks hopened hclient
    obtain ⟨b, hb⟩ := h.connected hopened hclient
    exact ⟨b, hkeep b hb⟩

theorem standing_handleConnectFailed (s : Service) (i : ℕ) (error : Int) :
    (s.handleConnectFailed i error).Standing i :=
  .of_closed (state_handleConnectFailed s i error) (Function.update_self _ _ _)

theorem Standing.cancelTimer (h : s.Standing i) (k : TimerId) : (s.cancelTimer k).Standing i := by
  obtain ⟨timers, heq⟩ := s.exists_cancelTimer k
  rw [heq]
  exact ⟨h.closed, h.waiting, h.connected⟩

/-- A new connection of a client. -/
theorem standing_establish (hclient : testbits (s.kind i) Ycm.client = true) (k : SockId)
    (interval : ℕ) (ok : Bool) : (s.establish i k interval ok).Standing i := by
  have hstate : ((s.establish i k interval ok).chan i).state = .opened := by
    rw [state_establish, if_pos hclient]
  refine ⟨?_, ?_, fun _ _ => ⟨s.freshBlock, ?_, ?_⟩⟩
  · rw [hstate]
    exact nofun
  · rw [hstate]
    exact nofun
  · rw [toPool_establish, Pool.transports_connect]
    exact List.mem_append_right _ (List.mem_singleton_self _)
  · rw [toPool_establish, Pool.built_connect_freshBlock]
    rfl

theorem error_awaitConnect (s : Service) (i : ℕ) (a : ChannelAnswers) :
    ((s.awaitConnect i a).chan i).error = EINPROGRESS := by
  change (update s.chan i { s.chan i with error := EINPROGRESS } i).error = _
  rw [Function.update_self]

theorem Standing.clientTurn (h : s.Standing i)
    (hclient : testbits (s.kind i) Ycm.client = true) (hturn : ClientTurn i a s t) :
    t.Standing i := by
  cases hturn with
  | idle hstate | pending hstate hready => exact h
  | waits hstate hres herror =>
    have hstate' := (gen_resolves hres).2.trans hstate
    refine ⟨?_, ?_, ?_⟩ <;> rw [hstate'] <;> exact nofun
  | unresolved hstate hres error | noSocket hstate hres error
  | refused hstate hres fd hfd error => exact standing_handleConnectFailed _ i _
  | @starts hstate s₁ hres fd hfd =>
    have hstate' : (((((s₁.unbound i).attempted i fd).awaitConnect i a).chan i)).state =
        .connecting := (state_awaitConnect _ i a).trans (state_unbound s₁ i)
    refine ⟨?_, fun _ => ?_, ?_⟩
    · rw [hstate']
      exact nofun
    · exact error_awaitConnect _ i a
    · rw [hstate']
      exact nofun
  | @connects hstate s₁ hres fd hfd =>
    apply standing_establish
    rw [show (((s₁.unbound i).attempted i fd).modEvent i { read := true } .none).kind = s.kind from
      (kind_unbound s₁ i).trans (Bare.of_resolves hres).kind]
    exact hclient
  | completes hstate hready =>
    exact (standing_establish (s := (s.ask i connectReady).modEvent i .none { write := true })
      hclient i a.interval a.dgramConnect).cancelTimer _
  | fails hstate hready error => exact (standing_handleConnectFailed _ i error).cancelTimer _

theorem Standing.maskTurn (h : s.Standing i) (hclient : testbits (s.kind i) Ycm.client = false)
    (hturn : MaskTurn i a s t) : t.Standing i := by
  have hclosed : ((s.cleanupChannel i).chan i).state = .closed := by
    simp [cleanupChannel, setChan, IoBase.cleanup]
  cases hturn with
  | none hopen hclose => exact h
  | closes hopen hclose | noSocket hopen => exact .of_closed hclosed (Function.update_self _ _ _)
  | unbound hopen fd hfd => exact .of_closed hclosed (Function.update_self _ _ _)
  | listens hopen fd hsocket hfd =>
    have hstate : (((((s.cleanupChannel i).openSock i fd).setChan i
        { (s.cleanupChannel i).chan i with state := .opened }).modEvent i { read := true }
          .none).chan i).state = .opened := by
      simp [modEvent, setChan]
    refine ⟨?_, ?_, fun _ hclient' => ?_⟩
    · rw [hstate]
      simp
    · rw [hstate]
      simp
    · cases hclient.symm.trans hclient'

theorem Standing.serverTurn (h : s.Standing i) (hclient : testbits (s.kind i) Ycm.client = false)
    (hstate : (s.chan i).state ≠ .connecting) (hturn : ServerTurn i a s t)
    (hkind : t.kind = s.kind) : t.Standing i := by
  have hsame := state_serverTurn hclient hturn
  have hopen : s.ready i { read := true } = true → (s.chan i).state ≠ .closed :=
    fun hready hclosed => sock_of_ready hready (h.closed hclosed)
  by_cases hclosed : (s.chan i).state = .closed
  · cases hturn with
    | closed hne | unready hready => exact h
    | nothing hready | accepts hready fd hfd | lost hready | datagram hready b hfind
    | newPeer hready hfind fd hfd => exact absurd hclosed (hopen hready)
  · refine ⟨?_, ?_, fun _ hclient' => ?_⟩
    · rw [hsame]
      exact fun hclosed' => absurd hclosed' hclosed
    · rw [hsame]
      exact fun hconnecting => absurd hconnecting hstate
    · rw [hkind, hclient] at hclient'
      cases hclient'

/-! ## The turn of the channel -/

theorem Standing.takeOpen (h : s.Standing i) : (s.takeOpen i).Standing i := by
  unfold Service.takeOpen
  split
  · have hstate : ((update s.chan i { s.chan i with opOpen := false, state := .resolving }) i).state
        = .resolving := by
      rw [Function.update_self]
    refine ⟨?_, ?_, ?_⟩
    · exact fun hclosed => by cases hstate.symm.trans hclosed
    · exact fun hconnecting => by cases hstate.symm.trans hconnecting
    · exact fun hopened => by cases hstate.symm.trans hopened
  · exact h

/-- Neither its place in `channel_ops_` nor the phase matters. -/
theorem Standing.of_place (h : s.Standing i) (channelOps : List ℕ) (phase : Phase) :
    ({ s with channelOps, phase } : Service).Standing i :=
  ⟨h.closed, h.waiting, h.connected⟩

theorem Standing.visitChannel (h : s.Standing i)
    (hconnecting : (s.chan i).state = .connecting → testbits (s.kind i) Ycm.client = true) (n : ℕ) :
    (s.visitChannel inetPton n i a).Standing i := by
  cases hclient : testbits (s.kind i) Ycm.client with
  | true =>
    obtain ⟨t, hturn, ht⟩ := exists_clientTurn inetPton n a hclient
    have hclient' : testbits ((s.takeOpen i).kind i) Ycm.client = true := by
      rwa [(s.takeOpen_frame i).1]
    have hstanding : t.Standing i := h.takeOpen.clientTurn hclient' hturn
    rcases ht with ⟨-, ht⟩ | ⟨-, ht⟩
    · rw [ht]
      exact hstanding.of_place _ _
    · rw [ht]
      exact hstanding.of_place _ _
  | false =>
    have hkind : (s.visitChannel inetPton n i a).kind = s.kind := kind_visitChannel
    obtain ⟨t, hturn, ht⟩ := exists_serverTurn inetPton n a hclient
    have hkind' : t.kind = s.kind := by
      rw [← hkind]
      rcases ht with ht | ht <;> rw [ht]
    have hstanding : t.Standing i := by
      rcases hturn with rfl | ⟨s₁, hmask, hserver⟩
      · exact h
      · have hkind₁ : s₁.kind = s.kind := kind_maskTurn hmask
        refine (h.maskTurn hclient hmask).serverTurn (by rwa [hkind₁]) ?_ hserver
          (hkind'.trans hkind₁.symm)
        intro hstate
        rcases state_maskTurn hmask with hsame | hsame | hsame
        · cases hclient.symm.trans (hconnecting (hsame.symm.trans hstate))
        · cases hsame.symm.trans hstate
        · cases hsame.symm.trans hstate
    rcases ht with ht | ht
    · rw [ht]
      exact hstanding.of_place _ _
    · rw [ht]
      exact hstanding.of_place _ _

/-! ## Who takes care of a channel -/

/-- `process_channels` has a client that resolves or connects and a server that listens in its
list. -/
structure Tended (s : Service) (i : ℕ) : Prop extends s.Standing i where
  working : (s.chan i).state = .resolving ∨ (s.chan i).state = .connecting →
    testbits (s.kind i) Ycm.client = true ∧ i ∈ s.channelOps
  listening : (s.chan i).state = .opened → testbits (s.kind i) Ycm.client = false →
    testbits (s.kind i) Ycm.server = true ∧ i ∈ s.channelOps

theorem Tended.of_closed (hstate : (s.chan i).state = .closed) (hsock : s.sock i = none) :
    s.Tended i := by
  refine ⟨.of_closed hstate hsock, ?_, ?_⟩
  · rw [hstate]
    exact nofun
  · rw [hstate]
    exact nofun

theorem Tended.of_same (h : s.Tended i) (hstate : (t.chan i).state = (s.chan i).state)
    (herror : (s.chan i).state = .connecting → (t.chan i).error = (s.chan i).error)
    (hkind : t.kind = s.kind) (hsock : s.sock i = none → t.sock i = none)
    (hlinks : (s.chan i).state = .opened → testbits (s.kind i) Ycm.client = true →
      ∀ b, s.Links i b → t.Links i b)
    (hops : i ∈ s.channelOps → i ∈ t.channelOps) : t.Tended i := by
  refine ⟨h.toStanding.of_same hstate herror hsock ?_, ?_, ?_⟩
  · rw [hkind]
    exact fun hopened hclient => ⟨hclient, hlinks hopened hclient⟩
  · rw [hstate, hkind]
    exact fun hworking => ⟨(h.working hworking).1, hops (h.working hworking).2⟩
  · rw [hstate, hkind]
    intro hopened hclient
    obtain ⟨hserver, hmem⟩ := h.listening hopened hclient
    exact ⟨hserver, hops hmem⟩

theorem chan_visitChannel_of_neither (inetPton : Host → Option Ip) {n : ℕ}
    (hclient : testbits (s.kind i) Ycm.client = false)
    (hserver : testbits (s.kind i) Ycm.server = false) :
    (s.visitChannel inetPton n i a).chan = s.chan := by
  unfold Service.visitChannel
  rw [hclient, hserver, if_neg Bool.false_ne_true, if_neg Bool.false_ne_true]
  dsimp only
  split <;> rfl

/-- The turn of the channel itself. -/
theorem Tended.visitChannel_self (h : s.Tended i) {n : ℕ} (hi : s.channelOps[n]? = some i) :
    (s.visitChannel inetPton n i a).Tended i := by
  have hmem : i ∈ s.channelOps := List.mem_of_getElem? hi
  have hkind : (s.visitChannel inetPton n i a).kind = s.kind := kind_visitChannel
  have hstanding : (s.visitChannel inetPton n i a).Standing i :=
    h.toStanding.visitChannel (fun hstate => (h.working (.inr hstate)).1) n
  have hstays : (s.visitChannel inetPton n i a).finished i = false →
      i ∈ (s.visitChannel inetPton n i a).channelOps := by
    intro hunfinished
    rw [channelOps_visitChannel inetPton hunfinished]
    exact hmem
  cases hclient : testbits (s.kind i) Ycm.client with
  | true =>
    refine ⟨hstanding, fun hworking => ?_, fun _ hclient' => ?_⟩
    · rw [hkind]
      refine ⟨hclient, ?_⟩
      rcases hworking with hstate | hstate
      · rw [(waits_visitChannel hclient hstate).2]
        exact hmem
      · apply hstays
        unfold finished
        rw [hkind, if_pos hclient, hstanding.waiting hstate]
        rfl
    · rw [hkind] at hclient'
      cases hclient.symm.trans hclient'
  | false =>
    have hstate := state_visitChannel inetPton hclient n a
    refine ⟨hstanding, fun hworking => ?_, fun hopened _ => ?_⟩
    · rcases hstate with hsame | hclosed | hopened
      · rw [hsame] at hworking
        cases hclient.symm.trans (h.working hworking).1
      · rw [hclosed] at hworking
        rcases hworking with hworking | hworking <;> cases hworking
      · rw [hopened] at hworking
        rcases hworking with hworking | hworking <;> cases hworking
    · rw [hkind]
      have hserver : testbits (s.kind i) Ycm.server = true := by
        cases hserver : testbits (s.kind i) Ycm.server with
        | true => rfl
        | false =>
          rw [chan_visitChannel_of_neither inetPton hclient hserver] at hopened
          cases hserver.symm.trans (h.listening hopened hclient).1
      refine ⟨hserver, hstays ?_⟩
      unfold finished
      rw [hkind, hclient, hserver, hopened]
      rfl

theorem Tended.visitChannel (h : s.Tended i) (hs : s.Placed) (hlt : i < s.channelCount) {n j : ℕ}
    (hphase : s.phase = .channels n) (hj : s.channelOps[n]? = some j) :
    (s.visitChannel inetPton n j a).Tended i := by
  by_cases hij : i = j
  · subst hij
    exact h.visitChannel_self hj
  · obtain ⟨hchan, hmem, -⟩ := places_visitChannel inetPton a hphase hj hij
    have hlt' : i < s.nextSock := hlt.trans_le hs.count
    have hjlt : j < s.nextSock := (hs.ops j (List.mem_of_getElem? hj)).trans_le hs.count
    have hspares := Moves.spares (moves_visitChannel inetPton hjlt n a) hs.sockets
      (not_or.2 ⟨hij, Nat.not_le.2 hlt'⟩) hlt'
    refine h.of_same (by rw [hchan]) (fun _ => by rw [hchan]) kind_visitChannel ?_ ?_ hmem
    · rw [hspares.sock]
      exact id
    · rintro - - b hb
      rcases joined_visitChannel (s := s) inetPton n a with ⟨hpool, -⟩ | ⟨built, -, hjoined⟩
      · exact (links_of_pool hpool b).2 hb
      · exact (hjoined.links_iff hs.sound i b).2 (.inl hb)

/-! ## The turn of a transport -/

theorem sock_closeSock_of_none {t : Sockets} {k : SockId} (h : t.sock k = none) (k' : SockId) :
    (t.closeSock k').sock k = none := by
  by_cases hk : k = k'
  · subst hk
    exact Function.update_self _ _ _
  · exact (Function.update_of_ne hk _ _).trans h

theorem sock_dropTransport_of_none (n : ℕ) (b : Block) {tail : ℕ} {k : SockId}
    (h : s.sock k = none) : (s.dropTransport n b tail).sock k = none := by
  have hclosed := sock_closeSock_of_none h (s.built b).sock
  unfold Service.dropTransport handleClose
  dsimp only
  split
  · exact sock_closeSock_of_none hclosed _
  · exact hclosed

theorem Tended.dropTransport (h : s.Tended i) {n tail : ℕ} (hb : s.transports[n]? = some b)
    (hs : s.toPool.Sound) : (s.dropTransport n b tail).Tended i := by
  by_cases hown : (s.built b).ctx = i ∧ testbits (s.kind i) Ycm.client = true
  · obtain ⟨rfl, hclient⟩ := hown
    apply Tended.of_closed
    · unfold Service.dropTransport handleClose
      dsimp only
      rw [if_pos hclient]
      simp [cleanupChannel, setChan, IoBase.cleanup]
    · unfold Service.dropTransport handleClose
      dsimp only
      rw [if_pos hclient]
      exact Function.update_self _ _ _
  · have hchan : (s.dropTransport n b tail).chan i = s.chan i := by
      unfold Service.dropTransport handleClose
      dsimp only
      split
      · next hclient =>
        have hne : i ≠ (s.built b).ctx := fun heq => hown ⟨heq.symm, heq ▸ hclient⟩
        exact (Function.update_of_ne hne _ _).trans (Function.update_of_ne hne _ _)
      · rfl
    have hframe : (s.dropTransport n b tail).kind = s.kind ∧
        (s.dropTransport n b tail).channelOps = s.channelOps := by
      obtain ⟨chan, io, sockets, heq, -⟩ := s.exists_dropTransport n b tail
      rw [heq]
      exact ⟨rfl, rfl⟩
    refine h.of_same (by rw [hchan]) (fun _ => by rw [hchan]) hframe.1
      (sock_dropTransport_of_none n b) ?_ (by rw [hframe.2]; exact id)
    rintro - hclient b' hb'
    refine (links_dropTransport hs hb).2 ⟨hb', ?_⟩
    rintro rfl
    exact hown ⟨hb'.2, hclient⟩

theorem Tended.visitTransport (h : s.Tended i) (hs : s.toPool.Sound) {n : ℕ}
    (hb : s.transports[n]? = some b) (a : TransportAnswers) :
    (s.visitTransport n b a).Tended i := by
  obtain ⟨s', hs', hend⟩ := s.exists_turnEnd (b := b) n a
  have ht : Touched b s s' := (s.touched_atRead (b := b) a).trans hs'.toTouched
  have hchan : s'.chan = s.chan := congrArg Channels.chan ht.channels
  have hpool : s'.toPool = s.toPool := ht.pool
  have h' : s'.Tended i := by
    refine h.of_same (by rw [hchan]) (fun _ => by rw [hchan])
      (congrArg Channels.kind ht.channels) (by rw [ht.sock_eq]; exact id)
      (fun _ _ b => (links_of_pool hpool b).2) ?_
    rw [show s'.channelOps = s.channelOps from congrArg Channels.channelOps ht.channels]
    exact id
  generalize s.visitTransport n b a = t at hend
  cases hend with
  | thrown | kept hasked => exact h'.of_same rfl (fun _ => rfl) rfl id (fun _ _ _ => id) id
  | dropped => exact h'.dropTransport (hpool ▸ hb) (hpool ▸ hs)

/-! ## The turn of a timer -/

theorem Tended.timerTurn (h : s.Tended i) {n : ℕ} (hturn : TimerTurn n s t) : t.Tended i := by
  cases hturn with
  | ends timers htimers | userDone m hlast | userAgain m hlast time
  | late j hlast hexpired hstate =>
    exact h.of_same rfl (fun _ => rfl) rfl id (fun _ _ _ => id) id
  | timeout j hlast hexpired hstate =>
    by_cases hij : i = j
    · subst hij
      exact .of_closed (state_handleConnectFailed _ i ETIMEDOUT) (Function.update_self _ _ _)
    · have hchan : update s.chan j ((s.chan j).cleanup true) i = s.chan i :=
        Function.update_of_ne hij _ _
      have hsock : update s.sock j none i = s.sock i := Function.update_of_ne hij _ _
      refine h.of_same (congrArg IoBase.state hchan) (fun _ => congrArg IoBase.error hchan) rfl
        (fun hnone => hsock.trans hnone) (fun _ _ _ => id) id

/-! ## The sockets that are not the channels' own -/

/-- The sockets that are no channel's own belong to live transports. -/
def Owned (s : Service) : Prop :=
  ∀ k, s.channelCount ≤ k → s.sock k ≠ none → ∃ b ∈ s.transports, (s.built b).sock = k

theorem Owned.of_same (h : s.Owned) (hsock : ∀ k, s.sock k = none → t.sock k = none)
    (hcount : t.channelCount = s.channelCount) (hpool : t.toPool = s.toPool) : t.Owned := by
  unfold Owned
  rw [hcount, hpool]
  exact fun k hk hopen => h k hk fun hnone => hopen (hsock k hnone)

theorem Owned.dropTransport (h : s.Owned) (hs : s.toPool.Sound) {n tail : ℕ}
    (hb : s.transports[n]? = some b) : (s.dropTransport n b tail).Owned := by
  have hclosed : (s.dropTransport n b tail).sock (s.built b).sock = none := by
    have hown : (s.closeSock (s.built b).sock).sock (s.built b).sock = none :=
      Function.update_self _ _ _
    unfold Service.dropTransport handleClose
    dsimp only
    split
    · exact sock_closeSock_of_none hown _
    · exact hown
  have hframe : (s.dropTransport n b tail).channelCount = s.channelCount ∧
      (s.dropTransport n b tail).built = s.built ∧
      ∀ b', b' ∈ (s.dropTransport n b tail).transports ↔ b' ∈ s.transports ∧ b' ≠ b := by
    obtain ⟨chan, io, sockets, heq, -⟩ := s.exists_dropTransport n b tail
    rw [heq]
    exact ⟨rfl, rfl, fun b' => Pool.mem_release hs hb⟩
  intro k hk hopen
  rw [hframe.1] at hk
  obtain ⟨b', hb', hsock⟩ := h k hk fun hnone => hopen (sock_dropTransport_of_none n b hnone)
  refine ⟨b', (hframe.2.2 b').2 ⟨hb', ?_⟩, by rw [hframe.2.1, hsock]⟩
  rintro rfl
  exact hopen (hsock ▸ hclosed)

theorem Owned.visitTransport (h : s.Owned) (hs : s.toPool.Sound) {n : ℕ}
    (hb : s.transports[n]? = some b) (a : TransportAnswers) : (s.visitTransport n b a).Owned := by
  obtain ⟨s', hs', hend⟩ := s.exists_turnEnd (b := b) n a
  have ht : Touched b s s' := (s.touched_atRead (b := b) a).trans hs'.toTouched
  have hpool : s'.toPool = s.toPool := ht.pool
  have h' : s'.Owned :=
    h.of_same (fun k => by rw [ht.sock_eq]; exact id)
      (congrArg Channels.channelCount ht.channels) hpool
  generalize s.visitTransport n b a = t at hend
  cases hend with
  | thrown | kept hasked => exact h'
  | dropped => exact h'.dropTransport (hpool ▸ hs) (hpool ▸ hb)

/-- A channel opens its own socket, or makes one for a new transport. -/
theorem Owned.visitChannel (h : s.Owned) (hs : s.Placed) {n : ℕ}
    (hi : s.channelOps[n]? = some i) (hord : (s.visitChannel inetPton n i a).Placed) :
    (s.visitChannel inetPton n i a).Owned := by
  have hlt : i < s.channelCount := hs.ops i (List.mem_of_getElem? hi)
  have hmoves := moves_visitChannel inetPton (hlt.trans_le hs.count) n a
  have hjoined := joined_visitChannel (s := s) (i := i) inetPton n a
  have hcount : (s.visitChannel inetPton n i a).channelCount = s.channelCount := by
    obtain ⟨t, hturn, ht⟩ := s.exists_channelTurn inetPton n i a
    rcases ht with ht | ht <;> (rw [ht]; exact hturn.frame.channelCount)
  generalize s.visitChannel inetPton n i a = t at *
  intro k hk hopen
  rw [hcount] at hk
  have hold : k < s.nextSock → ∃ b ∈ s.transports, (s.built b).sock = k := by
    intro hlt'
    have hne : k ≠ i := (hlt.trans_le hk).ne'
    have hspares := Moves.spares hmoves hs.sockets (not_or.2 ⟨hne, Nat.not_le.2 hlt'⟩) hlt'
    exact h k hk (hspares.sock ▸ hopen)
  have hnext : k < t.nextSock := Nat.lt_of_not_le fun hle => hopen (hord.sockets.unused k hle)
  rcases hjoined with ⟨hpool, heq⟩ | ⟨built, hbuilt, hjoined⟩
  · rw [hpool]
    exact hold (heq ▸ hnext)
  · have hkept : (∃ b ∈ s.transports, (s.built b).sock = k) →
        ∃ b ∈ t.transports, (t.built b).sock = k := by
      rintro ⟨b, hb, hsock⟩
      refine ⟨b, ?_, ?_⟩
      · rw [hjoined.transports]
        exact List.mem_append_left _ hb
      · rw [hjoined.other b (hs.sound.ne_freshBlock hb), hsock]
    by_cases hlt' : k < s.nextSock
    · exact hkept (hold hlt')
    · cases hclient : testbits (s.kind i) Ycm.client with
      | true =>
        rw [(hbuilt.own hclient).2] at hnext
        exact absurd hnext hlt'
      | false =>
        obtain ⟨hsock, hnew⟩ := hbuilt.new hclient
        refine ⟨s.freshBlock, ?_, ?_⟩
        · rw [hjoined.transports]
          exact List.mem_append_right _ (List.mem_singleton_self _)
        · rw [hjoined.sock, hsock]
          rw [hnew] at hnext
          exact Nat.le_antisymm (Nat.le_of_not_lt hlt') (Nat.lt_succ_iff.1 hnext)

end Service

/-! ## Any step -/

/-- `open` leaves the role of a channel that is not closed, and no failed answer of the resolver
comes for a channel that connects. -/
def Undisturbed (s : Service) : Action → Prop
  | .openKind i kind => (s.chan i).state ≠ .closed →
      testbits kind Ycm.client = testbits (s.kind i) Ycm.client ∧
        testbits kind Ycm.server = testbits (s.kind i) Ycm.server
  | .answer n (.error _) => (s.chan (s.query n).channel).state ≠ .connecting
  | _ => True

instance (s : Service) (a : Action) : Decidable (Undisturbed s a) := by
  unfold Undisturbed
  induction a using Action.casesOn
  case answer n result => induction result using Except.casesOn <;> infer_instance
  all_goals infer_instance

namespace Service

variable {inetPton : Host → Option Ip} {s t : Service} {i : ℕ} {b : Block}

theorem Tended.setKind (h : s.Tended i) {kind : ℕ → ℕ}
    (hkind : (s.chan i).state ≠ .closed →
      testbits (kind i) Ycm.client = testbits (s.kind i) Ycm.client ∧
        testbits (kind i) Ycm.server = testbits (s.kind i) Ycm.server)
    (opens : List (ℕ × OpenStage)) : ({ s with kind, opens } : Service).Tended i := by
  have hne : ∀ {state : IoState}, (s.chan i).state = state → state ≠ .closed →
      testbits (kind i) Ycm.client = testbits (s.kind i) Ycm.client ∧
        testbits (kind i) Ycm.server = testbits (s.kind i) Ycm.server :=
    fun hstate hne => hkind (hstate ▸ hne)
  refine ⟨⟨h.closed, h.waiting, fun hopened hclient => ?_⟩, fun hworking => ?_,
    fun hopened hclient => ?_⟩
  · exact h.connected hopened ((hne hopened nofun).1.symm.trans hclient)
  · obtain ⟨hclient, hmem⟩ := h.working hworking
    refine ⟨?_, hmem⟩
    rcases hworking with hstate | hstate
    · exact (hne hstate nofun).1.trans hclient
    · exact (hne hstate nofun).1.trans hclient
  · obtain ⟨hserver, hmem⟩ := h.listening hopened ((hne hopened nofun).1.symm.trans hclient)
    exact ⟨(hne hopened nofun).2.trans hserver, hmem⟩

theorem Tended.effect (h : s.Tended i) (hlt : i < s.channelCount) (hs : s.Placed) {a : Action}
    (henabled : s.enabled a = true) (hcond : Undisturbed s a) :
    (s.effect inetPton a).Tended i := by
  -- steps that leave the state of the channel, its socket, its transports and the list
  have hsame : ∀ {t : Service}, (t.chan i).state = (s.chan i).state →
      ((s.chan i).state = .connecting → (t.chan i).error = (s.chan i).error) →
      t.kind = s.kind → t.sock = s.sock → t.toPool = s.toPool → t.channelOps = s.channelOps →
      t.Tended i := by
    intro t hstate herror hkind hsock hpool hops
    refine h.of_same hstate herror hkind (by rw [hsock]; exact id)
      (fun _ _ b => (links_of_pool hpool b).2) (by rw [hops]; exact id)
  have hchan : ∀ {t : Service}, t.chan = s.chan → t.kind = s.kind → t.sock = s.sock →
      t.toPool = s.toPool → t.channelOps = s.channelOps → t.Tended i :=
    fun hchan => hsame (by rw [hchan]) (fun _ => by rw [hchan])
  cases a with
  | transport a =>
    obtain ⟨n, hn, ⟨-, heq⟩ | ⟨b, hb, heq⟩⟩ := transport_cases inetPton henabled
    · rw [heq]
      exact hchan rfl rfl rfl rfl rfl
    · rw [heq]
      exact h.visitTransport hs.sound hb a
  | channel a =>
    obtain ⟨n, hn, ⟨-, heq⟩ | ⟨j, hj, heq⟩⟩ := channel_cases inetPton henabled
    · rw [heq]
      exact hchan rfl rfl rfl rfl rfl
    · rw [heq]
      exact h.visitChannel hs hlt hn hj
  | timer again =>
    obtain ⟨n, hn, heq⟩ := timer_cases inetPton henabled
    rw [heq]
    exact h.timerTurn (exists_timerTurn n again)
  | answer n result =>
    cases result with
    | ok answer => exact hchan rfl rfl rfl rfl rfl
    | error e =>
      by_cases hi : i = (s.query n).channel
      · have hne : (s.chan i).state ≠ .connecting := hi ▸ hcond
        have hstate : ((s.storeAnswer n (.error e)).chan i).state = (s.chan i).state := by
          subst hi
          simp [storeAnswer, setChan]
        exact hsame (t := s.storeAnswer n (.error e)) hstate
          (fun hconnecting => absurd hconnecting hne) rfl rfl rfl rfl
      · have heq : (s.storeAnswer n (.error e)).chan i = s.chan i := Function.update_of_ne hi _ _
        exact hsame (t := s.storeAnswer n (.error e)) (by rw [heq]) (fun _ => by rw [heq]) rfl rfl
          rfl rfl
  | openKind j kind =>
    refine h.setKind ?_ _
    intro hstate
    by_cases hij : i = j
    · subst hij
      rw [Function.update_self]
      exact hcond hstate
    · rw [Function.update_of_ne hij]
      exact ⟨rfl, rfl⟩
  | openMask n =>
    by_cases hi : i = (s.opening n).1
    · have heq : ((s.openMask n).chan i).state = (s.chan i).state ∧
          ((s.openMask n).chan i).error = (s.chan i).error := by
        subst hi
        simp [openMask, setChan]
      exact hsame (t := s.openMask n) heq.1 (fun _ => heq.2) rfl rfl rfl rfl
    · have heq : (s.openMask n).chan i = s.chan i := Function.update_of_ne hi _ _
      exact hsame (t := s.openMask n) (by rw [heq]) (fun _ => by rw [heq]) rfl rfl rfl rfl
  | openInsert n =>
    refine h.of_same rfl (fun _ => rfl) rfl id (fun _ _ _ => id) ?_
    change i ∈ s.channelOps → i ∈ if (s.opening n).1 ∈ s.channelOps then s.channelOps
      else s.channelOps ++ [(s.opening n).1]
    intro hi
    split
    · exact hi
    · exact List.mem_append_left _ hi
  | closeChannel j =>
    by_cases hij : i = j
    · subst hij
      have heq : (s.setChan i (s.closedChan i)).chan i = s.closedChan i :=
        Function.update_self _ _ _
      refine hsame (t := s.setChan i (s.closedChan i)) ?_ (fun _ => ?_) rfl rfl rfl rfl
      · rw [heq, state_closedChan]
      · rw [heq, error_closedChan]
    · have heq : (s.setChan j (s.closedChan j)).chan i = s.chan i := Function.update_of_ne hij _ _
      exact hsame (t := s.setChan j (s.closedChan j)) (by rw [heq]) (fun _ => by rw [heq]) rfl rfl
        rfl rfl
  | udpConnect b ok =>
    obtain ⟨udp, sockPeer, heq, -⟩ := s.exists_udpConnect b ok
    dsimp only [Service.effect]
    rw [heq]
    exact hchan rfl rfl rfl rfl rfl
  | cancelTimer n =>
    obtain ⟨timers, heq⟩ := s.exists_cancelTimer (.user n)
    dsimp only [Service.effect]
    rw [heq]
    exact hchan rfl rfl rfl rfl rfl
  | stop =>
    have heq : (s.stop.chan i).state = (s.chan i).state ∧
        (s.stop.chan i).error = (s.chan i).error := by
      dsimp only [Service.stop]
      split
      · exact ⟨rfl, rfl⟩
      · exact ⟨state_closedChan s i, error_closedChan s i⟩
    exact hsame (t := s.stop) heq.1 (fun _ => heq.2) rfl rfl rfl rfl
  | join =>
    obtain ⟨events, heq, -⟩ := s.exists_join
    dsimp only [Service.effect]
    rw [heq]
    exact hchan rfl rfl rfl rfl rfl
  | finishStop =>
    have hnil := hs.transports_of_finishStop henabled
    dsimp only [Service.effect]
    rw [hs.finishStop_eq henabled]
    refine h.of_same rfl (fun _ => rfl) rfl id ?_ id
    rintro - - b ⟨hb, -⟩
    rw [hnil] at hb
    cases hb
  | _ => exact hchan rfl rfl rfl rfl rfl

theorem Owned.effect (h : s.Owned) (hs : s.Placed) {a : Action} (henabled : s.enabled a = true) :
    (s.effect inetPton a).Owned := by
  have hplaced : (s.effect inetPton a).Placed := hs.effect henabled
  have hsame : ∀ {t : Service}, t.sock = s.sock → t.channelCount = s.channelCount →
      t.toPool = s.toPool → t.Owned :=
    fun hsock => h.of_same fun k => by rw [hsock]; exact id
  cases a with
  | transport a =>
    obtain ⟨n, hn, ⟨-, heq⟩ | ⟨b, hb, heq⟩⟩ := transport_cases inetPton henabled
    · rw [heq]
      exact hsame rfl rfl rfl
    · rw [heq]
      exact h.visitTransport hs.sound hb a
  | channel a =>
    obtain ⟨n, hn, ⟨-, heq⟩ | ⟨i, hi, heq⟩⟩ := channel_cases inetPton henabled
    · rw [heq]
      exact hsame rfl rfl rfl
    · rw [heq] at hplaced ⊢
      exact h.visitChannel hs hi hplaced
  | timer again =>
    obtain ⟨n, hn, heq⟩ := timer_cases inetPton henabled
    rw [heq]
    have hturn := s.exists_timerTurn n again
    generalize s.processTimer n again = t at hturn
    cases hturn with
    | ends timers htimers | userDone m hlast | userAgain m hlast time
    | late i hlast hexpired hstate => exact hsame rfl rfl rfl
    | timeout i hlast hexpired hstate =>
      exact h.of_same (fun k hnone => sock_closeSock_of_none hnone i) rfl rfl
  | answer n result => cases result <;> exact hsame rfl rfl rfl
  | udpConnect b ok =>
    obtain ⟨udp, sockPeer, heq, -⟩ := s.exists_udpConnect b ok
    dsimp only [Service.effect]
    rw [heq]
    exact hsame rfl rfl rfl
  | cancelTimer n =>
    obtain ⟨timers, heq⟩ := s.exists_cancelTimer (.user n)
    dsimp only [Service.effect]
    rw [heq]
    exact hsame rfl rfl rfl
  | join =>
    obtain ⟨events, heq, -⟩ := s.exists_join
    dsimp only [Service.effect]
    rw [heq]
    exact hsame rfl rfl rfl
  | finishStop =>
    have hnil := hs.transports_of_finishStop henabled
    dsimp only [Service.effect]
    rw [hs.finishStop_eq henabled]
    intro k hk hopen
    obtain ⟨b, hb, -⟩ := h k hk hopen
    rw [hnil] at hb
    cases hb
  | _ => exact hsame rfl rfl rfl

/-- The invariant of the service. -/
structure Cared (s : Service) : Prop extends s.Placed, s.Kinds where
  owned : s.Owned
  tended : ∀ i < s.channelCount, s.Tended i

theorem Cared.effect (inetPton : Host → Option Ip) (h : s.Cared) {a : Action}
    (henabled : s.enabled a = true) (hkind : KindKept s a) (hcond : Undisturbed s a) :
    (s.effect inetPton a).Cared := by
  have hplaced : (s.effect inetPton a).Placed := h.toPlaced.effect henabled
  have hkinds : (s.effect inetPton a).Kinds := h.toKinds.effect henabled hkind
  refine ⟨hplaced, hkinds.fits, hkinds.pool, h.owned.effect h.toPlaced henabled, ?_⟩
  rw [channelCount_effect]
  exact fun i hi => (h.tended i hi).effect hi h.toPlaced henabled hcond

theorem cared_fresh (channelCount : ℕ) (options : Options) (uparams : ℕ → UnpackParams) :
    (Service.fresh channelCount options uparams).Cared where
  toPlaced := placed_fresh channelCount options uparams
  fits _ := show Fits 0 by decide
  pool := ⟨nofun, nofun, rfl, nofun, fun _ => rfl⟩
  owned _ _ hopen := absurd rfl hopen
  tended _ _ := .of_closed rfl rfl

end Service

end Yasio
