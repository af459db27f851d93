import Yasio.Service.Answers
import Yasio.Service.Interest

/-!
# What a turn leaves to be done

The masks, queues and answers that a transport or a channel would take up in its next turn, and what
the turns of `process_transports` and `process_channels` leave of them.
-/

namespace Yasio

open Function (update)

namespace Service

variable {s t : Service} {b : Block} {i n : ℕ} {inetPton : Host → Option Ip}

/-! ## What is to be done -/

/-- The next turn of transport `b` would close it, or write what nothing keeps it from writing. -/
def Wants (s : Service) (b : Block) : Prop :=
  s.closeAsked b = true ∨ (s.tx b).sendQueue ≠ [] ∧ (s.tx b).pollout = false

/-- The next turn of channel `i` would take up a request or the answer of the resolver. -/
def Asks (s : Service) (i : ℕ) : Prop :=
  (s.chan i).opOpen = true ∨
    testbits (s.kind i) Ycm.client = false ∧ (s.chan i).opClose = true ∨
      testbits (s.kind i) Ycm.client = true ∧ (s.chan i).state = .resolving ∧
        ((s.chan i).error ≠ EINPROGRESS ∨ (s.net i).remoteEps ≠ [])

/-- There is something to do that no descriptor and no timer will tell of. -/
def Unserved (s : Service) : Prop :=
  s.stopFlag = true ∨ (∃ b ∈ s.transports, s.Wants b) ∨ ∃ i ∈ s.channelOps, s.Asks i

/-! ## The turn of a transport -/

/-- What `do_write` leaves is for the watcher to report, or for the next turn at once. -/
def Rests (s : Service) (b : Block) : Prop :=
  (s.tx b).sendQueue = [] ∨ (s.tx b).pollout = true ∨ s.waitDuration = 0

theorem rests_afterWrite (s : Service) (b : Block) (pending : List SendOp) (error : Int) :
    (s.afterWrite b pending error).Rests b := by
  unfold Rests afterWrite
  by_cases hfull : pending ≠ [] ∧ (error = EWOULDBLOCK ∨ error = EAGAIN ∨ error = ENOBUFS)
  · right
    left
    simp only [if_pos hfull, Function.update_self]
  · simp only [if_neg hfull, Function.update_self]
    by_cases hnil : pending = []
    · exact .inl hnil
    · exact .inr (.inr (if_neg hnil))

theorem waitDuration_afterWrite (hs : s.waitDuration = 0) (pending : List SendOp) (error : Int) :
    (s.afterWrite b pending error).waitDuration = 0 := by
  unfold afterWrite
  dsimp only
  split
  · split <;> exact hs
  · dsimp only
    split
    · exact hs
    · rfl

theorem waitDuration_doWrite (hs : s.waitDuration = 0) (send : RawSend) :
    (s.doWrite b send).1.waitDuration = 0 := by
  unfold doWrite
  dsimp only
  split
  · exact hs
  · split
    · exact waitDuration_afterWrite hs [] 0
    · split
      · exact hs
      · refine waitDuration_afterWrite ?_ _ _
        cases send <;> exact hs

theorem waitDuration_beforeRead (hs : s.waitDuration = 0) (a : TransportAnswers) :
    (s.beforeRead b a).waitDuration = 0 := by
  have hkcp : ∀ p : Prop, [Decidable p] → (if p then 0 else s.waitDuration) = 0 := by
    intro p _
    split
    · rfl
    · exact hs
  unfold beforeRead
  dsimp only
  split
  · cases a.handshake <;> exact hkcp _
  · unfold receiveFrom
    dsimp only
    split <;> exact hkcp _

theorem waitDuration_doRead (hs : s.waitDuration = 0) {a : TransportAnswers} {ok : Bool}
    (h : s.doRead b a = .ok (t, ok)) : t.waitDuration = 0 := by
  unfold Service.doRead at h
  dsimp only at h
  split at h
  · cases h
    exact hs
  · split at h
    · cases h
      exact waitDuration_beforeRead hs a
    have hread := waitDuration_beforeRead (b := b) hs a
    generalize s.beforeRead b a = u at h hread
    generalize Rx.doRead _ _ _ _ _ = r at h
    cases r with
    | error e => cases h
    | ok r =>
      have h : u.afterRead b r = (t, ok) := by simpa [Except.map] using h
      rw [← show (u.afterRead b r).1 = t from congrArg Prod.fst h]
      unfold afterRead
      cases r.verdict <;>
      · dsimp only [setIo, fireEvents, forwardPacket]
        split
        · rfl
        · exact hread

theorem rests_doWrite {send : RawSend} (h : s.doWrite b send = (t, true)) : t.Rests b := by
  obtain ⟨u, pending, error, -, -, -, -, rfl⟩ := exists_afterWrite h
  exact rests_afterWrite u b pending error

/-- A turn that keeps the transport leaves nothing for it to do but what asks for another turn. -/
theorem visitTransport_cases (s : Service) (n : ℕ) (b : Block) (a : TransportAnswers) :
    ∃ s', Touched b s s' ∧ (s.waitDuration = 0 → s'.waitDuration = 0) ∧
      (s.visitTransport n b a = { s' with phase := .terminated } ∨
        s.visitTransport n b a = s'.dropTransport n b a.tail ∨
          s.visitTransport n b a = { s' with phase := .transports (n + 1) } ∧
            (s'.Wants b → s'.waitDuration = 0)) := by
  have hends : ∀ {u : Service} (ok : Bool), Touched b s u →
      (s.waitDuration = 0 → u.waitDuration = 0) → (ok = true → u.Rests b) →
        ∃ s', Touched b s s' ∧ (s.waitDuration = 0 → s'.waitDuration = 0) ∧
          (u.endTransport n b a.tail ok = { s' with phase := .terminated } ∨
            u.endTransport n b a.tail ok = s'.dropTransport n b a.tail ∨
              u.endTransport n b a.tail ok = { s' with phase := .transports (n + 1) } ∧
                (s'.Wants b → s'.waitDuration = 0)) := by
    intro u ok hu hwait hrests
    unfold endTransport
    cases ok with
    | false => exact ⟨u, hu, hwait, .inr (.inl rfl)⟩
    | true =>
      rw [if_pos rfl]
      split
      · let base : IoBase :=
          { u.io b with
            error := if (u.io b).error = 0 then Errc.shutdownByLocalhost else (u.io b).error }
        have hset : Settled b u (u.setIo b base) := .setIo rfl
        exact ⟨u.setIo b base, hu.trans hset.toTouched, hwait, .inr (.inl rfl)⟩
      · next hasked =>
        refine ⟨u, hu, hwait, .inr (.inr ⟨rfl, ?_⟩)⟩
        rintro (hclose | ⟨hqueue, hpollout⟩)
        · exact absurd hclose hasked
        · rcases hrests rfl with h | h | h
          · exact absurd h hqueue
          · cases hpollout.symm.trans h
          · exact h
  unfold visitTransport
  match hread : s.doRead b a with
  | .error e =>
    exact ⟨_, touched_beforeRead a, fun hs => waitDuration_beforeRead hs a, .inl rfl⟩
  | .ok (u, false) =>
    have hu := (touched_atRead (b := b) a).trans (settled_doRead hread).toTouched
    exact hends false hu (fun hs => waitDuration_doRead hs hread) nofun
  | .ok (u, true) =>
    have hu := ((touched_atRead (b := b) a).trans (settled_doRead hread).toTouched).trans
      (settled_doWrite (b := b) a.send).toTouched
    refine hends _ hu (fun hs => waitDuration_doWrite (waitDuration_doRead hs hread) a.send) ?_
    exact fun hok => rests_doWrite (Prod.ext rfl hok)

/-- Closing a transport asks for nothing. -/
theorem masks_dropTransport (s : Service) (n : ℕ) (b : Block) (tail i : ℕ) :
    (((s.dropTransport n b tail).chan i).opOpen = true → (s.chan i).opOpen = true) ∧
      (((s.dropTransport n b tail).chan i).opClose = true → (s.chan i).opClose = true) := by
  unfold dropTransport handleClose
  dsimp only
  split
  · by_cases hi : i = (s.built b).ctx
    · subst hi
      simp [cleanupChannel, cleanupTransport, setChan, setIo, closeSock, fireEvents,
        IoBase.cleanup]
    · simp [cleanupChannel, cleanupTransport, setChan, setIo, closeSock, fireEvents, hi]
  · exact ⟨id, id⟩

theorem io_dropTransport (s : Service) (n tail : ℕ) {b c : Block} (hc : c ≠ b) :
    (s.dropTransport n b tail).io c = s.io c ∧ (s.dropTransport n b tail).tx c = s.tx c := by
  unfold dropTransport handleClose
  dsimp only
  split
  · exact ⟨Function.update_of_ne hc _ _, Function.update_of_ne hc _ _⟩
  · exact ⟨Function.update_of_ne hc _ _, Function.update_of_ne hc _ _⟩

theorem loop_dropTransport (s : Service) (n : ℕ) (b : Block) (tail : ℕ) :
    (s.dropTransport n b tail).toLoop = s.toLoop := by
  obtain ⟨chan, io, sockets, heq, -⟩ := s.exists_dropTransport n b tail
  rw [heq]
  rfl

/-! ## What the turn of a channel leaves -/

/-- What no part of the turn of channel `i` does. -/
structure Calm (i : ℕ) (s t : Service) : Prop where
  waitDuration : t.waitDuration = s.waitDuration
  opOpen : ∀ b, (t.io b).opOpen = true →
    (s.io b).opOpen = true ∧ (b = s.freshBlock → t.toPool = s.toPool)
  remoteEps : ∀ j, j ≠ i → (t.net j).remoteEps = (s.net j).remoteEps

theorem Calm.refl (i : ℕ) (s : Service) : Calm i s s :=
  ⟨rfl, fun _ h => ⟨h, fun _ => rfl⟩, fun _ _ => rfl⟩

theorem Calm.trans {u : Service} (h : Calm i s t) (h' : Calm i t u) : Calm i s u where
  waitDuration := h'.waitDuration.trans h.waitDuration
  opOpen b hb := by
    obtain ⟨hb, hpool'⟩ := h'.opOpen b hb
    obtain ⟨hb, hpool⟩ := h.opOpen b hb
    refine ⟨hb, fun hfresh => ?_⟩
    have hsame := hpool hfresh
    exact (hpool' (hfresh.trans (congrArg Pool.freshBlock hsame).symm)).trans hsame
  remoteEps j hj := (h'.remoteEps j hj).trans (h.remoteEps j hj)

theorem Calm.setNet (net : Net) : Calm i s (s.setNet i net) :=
  { Calm.refl i s with
    remoteEps := fun _ hj => congrArg Net.remoteEps (Function.update_of_ne hj _ _) }

theorem Calm.doResolve (inetPton : Host → Option Ip) (i now : ℕ) (s : Service) :
    Calm i s (s.doResolve inetPton i now).1 := by
  apply Service.doResolve_induction
  · exact .setNet _
  · intro u hu
    refine hu.trans ?_
    unfold updateDnsStatus
    split
    · refine { Calm.refl i u with remoteEps := fun j _ => ?_ }
      change (if j < u.channelCount then _ else u.net j).remoteEps = _
      split <;> rfl
    · exact .refl i u
  · exact fun u hu => hu.trans (.setNet _)
  · exact fun u hu => hu.trans { Calm.refl i u with }
  · exact fun u hu => hu.trans { Calm.refl i u with }

theorem Calm.of_part (h : Part inetPton i s t) : Calm i s t := by
  cases h with
  | resolve now => exact .doResolve inetPton i now s
  | setChan base | closeSock | openSock fd hfd | modEvent add remove | fire error | ask events
  | timers timers | attempt left unclosed sockPeer | note armed timeouts | take x hx =>
    exact { Calm.refl i s with }

theorem Calm.of_quiet (h : Quiet inetPton i s t) : Calm i s t := by
  induction h with
  | refl => exact .refl i s
  | tail _ hpart ih => exact ih.trans (.of_part hpart)

theorem opOpen_allocateTransport (s : Service) (i : ℕ) (k : SockId) (interval : ℕ) (b : Block)
    (h : ((s.allocateTransport i k interval).io b).opOpen = true) :
    (s.io b).opOpen = true ∧ b ≠ s.freshBlock := by
  by_cases hb : b = s.freshBlock
  · subst hb
    rw [show (s.allocateTransport i k interval).io s.freshBlock = _ from
      Function.update_self _ _ _] at h
    cases h
  · rw [show (s.allocateTransport i k interval).io b = _ from Function.update_of_ne hb _ _] at h
    exact ⟨h, hb⟩

theorem Calm.establish (s : Service) (i : ℕ) (k : SockId) (interval : ℕ) (ok : Bool) :
    Calm i s (s.establish i k interval ok) := by
  obtain ⟨udp, sockPeer, heq⟩ := s.establish_eq (i := i) rfl k interval ok
  rw [heq]
  refine ⟨rfl, fun b hb => ?_, fun _ _ => rfl⟩
  obtain ⟨hb, hne⟩ := s.opOpen_allocateTransport i k interval b hb
  exact ⟨hb, fun hfresh => absurd hfresh hne⟩

theorem Calm.acceptPeer (hclient : testbits (s.kind i) Ycm.client = false) (peer : Endpoint)
    (fd : Fd) (a : ChannelAnswers) : Calm i s (s.acceptPeer i peer fd a) := by
  obtain ⟨chan, udp, sockPeer, transportMap, mapKey, client, -, heq⟩ :=
    acceptPeer_eq hclient peer fd a
  rw [heq]
  refine ⟨rfl, fun b hb => ?_, fun _ _ => rfl⟩
  obtain ⟨hb, hne⟩ :=
    (s.newSock fd .unspec).opOpen_allocateTransport i s.nextSock a.interval b hb
  exact ⟨hb, fun hfresh => absurd hfresh hne⟩

theorem Calm.handleInput (s : Service) (i : ℕ) (b : Block) (data : List UInt8)
    (error : Option ℕ) : Calm i s (s.handleInput b data error) := by
  unfold Service.handleInput
  split
  · split
    · refine { Calm.refl i s with opOpen := fun c hc => ⟨?_, fun _ => rfl⟩ }
      by_cases hb : c = b
      · subst hb
        rwa [show (s.setIo c _).io c = _ from Function.update_self _ _ _] at hc
      · rwa [show (s.setIo b _).io c = _ from Function.update_of_ne hb _ _] at hc
    · exact .refl i s
  · split <;> exact { Calm.refl i s with }

theorem Calm.of_channelTurn {a : ChannelAnswers} (h : ChannelTurn inetPton i a s t) :
    Calm i s t := by
  cases h with
  | quiet h => exact .of_quiet h
  | connect h ok h' =>
    exact ((Calm.of_quiet h).trans (.establish _ i i a.interval ok)).trans (.of_quiet h')
  | @accept s₁ h fd hfd hkind =>
    have hnew : Calm i s₁ (s₁.newSock fd a.acceptPeer) := { Calm.refl i s₁ with }
    exact ((Calm.of_quiet h).trans hnew).trans (.establish _ i s₁.nextSock a.interval true)
  | lost h htakes hfind hgranted => exact (Calm.of_quiet h).trans { Calm.refl i _ with }
  | @datagram s₁ h htakes b hfind =>
    have hdeliver : Calm i s₁ (s₁.deliver i a.peer b) := { Calm.refl i s₁ with }
    exact ((Calm.of_quiet h).trans hdeliver).trans (.handleInput _ i b _ _)
  | @newPeer s₁ h htakes fd hfind hfd =>
    have hclient : testbits (s₁.kind i) Ycm.client = false := by
      rw [h.frame.kind]
      exact (takesDatagram_iff.1 htakes).1
    let u := s₁.acceptPeer i a.peer fd a
    have hdeliver : Calm i u (u.deliver i a.peer s₁.freshBlock) := { Calm.refl i u with }
    exact (((Calm.of_quiet h).trans (.acceptPeer hclient a.peer fd a)).trans hdeliver).trans
      (.handleInput _ i s₁.freshBlock _ _)

/-! ### The masks -/

/-- A turn of channel `i` sets no mask of the channel. -/
def Unmasks (i : ℕ) (s t : Service) : Prop :=
  ((t.chan i).opOpen = true → (s.chan i).opOpen = true) ∧
    ((t.chan i).opClose = true → (s.chan i).opClose = true)

theorem unmasks_of_chan (h : (t.chan i).opOpen = (s.chan i).opOpen)
    (h' : (t.chan i).opClose = (s.chan i).opClose) : Unmasks i s t :=
  ⟨fun ht => h ▸ ht, fun ht => h' ▸ ht⟩

theorem Unmasks.trans {u : Service} (h : Unmasks i s t) (h' : Unmasks i t u) : Unmasks i s u :=
  ⟨fun hu => h.1 (h'.1 hu), fun hu => h.2 (h'.2 hu)⟩

theorem unmasks_cleanupChannel (s : Service) (i : ℕ) (clearMask : Bool) :
    Unmasks i s (s.cleanupChannel i clearMask) := by
  unfold Unmasks cleanupChannel setChan IoBase.cleanup
  dsimp only
  rw [Function.update_self]
  exact ⟨fun h => (Bool.and_eq_true_iff.1 h).1, fun h => (Bool.and_eq_true_iff.1 h).1⟩

theorem unmasks_setChan (base : IoBase) (h : base.opOpen = (s.chan i).opOpen)
    (h' : base.opClose = (s.chan i).opClose) : Unmasks i s (s.setChan i base) := by
  have hself : (s.setChan i base).chan i = base := Function.update_self _ _ _
  exact unmasks_of_chan ((congrArg IoBase.opOpen hself).trans h)
    ((congrArg IoBase.opClose hself).trans h')

theorem unmasks_establish (s : Service) (i : ℕ) (k : SockId) (interval : ℕ) (ok : Bool) :
    Unmasks i s (s.establish i k interval ok) := by
  have hchan : (s.establish i k interval ok).chan i = _ :=
    (congrFun (s.chan_establish rfl k interval ok) i).trans (Function.update_self _ _ _)
  exact unmasks_of_chan (hchan ▸ rfl) (hchan ▸ rfl)

theorem unmasks_unbound {s₁ : Service} (h : Resolves i s s₁) : Unmasks i s (s₁.unbound i) := by
  have hres : Unmasks i s s₁ := by
    obtain ⟨net, queries, options, error, rfl⟩ := h
    exact unmasks_setChan (s := s) { s.chan i with error } rfl rfl
  refine hres.trans ?_
  unfold unbound
  dsimp only
  split
  · exact (unmasks_cleanupChannel s₁ i true).trans (unmasks_setChan _ rfl rfl)
  · exact unmasks_setChan _ rfl rfl

theorem unmasks_clientTurn {a : ChannelAnswers} (h : ClientTurn i a s t) : Unmasks i s t := by
  have hfails : ∀ (u : Service) (error : Int), Unmasks i u (u.handleConnectFailed i error) :=
    fun u error => unmasks_cleanupChannel u i true
  cases h with
  | idle hstate | pending hstate hready => exact ⟨id, id⟩
  | waits hstate hres herror =>
    obtain ⟨net, queries, options, error, rfl⟩ := hres
    exact unmasks_setChan (s := s) { s.chan i with error } rfl rfl
  | unresolved hstate hres error =>
    obtain ⟨net, queries, options, error', rfl⟩ := hres
    refine Unmasks.trans ?_ (hfails _ error)
    exact unmasks_setChan (s := s) { s.chan i with error := error' } rfl rfl
  | noSocket hstate hres error => exact (unmasks_unbound hres).trans (hfails _ error)
  | refused hstate hres fd hfd error =>
    exact (unmasks_unbound hres).trans (unmasks_cleanupChannel _ i true)
  | @starts hstate s₁ hres fd hfd =>
    refine (unmasks_unbound hres).trans ?_
    exact unmasks_setChan (s := (s₁.unbound i).attempted i fd)
      { (s₁.unbound i).chan i with error := EINPROGRESS } rfl rfl
  | connects hstate hres fd hfd =>
    exact (unmasks_unbound hres).trans (unmasks_establish _ i i a.interval a.dgramConnect)
  | completes hstate hready =>
    let u := (s.ask i connectReady).modEvent i .none { write := true }
    obtain ⟨timers, heq⟩ := (u.establish i i a.interval a.dgramConnect).exists_cancelTimer
      (.connect i)
    rw [heq]
    exact u.unmasks_establish i i a.interval a.dgramConnect
  | fails hstate hready error =>
    obtain ⟨timers, heq⟩ :=
      ((s.ask i connectReady).handleConnectFailed i error).exists_cancelTimer (.connect i)
    rw [heq]
    exact hfails (s.ask i connectReady) error

theorem unmasks_takeOpen (s : Service) (i : ℕ) :
    Unmasks i s (s.takeOpen i) ∧ ((s.takeOpen i).chan i).opOpen = false := by
  unfold takeOpen
  split
  · have hself : (s.setChan i { s.chan i with opOpen := false, state := .resolving }).chan i =
        { s.chan i with opOpen := false, state := .resolving } := Function.update_self _ _ _
    refine ⟨⟨fun h => ?_, fun h => ?_⟩, congrArg IoBase.opOpen hself⟩
    · cases (congrArg IoBase.opOpen hself).symm.trans h
    · exact (congrArg IoBase.opClose hself).symm.trans h
  · next hopen => exact ⟨⟨id, id⟩, by simpa using hopen⟩

/-- No mask of a server channel is left once `process_channels` has taken the masks. -/
theorem unmasked_maskTurn {a : ChannelAnswers} (h : MaskTurn i a s t) :
    (t.chan i).opOpen = false ∧ (t.chan i).opClose = false := by
  have hclean : (s.cleanupChannel i).chan i = (s.chan i).cleanup true :=
    Function.update_self _ _ _
  have hmasks : ((s.chan i).cleanup true).opOpen = false ∧
      ((s.chan i).cleanup true).opClose = false := ⟨Bool.and_false _, Bool.and_false _⟩
  cases h with
  | none hopen hclose => exact ⟨hopen, hclose⟩
  | closes hopen hclose | noSocket hopen => exact hclean ▸ hmasks
  | unbound hopen fd hfd => exact hclean ▸ hmasks
  | listens hopen fd hsocket hfd =>
    let base : IoBase := { (s.cleanupChannel i).chan i with state := .opened }
    have hself : (update (s.cleanupChannel i).chan i base) i = base := Function.update_self _ _ _
    rw [← hclean] at hmasks
    exact ⟨(congrArg IoBase.opOpen hself).trans hmasks.1,
      (congrArg IoBase.opClose hself).trans hmasks.2⟩

theorem unmasks_serverTurn {a : ChannelAnswers} (hclient : testbits (s.kind i) Ycm.client = false)
    (h : ServerTurn i a s t) : Unmasks i s t := by
  have hinput : ∀ (u : Service) (b : Block) data error,
      (u.handleInput b data error).chan = u.chan := by
    intro u b data error
    unfold handleInput
    split
    · split <;> rfl
    · split <;> rfl
  cases h with
  | closed hstate | unready hready | nothing hready | lost hready => exact ⟨id, id⟩
  | accepts hready fd hfd => exact unmasks_establish _ i s.nextSock a.interval true
  | datagram hready b hfind =>
    have hchan := congrFun (hinput ((s.ask i { read := true }).deliver i a.peer b) b
      a.datagram.data a.input) i
    exact unmasks_of_chan (hchan ▸ rfl) (hchan ▸ rfl)
  | newPeer hready hfind fd hfd =>
    let u := s.ask i { read := true }
    obtain ⟨chan, udp, sockPeer, transportMap, mapKey, client, hchan, heq⟩ :=
      acceptPeer_eq (s := u) hclient a.peer fd a
    have hself : (u.acceptPeer i a.peer fd a).chan = chan := by rw [heq]; rfl
    have hall := congrFun (hinput ((u.acceptPeer i a.peer fd a).deliver i a.peer s.freshBlock)
      s.freshBlock a.datagram.data a.input) i
    have hall : _ = chan i := hall.trans (congrFun hself i)
    rcases hchan with rfl | rfl
    · exact unmasks_of_chan (congrArg IoBase.opOpen hall) (congrArg IoBase.opClose hall)
    · rw [Function.update_self] at hall
      have hopen : (u.connectedChan i false).opOpen = (s.chan i).opOpen := rfl
      have hclose : (u.connectedChan i false).opClose = (s.chan i).opClose := rfl
      exact unmasks_of_chan ((congrArg IoBase.opOpen hall).trans hopen)
        ((congrArg IoBase.opClose hall).trans hclose)

/-- What the turn of channel `i` leaves of its masks: nothing of a request to open it, nor, if it is
a server, of one to close it. -/
theorem masks_visitChannel (inetPton : Host → Option Ip) (s : Service) (n i : ℕ)
    (a : ChannelAnswers) :
    Unmasks i s (s.visitChannel inetPton n i a) ∧
      (testbits (s.kind i) Ycm.client = true ∨ testbits (s.kind i) Ycm.server = true →
        ((s.visitChannel inetPton n i a).chan i).opOpen = false) ∧
      (testbits (s.kind i) Ycm.client = false → testbits (s.kind i) Ycm.server = true →
        ((s.visitChannel inetPton n i a).chan i).opClose = false) := by
  have hclear : ∀ {u t : Service}, Unmasks i u t → (u.chan i).opOpen = false →
      (t.chan i).opOpen = false := by
    intro u t hmasks hopen
    cases ht : (t.chan i).opOpen with
    | false => rfl
    | true => exact (hmasks.1 ht).symm.trans hopen
  have hclear' : ∀ {u t : Service}, Unmasks i u t → (u.chan i).opClose = false →
      (t.chan i).opClose = false := by
    intro u t hmasks hclose
    cases ht : (t.chan i).opClose with
    | false => rfl
    | true => exact (hmasks.2 ht).symm.trans hclose
  cases hclient : testbits (s.kind i) Ycm.client with
  | true =>
    obtain ⟨t, hturn, ht⟩ := exists_clientTurn inetPton n a hclient
    obtain ⟨htake, hopen⟩ := s.unmasks_takeOpen i
    have hmasks := unmasks_clientTurn hturn
    rcases ht with ⟨-, ht⟩ | ⟨-, ht⟩ <;> rw [ht]
    · exact ⟨htake.trans hmasks, fun _ => hclear hmasks hopen, nofun⟩
    · exact ⟨htake.trans hmasks, fun _ => hclear hmasks hopen, nofun⟩
  | false =>
    cases hserver : testbits (s.kind i) Ycm.server with
    | false =>
      rw [visitChannel_of_no_role inetPton n a hclient hserver]
      exact ⟨⟨id, id⟩, fun h => h.elim nofun nofun, fun _ => nofun⟩
    | true =>
      let u := s.takeMasks i a
      have hmasked : MaskTurn i a s u := maskTurn_takeMasks
      obtain ⟨hopen, hclose⟩ := unmasked_maskTurn hmasked
      have hclient' : testbits (u.kind i) Ycm.client = false := by
        rw [kind_maskTurn hmasked]
        exact hclient
      have hmasks := unmasks_serverTurn hclient' (serverTurn_doAcceptCompletion (a := a))
      have htook : Unmasks i s u := by
        refine ⟨fun h => ?_, fun h => ?_⟩
        · cases hopen.symm.trans h
        · cases hclose.symm.trans h
      unfold visitChannel
      dsimp only
      rw [hclient, hserver, if_neg Bool.false_ne_true, if_pos rfl]
      split
      · exact ⟨htook.trans hmasks, fun _ => hclear hmasks hopen, fun _ _ => hclear' hmasks hclose⟩
      · exact ⟨htook.trans hmasks, fun _ => hclear hmasks hopen, fun _ _ => hclear' hmasks hclose⟩

/-! ### The resolver -/

/-- A channel that waits for the resolver has no addresses. -/
theorem remoteEps_of_doResolve {now : ℕ} (h : s.doResolve inetPton i now = (t, false)) :
    (t.net i).remoteEps = [] := by
  have hquery : ∀ {u v : Service}, (u.net i).remoteEps = [] →
      (if (u.net i).remoteHost ≠ [] then
          if (u.chan i).error = 0 then (u.startQuery i, false) else (u, false)
        else (u.setChan i { u.chan i with error := Errc.noAvailableAddress }, false)) = (v, false) →
      (v.net i).remoteEps = [] := by
    intro u v hnil hv
    split at hv
    · split at hv
      · cases hv
        exact hnil
      · cases hv
        exact hnil
    · cases hv
      exact hnil
  unfold Service.doResolve at h
  dsimp only at h
  split at h
  · split at h
    · cases h
    · split at h
      · cases h
      · split at h
        · cases h
        · refine hquery ?_ h
          simp [setNet]
  · next hnil => exact hquery (not_not.1 hnil) h

theorem state_doConnect_ne (s : Service) (i : ℕ) (a : ChannelAnswers) :
    ((s.doConnect i a).chan i).state ≠ .resolving := by
  cases hsocket : (s.unbound i).newFd a.socket with
  | error error =>
    rw [doConnect_of_error hsocket, state_handleConnectFailed]
    exact nofun
  | ok fd =>
    rw [doConnect_of_ok hsocket]
    let u := (s.unbound i).attempted i fd
    have hstate : (u.chan i).state = .connecting := s.state_unbound i
    unfold startConnect
    split
    · split
      · rw [state_handleConnectFailed]
        exact nofun
      · exact fun h => by cases ((u.state_awaitConnect i a).trans hstate).symm.trans h
    · have hopened := (u.modEvent i { read := true } .none).state_establish (i := i) i a.interval
        a.dgramConnect
      intro h
      have h := hopened.symm.trans h
      split at h
      · cases h
      · cases hstate.symm.trans h

/-- A client channel that still resolves after its turn waits for the resolver. -/
theorem resolving_advance {a : ChannelAnswers}
    (h : ((s.advance inetPton i a).chan i).state = .resolving) :
    ((s.advance inetPton i a).chan i).error = EINPROGRESS ∧
      ((s.advance inetPton i a).net i).remoteEps = [] := by
  unfold advance at h ⊢
  split at h
  · cases hres : s.doResolve inetPton i a.now with
    | mk u ok =>
      rw [hres] at h
      cases ok with
      | true => exact absurd h (u.state_doConnect_ne i a)
      | false =>
        dsimp only at h ⊢
        by_cases herror : (u.chan i).error ≠ EINPROGRESS
        · rw [if_pos herror, state_handleConnectFailed] at h
          cases h
        · rw [if_neg herror]
          exact ⟨not_not.1 herror, remoteEps_of_doResolve hres⟩
  · next hstate =>
    have hturn := clientTurn_doConnectCompletion (a := a) hstate
    exfalso
    generalize s.doConnectCompletion i a = t at hturn h
    cases hturn with
    | idle hne => exact hne.1 h
    | waits hres | unresolved hres | noSocket hres | refused hres | starts hres | connects hres =>
      cases hstate.symm.trans hres
    | pending => cases hstate.symm.trans h
    | completes _ hready =>
      let u := (s.ask i connectReady).modEvent i .none { write := true }
      obtain ⟨timers, heq⟩ := (u.establish i i a.interval a.dgramConnect).exists_cancelTimer
        (.connect i)
      rw [heq] at h
      have h := (u.state_establish i a.interval a.dgramConnect).symm.trans h
      split at h
      · cases h
      · cases hstate.symm.trans h
    | fails _ hready error =>
      obtain ⟨timers, heq⟩ :=
        ((s.ask i connectReady).handleConnectFailed i error).exists_cancelTimer (.connect i)
      rw [heq] at h
      cases (state_handleConnectFailed _ i error).symm.trans h
  · next hne _ => exact absurd h hne

/-- A channel that stays in `channel_ops_` has nothing to take up after its turn. -/
theorem not_asks_visitChannel (hs : s.channelOps.Nodup) (hi : s.channelOps[n]? = some i)
    (a : ChannelAnswers) (hmem : i ∈ (s.visitChannel inetPton n i a).channelOps) :
    ¬ (s.visitChannel inetPton n i a).Asks i := by
  obtain ⟨-, hopen, hclose⟩ := s.masks_visitChannel inetPton n i a
  have hkind : (s.visitChannel inetPton n i a).kind = s.kind := kind_visitChannel
  unfold Asks
  rw [hkind]
  cases hclient : testbits (s.kind i) Ycm.client with
  | true =>
    rintro (h | ⟨h, -⟩ | ⟨-, hstate, h⟩)
    · cases (hopen (.inl hclient)).symm.trans h
    · cases h
    · have hvisit : ∃ ops phase, s.visitChannel inetPton n i a =
          { (s.takeOpen i).advance inetPton i a with channelOps := ops, phase } := by
        unfold visitChannel
        dsimp only
        rw [if_pos hclient]
        split
        · exact ⟨_, _, rfl⟩
        · exact ⟨_, _, rfl⟩
      obtain ⟨ops, phase, heq⟩ := hvisit
      rw [heq] at hstate h
      obtain ⟨herror, hnil⟩ := resolving_advance hstate
      exact h.elim (absurd herror) (absurd hnil)
  | false =>
    cases hserver : testbits (s.kind i) Ycm.server with
    | true =>
      rintro (h | ⟨-, h⟩ | ⟨h, -⟩)
      · cases (hopen (.inr hserver)).symm.trans h
      · cases (hclose hclient hserver).symm.trans h
      · cases h
    | false =>
      rw [visitChannel_of_no_role inetPton n a hclient hserver] at hmem
      obtain ⟨m, hm, hget⟩ := List.mem_eraseIdx_iff_getElem?.1 hmem
      have hlt := (List.getElem?_eq_some_iff.1 hget).1
      exact absurd ((List.getElem?_inj hlt hs).1 (hget.trans hi.symm)) hm

end Service

end Yasio
