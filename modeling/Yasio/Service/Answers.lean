import Yasio.Service.ServerTurn
import Yasio.Service.Resolve

/-!
# The answers of the resolver

`do_resolve` learns from the error word and the addresses of a channel what the resolver thread
stored.  An answer without addresses, or one for a host that was given up for another name, leaves
both as they were while the query was under way.
-/

namespace Yasio

open Function (update)

namespace Service

variable {inetPton : Host → Option Ip} {s t : Service} {i : ℕ} {a : ChannelAnswers}

/-- The attempts of channel `i` to connect, and its `YEK_ON_OPEN` events that tell of a failure:
they name no transport. -/
def advances (s : Service) (i : ℕ) : ℕ :=
  (s.attempts.countP fun x => x.channel = i) +
    s.fired.countP fun e => e.kind = .onOpen ∧ e.channel = i ∧ e.transport = none

/-- The step takes the channel out of its resolving phase, by a connect or by a failure. -/
def MovesOn (s t : Service) (i : ℕ) : Prop :=
  (t.chan i).state ≠ .resolving ∧ s.advances i < t.advances i

instance (s t : Service) (i : ℕ) : Decidable (s.MovesOn t i) :=
  inferInstanceAs (Decidable (_ ∧ _))

/-- `do_resolve` can tell from the channel that it need not wait. -/
def Usable (inetPton : Host → Option Ip) (s : Service) (i : ℕ) : Prop :=
  (s.chan i).error ≠ EINPROGRESS ∨ (s.net i).remoteHost = [] ∨
    if (s.net i).hostDirty then inetPton (s.net i).remoteHost ≠ none
    else (s.net i).remoteEps ≠ []

instance (inetPton : Host → Option Ip) (s : Service) (i : ℕ) : Decidable (s.Usable inetPton i) := by
  unfold Usable
  infer_instance

/-! ## One turn of the channel -/

theorem advances_handleConnectFailed (s : Service) (i : ℕ) (error : Int) :
    (s.handleConnectFailed i error).advances i = s.advances i + 1 := by
  change _ + (s.fired ++ [s.channelEvent i error]).countP _ = _
  rw [List.countP_append]
  simp [advances, channelEvent, handleConnectFailed, cleanupChannel, fireEvents, setChan, closeSock,
    Nat.add_assoc]

theorem movesOn_handleConnectFailed (hmoves : s.advances i ≤ t.advances i) (error : Int) :
    s.MovesOn (t.handleConnectFailed i error) i := by
  refine ⟨?_, ?_⟩
  · rw [state_handleConnectFailed]
    exact nofun
  · rw [advances_handleConnectFailed]
    omega

theorem advances_unbound (s : Service) (i : ℕ) : (s.unbound i).advances i = s.advances i := by
  unfold unbound
  dsimp only
  split <;> rfl

theorem advances_attempted (s : Service) (i : ℕ) (fd : Fd) :
    (s.attempted i fd).advances i = s.advances i + 1 := by
  simp [advances, attempted, openSock]
  omega

theorem state_awaitConnect (s : Service) (i : ℕ) (a : ChannelAnswers) :
    ((s.awaitConnect i a).chan i).state = (s.chan i).state := by
  change (update s.chan i { s.chan i with error := EINPROGRESS } i).state = _
  rw [Function.update_self]

theorem advances_resolves (h : Resolves i s t) : t.advances i = s.advances i := by
  obtain ⟨net, queries, options, error, rfl⟩ := h
  rfl

theorem advances_establish (s : Service) (i : ℕ) (k : SockId) (interval : ℕ) (ok : Bool) :
    (s.establish i k interval ok).advances i = s.advances i := by
  have h := connected_establish (s := s) (i := i) k interval ok
  obtain ⟨es, -, hfired, hes⟩ := h.fires
  have hattempts : (s.establish i k interval ok).attempts = s.attempts := by
    rw [show (s.establish i k interval ok).attempts =
      (s.establish i k interval ok).toHistory.attempts from rfl, h.history]
  have hnone : es.countP (fun e => e.kind = .onOpen ∧ e.channel = i ∧ e.transport = none) = 0 := by
    apply List.countP_eq_zero.2
    intro e he
    simp [(hes e he).2.1]
  unfold advances
  rw [hattempts, hfired, List.countP_append, hnone, Nat.add_zero]

/-- A connect that is begun moves the channel on, whatever the calls answer. -/
theorem movesOn_doConnect (hmoves : s.advances i = t.advances i)
    (hclient : testbits (t.kind i) Ycm.client = true) : s.MovesOn (t.doConnect i a) i := by
  cases hsocket : (t.unbound i).newFd a.socket with
  | error error =>
    rw [doConnect_of_error hsocket]
    apply movesOn_handleConnectFailed
    rw [advances_unbound, hmoves]
  | ok fd =>
    have hmore : s.advances i < ((t.unbound i).attempted i fd).advances i := by
      rw [advances_attempted, advances_unbound]
      omega
    rw [doConnect_of_ok hsocket]
    unfold startConnect
    split
    · split
      · exact movesOn_handleConnectFailed hmore.le _
      · refine ⟨?_, hmore⟩
        change ((((t.unbound i).attempted i fd).awaitConnect i a).chan i).state ≠ _
        rw [state_awaitConnect]
        change ((t.unbound i).chan i).state ≠ _
        rw [state_unbound]
        decide
    · have hkind : (((t.unbound i).attempted i fd).modEvent i { read := true } .none).kind =
          t.kind := kind_unbound t i
      refine ⟨?_, ?_⟩
      · change (((((t.unbound i).attempted i fd).modEvent i { read := true } .none).establish i i
          a.interval a.dgramConnect).chan i).state ≠ _
        rw [state_establish, hkind, if_pos hclient]
        decide
      · change s.advances i <
          ((((t.unbound i).attempted i fd).modEvent i { read := true } .none).establish i i
            a.interval a.dgramConnect).advances i
        rw [advances_establish]
        exact hmore

end Service

namespace Net

theorem remoteHost_refresh (net : Net) (inetPton : Host → Option Ip) :
    (net.refreshHost inetPton).refreshPort.remoteHost = net.remoteHost := by
  unfold refreshPort refreshHost
  split_ifs <;> rfl

/-- What is left of the addresses when the dirty flags have been taken up. -/
theorem remoteEps_refresh (net : Net) (inetPton : Host → Option Ip) :
    (net.refreshHost inetPton).refreshPort.remoteEps ≠ [] ↔
      if net.hostDirty then inetPton net.remoteHost ≠ none else net.remoteEps ≠ [] := by
  have hport : ∀ net' : Net, net'.refreshPort.remoteEps ≠ [] ↔ net'.remoteEps ≠ [] := by
    intro net'
    unfold refreshPort
    split_ifs
    · simp
    · exact Iff.rfl
  rw [hport]
  unfold refreshHost
  split_ifs
  · cases inetPton net.remoteHost <;> simp
  · exact Iff.rfl

end Net

namespace Service

variable {inetPton : Host → Option Ip} {s t : Service} {i : ℕ} {a : ChannelAnswers}

theorem chan_updateDnsStatus (s : Service) : s.updateDnsStatus.chan = s.chan := by
  unfold updateDnsStatus
  split <;> rfl

/-- The channel that has an error word goes on waiting when it cannot use what was stored. -/
theorem doResolve_waits_iff (inetPton : Host → Option Ip) (herror : (s.chan i).error ≠ 0)
    (now : ℕ) :
    ((s.doResolve inetPton i now).2 = false ∧
        ((s.doResolve inetPton i now).1.chan i).error = EINPROGRESS) ↔
      ¬ s.Usable inetPton i := by
  let s₁ := s.setNet i ((s.net i).refreshHost inetPton).refreshPort
  have hnet : s₁.net i = ((s.net i).refreshHost inetPton).refreshPort := Function.update_self _ _ _
  have hhost : (s₁.net i).remoteHost = (s.net i).remoteHost := by
    rw [hnet, Net.remoteHost_refresh]
  have heps : (s₁.net i).remoteEps ≠ [] ↔
      if (s.net i).hostDirty then inetPton (s.net i).remoteHost ≠ none
      else (s.net i).remoteEps ≠ [] := by
    rw [hnet, Net.remoteEps_refresh]
  have hquery : ∀ (u : Service) (r : Service × Bool), (u.chan i).error ≠ 0 →
      r = (if (u.net i).remoteHost ≠ [] then
          if (u.chan i).error = 0 then (u.startQuery i, false) else (u, false)
        else (u.setChan i { u.chan i with error := Errc.noAvailableAddress }, false)) →
      ((r.2 = false ∧ (r.1.chan i).error = EINPROGRESS) ↔
        (u.chan i).error = EINPROGRESS ∧ (u.net i).remoteHost ≠ []) := by
    rintro u r hu rfl
    split
    · next hne => simp [hne]
    · next hnil =>
      have hno : Errc.noAvailableAddress ≠ EINPROGRESS := by decide
      simp [Service.setChan, hno, hnil]
  unfold Usable
  rw [← heps]
  unfold doResolve
  dsimp only
  split
  · next hsome =>
    refine iff_of_false ?_ (not_not.2 (.inr (.inr hsome)))
    split
    · exact nofun
    · split
      · exact nofun
      · next hprogress =>
        split
        · exact nofun
        · intro h
          have hchan : (s₁.updateDnsStatus.chan i).error ≠ 0 := by
            rw [chan_updateDnsStatus]
            exact herror
          exact hprogress ((hquery (s₁.updateDnsStatus.setNet i
            { s₁.updateDnsStatus.net i with remoteEps := [] }) _ hchan rfl).1 h).1
  · next hnone =>
    rw [hquery s₁ _ herror rfl, hhost]
    constructor
    · rintro ⟨hprogress, hne⟩ (h | h | h)
      · exact h hprogress
      · exact hne h
      · exact hnone h
    · intro h
      exact ⟨not_not.1 fun hne => h (.inl hne), fun hnil => h (.inr (.inl hnil))⟩

theorem takeOpen_frame (s : Service) (i : ℕ) :
    (s.takeOpen i).kind = s.kind ∧ (s.takeOpen i).net = s.net ∧
      ((s.takeOpen i).chan i).error = (s.chan i).error ∧
      (s.takeOpen i).advances i = s.advances i := by
  unfold takeOpen
  split
  · exact ⟨rfl, rfl, by simp [setChan], rfl⟩
  · exact ⟨rfl, rfl, rfl, rfl⟩

theorem state_takeOpen (hstate : (s.chan i).state = .resolving) :
    ((s.takeOpen i).chan i).state = .resolving := by
  unfold takeOpen
  split
  · simp [setChan]
  · exact hstate

/-- A channel with an error word is moved on exactly when it can use what was stored. -/
theorem movesOn_advance_iff (inetPton : Host → Option Ip) (a : ChannelAnswers)
    (hclient : testbits (s.kind i) Ycm.client = true)
    (hstate : (s.chan i).state = .resolving) (herror : (s.chan i).error ≠ 0) :
    s.MovesOn (s.advance inetPton i a) i ↔ s.Usable inetPton i := by
  have hwaits := doResolve_waits_iff inetPton herror a.now
  have hres := Resolves.doResolve inetPton i a.now s
  unfold advance
  rw [hstate]
  dsimp only
  match heq : s.doResolve inetPton i a.now with
  | (u, true) =>
    rw [heq] at hwaits hres
    have hkind : u.kind = s.kind := by
      obtain ⟨net, queries, options, error, rfl⟩ := hres
      rfl
    refine iff_of_true (movesOn_doConnect (advances_resolves hres).symm ?_) ?_
    · rw [hkind]
      exact hclient
    · by_contra hnot
      cases (hwaits.2 hnot).1
  | (u, false) =>
    rw [heq] at hwaits hres
    dsimp only
    split
    · next hne =>
      refine iff_of_true (movesOn_handleConnectFailed (advances_resolves hres).ge _) ?_
      by_contra hnot
      exact hne (hwaits.2 hnot).2
    · next heq' =>
      refine iff_of_false (fun h => h.1 ?_) (hwaits.1 ⟨rfl, not_not.1 heq'⟩)
      rw [(gen_resolves hres).2, hstate]

theorem movesOn_visitChannel_iff (hclient : testbits (s.kind i) Ycm.client = true)
    (hstate : (s.chan i).state = .resolving) (herror : (s.chan i).error ≠ 0) (n : ℕ) :
    s.MovesOn (s.visitChannel inetPton n i a) i ↔ s.Usable inetPton i := by
  obtain ⟨hkind, hnet, herror', hmoves⟩ := s.takeOpen_frame i
  have hadvance := movesOn_advance_iff inetPton a (s := s.takeOpen i) (i := i)
    (by rwa [hkind]) (state_takeOpen hstate) (by rwa [herror'])
  unfold Usable at hadvance ⊢
  rw [hnet, herror'] at hadvance
  rw [← hadvance]
  unfold MovesOn
  rw [hmoves]
  unfold visitChannel
  dsimp only
  rw [if_pos hclient]
  split
  · exact Iff.rfl
  · exact Iff.rfl

end Service

/-! ## What a turn leaves of the other channels -/

namespace Service

variable {inetPton : Host → Option Ip} {s t : Service} {i : ℕ} {a : ChannelAnswers} {b : Block}

theorem chan_handleInput (s : Service) (b : Block) (data : List UInt8) (error : Option ℕ) :
    (s.handleInput b data error).chan = s.chan := by
  unfold handleInput
  split
  · split <;> rfl
  · split <;> rfl

theorem state_maskTurn (h : MaskTurn i a s t) :
    (t.chan i).state = (s.chan i).state ∨ (t.chan i).state = .closed ∨
      (t.chan i).state = .opened := by
  have hclosed : ((s.cleanupChannel i).chan i).state = .closed := by
    simp [cleanupChannel, setChan, IoBase.cleanup]
  cases h with
  | none hopen hclose => exact .inl rfl
  | closes hopen hclose | noSocket hopen | unbound hopen fd hfd => exact .inr (.inl hclosed)
  | listens hopen fd hsocket hfd =>
    right; right
    simp [modEvent, setChan]

theorem state_serverTurn (hclient : testbits (s.kind i) Ycm.client = false)
    (h : ServerTurn i a s t) : (t.chan i).state = (s.chan i).state := by
  cases h with
  | closed hstate | unready hready | nothing hready | lost hready => rfl
  | accepts hready fd hfd =>
    rw [state_establish]
    exact if_neg (by simpa [newSock, ask] using hclient)
  | datagram hready b hfind =>
    rw [chan_handleInput]
    rfl
  | newPeer hready hfind fd hfd =>
    rw [chan_handleInput]
    exact state_acceptPeer (s := s.ask i { read := true }) hclient a.peer fd a

/-- A channel that is no client is closed or listens, or its state is left. -/
theorem state_visitChannel (inetPton : Host → Option Ip)
    (hclient : testbits (s.kind i) Ycm.client = false) (n : ℕ) (a : ChannelAnswers) :
    ((s.visitChannel inetPton n i a).chan i).state = (s.chan i).state ∨
      ((s.visitChannel inetPton n i a).chan i).state = .closed ∨
        ((s.visitChannel inetPton n i a).chan i).state = .opened := by
  obtain ⟨t, hturn, ht⟩ := s.exists_serverTurn inetPton n a hclient
  have hchan : (s.visitChannel inetPton n i a).chan = t.chan := by
    rcases ht with ht | ht <;> rw [ht]
  rw [hchan]
  rcases hturn with rfl | ⟨s₁, hmask, hserver⟩
  · exact .inl rfl
  · rw [state_serverTurn (by rwa [kind_maskTurn hmask]) hserver]
    exact state_maskTurn hmask

theorem error_clientTurn (hclient : testbits (s.kind i) Ycm.client = true)
    (h : ClientTurn i a s t) (hstate : (t.chan i).state = .resolving) :
    (t.chan i).error = EINPROGRESS := by
  have hfailed : ∀ (u : Service) (error : Int),
      ((u.handleConnectFailed i error).chan i).state ≠ .resolving := by
    intro u error
    rw [state_handleConnectFailed]
    exact nofun
  have hcancel : ∀ (u : Service) (k : TimerId), (u.cancelTimer k).chan = u.chan := by
    intro u k
    obtain ⟨timers, heq⟩ := u.exists_cancelTimer k
    rw [heq]
  have hopened : ∀ u : Service, u.kind = s.kind →
      ((u.establish i i a.interval a.dgramConnect).chan i).state ≠ .resolving := by
    intro u hkind
    rw [state_establish, hkind, if_pos hclient]
    exact nofun
  cases h with
  | idle hidle => exact absurd hstate hidle.1
  | waits hres h herror => exact herror
  | unresolved hres h error | noSocket hres h error | refused hres h fd hfd error =>
    exact absurd hstate (hfailed _ _)
  | starts hres h fd hfd =>
    rw [state_awaitConnect] at hstate
    cases (state_unbound _ i).symm.trans hstate
  | connects hres h fd hfd =>
    refine absurd hstate (hopened _ ((kind_unbound _ i).trans ?_))
    obtain ⟨net, queries, options, error, rfl⟩ := h
    rfl
  | pending hconnecting hready => cases hconnecting.symm.trans hstate
  | completes hconnecting hready =>
    rw [hcancel] at hstate
    exact absurd hstate (hopened _ rfl)
  | fails hconnecting hready error =>
    rw [hcancel] at hstate
    exact absurd hstate (hfailed _ _)

/-- A client channel that stays in the resolving phase stays in `channel_ops_`. -/
theorem waits_visitChannel (hclient : testbits (s.kind i) Ycm.client = true) {n : ℕ}
    (hstate : ((s.visitChannel inetPton n i a).chan i).state = .resolving) :
    ((s.visitChannel inetPton n i a).chan i).error = EINPROGRESS ∧
      (s.visitChannel inetPton n i a).channelOps = s.channelOps := by
  obtain ⟨t, hturn, ht⟩ := exists_clientTurn inetPton n a hclient
  have hchan : (s.visitChannel inetPton n i a).chan = t.chan := by
    rcases ht with ⟨-, ht⟩ | ⟨-, ht⟩ <;> rw [ht]
  have herror : ((s.visitChannel inetPton n i a).chan i).error = EINPROGRESS := by
    rw [hchan] at hstate ⊢
    exact error_clientTurn (by rwa [(s.takeOpen_frame i).1]) hturn hstate
  refine ⟨herror, channelOps_visitChannel inetPton ?_⟩
  unfold finished
  rw [kind_visitChannel, if_pos hclient, herror]
  rfl

theorem chan_dropTransport_or (s : Service) (n : ℕ) (b : Block) (tail i : ℕ) :
    (s.dropTransport n b tail).chan i = s.chan i ∨
      ((s.dropTransport n b tail).chan i).state = .closed := by
  unfold dropTransport handleClose
  dsimp only
  split
  · by_cases hi : i = (s.built b).ctx
    · right
      simp [hi, cleanupChannel, setChan, IoBase.cleanup]
    · left
      exact (Function.update_of_ne hi _ _).trans (Function.update_of_ne hi _ _)
  · exact .inl rfl

/-- The others keep their places in `channel_ops_` when channel `i` has had its turn at `n`. -/
theorem places_visitChannel (inetPton : Host → Option Ip) (a : ChannelAnswers) {n : ℕ}
    (hphase : s.phase = .channels n) (hi : s.channelOps[n]? = some i) {j : ℕ} (hij : j ≠ i) :
    (s.visitChannel inetPton n i a).chan j = s.chan j ∧
      (j ∈ s.channelOps → j ∈ (s.visitChannel inetPton n i a).channelOps) ∧
      (j ∈ s.channelOps.drop n → ∃ m, (s.visitChannel inetPton n i a).phase = .channels m ∧
        j ∈ (s.visitChannel inetPton n i a).channelOps.drop m) := by
  obtain ⟨hn, hget⟩ := List.getElem?_eq_some_iff.1 hi
  have hdrop : j ∈ s.channelOps.drop n → j ∈ s.channelOps.drop (n + 1) := by
    rw [← List.getElem_cons_drop hn, hget]
    exact fun hj => (List.mem_cons.1 hj).resolve_left hij
  obtain ⟨t, hturn, ht⟩ := s.exists_channelTurn inetPton n i a
  have hframe := hturn.frame
  rcases ht with ht | ht <;> rw [ht]
  · refine ⟨hframe.chan j hij, ?_, fun hj => ⟨n, hframe.phase.trans hphase, ?_⟩⟩
    · change j ∈ s.channelOps → j ∈ t.channelOps.eraseIdx n
      rw [hframe.channelOps, List.mem_eraseIdx_iff_getElem?]
      intro hj
      obtain ⟨m, hm⟩ := List.mem_iff_getElem?.1 hj
      refine ⟨m, ?_, hm⟩
      rintro rfl
      exact hij (Option.some.inj (hm.symm.trans hi))
    · change j ∈ (t.channelOps.eraseIdx n).drop n
      rw [hframe.channelOps, drop_eraseIdx]
      exact hdrop hj
  · refine ⟨hframe.chan j hij, ?_, fun hj => ⟨n + 1, rfl, ?_⟩⟩
    · change j ∈ s.channelOps → j ∈ t.channelOps
      rw [hframe.channelOps]
      exact id
    · change j ∈ t.channelOps.drop (n + 1)
      rw [hframe.channelOps]
      exact hdrop hj

theorem chan_visitTransport_or (s : Service) (n : ℕ) (b : Block) (a : TransportAnswers) (i : ℕ) :
    (s.visitTransport n b a).channelOps = s.channelOps ∧
      ((s.visitTransport n b a).chan i = s.chan i ∨
        ((s.visitTransport n b a).chan i).state = .closed) := by
  obtain ⟨s', hs, hend⟩ := s.exists_turnEnd (b := b) n a
  have hchannels := ((s.touched_atRead (b := b) a).trans hs.toTouched).channels
  have hchan : s'.chan = s.chan := congrArg Channels.chan hchannels
  have hops : s'.channelOps = s.channelOps := congrArg Channels.channelOps hchannels
  generalize s.visitTransport n b a = t at hend
  cases hend with
  | thrown | kept h => exact ⟨hops, .inl (congrFun hchan i)⟩
  | dropped =>
    obtain ⟨chan, io, sockets, heq, -⟩ := s'.exists_dropTransport n b a.tail
    refine ⟨?_, hchan ▸ chan_dropTransport_or s' n b a.tail i⟩
    rw [heq]
    exact hops

theorem chan_timerTurn_or {n : ℕ} (h : TimerTurn n s t) (i : ℕ) :
    t.channelOps = s.channelOps ∧ (t.chan i = s.chan i ∨ (t.chan i).state = .closed) := by
  cases h with
  | ends timers htimers | userDone m hlast | userAgain m hlast time
  | late j hlast hexpired hstate => exact ⟨rfl, .inl rfl⟩
  | timeout j hlast hexpired hstate =>
    refine ⟨rfl, ?_⟩
    by_cases hij : i = j
    · subst hij
      exact .inr (state_handleConnectFailed _ i ETIMEDOUT)
    · exact .inl (Function.update_of_ne hij _ _)

/-- The step begins `process_channels`. -/
def beginsChannels (s : Service) : Action → Bool
  | .transport _ =>
    match s.phase with
    | .transports n => s.transports[n]?.isNone
    | _ => false
  | _ => false

/-- Whether the step can be taken, with any answer of a resolver. -/
def admits (s : Service) : Action → Bool
  | .answer n _ => n < s.queries.length
  | a => s.enabled a

/-- The channel in its resolving phase that the step stores an answer for. -/
def answers (s : Service) : Action → List ℕ
  | .answer n _ =>
    let i := (s.query n).channel
    if (s.chan i).state = .resolving then [i] else []
  | _ => []

end Service

/-! ## Runs -/

/-- A service, the channels that an answer was stored for in their resolving phase before the next
`process_channels`, and those that the present one has to move on. -/
structure Answered where
  service : Service
  stored : List ℕ := []
  due : List ℕ := []

namespace Answered

def step (inetPton : Host → Option Ip) (a : Action) (g : Answered) : Option Answered :=
  let s := g.service
  let t := s.effect inetPton a
  if s.admits a then
    some
      { service := t
        stored := if s.beginsChannels a then [] else s.answers a ++ g.stored
        due :=
          if s.beginsChannels a then g.stored.filter fun i => (s.chan i).state = .resolving
          else g.due.filter fun i => ¬ s.MovesOn t i }
  else none

def fresh (channelCount : ℕ) (options : Options) (uparams : ℕ → UnpackParams) : Answered where
  service := .fresh channelCount options uparams

end Answered

/-- A resolving channel that `process_channels` visits is still a client, and what was stored for
it can be used. -/
def AnswerUsable (inetPton : Host → Option Ip) (g : Answered) : Action → Prop
  | .channel _ => ∀ i ∈ g.service.channelTurn, (g.service.chan i).state = .resolving →
      testbits (g.service.kind i) Ycm.client = true ∧
        (i ∈ g.due → g.service.Usable inetPton i)
  | _ => True

instance (inetPton : Host → Option Ip) (g : Answered) (a : Action) :
    Decidable (AnswerUsable inetPton g a) := by
  unfold AnswerUsable
  induction a using Action.casesOn <;> infer_instance

namespace Answered

/-- The invariant.  A channel that is due has its turn ahead. -/
structure Moving (g : Answered) : Prop where
  waits : ∀ i, (g.service.chan i).state = .resolving →
    (g.service.chan i).error ≠ 0 ∧ i ∈ g.service.channelOps
  due : ∀ i ∈ g.due, (g.service.chan i).state = .resolving ∧
    ∃ n, g.service.phase = .channels n ∧ i ∈ g.service.channelOps.drop n

variable {inetPton : Host → Option Ip} {g g' : Answered}

/-- A step that leaves the channels, but for their masks. -/
theorem Moving.of_same (h : g.Moving)
    (hchan : ∀ i, (g'.service.chan i).state = (g.service.chan i).state ∧
      ((g.service.chan i).error ≠ 0 → (g'.service.chan i).error ≠ 0))
    (hops : g'.service.channelOps = g.service.channelOps)
    (hphase : ∀ n, g.service.phase = .channels n → g'.service.phase = .channels n)
    (hdue : g'.due ⊆ g.due) : g'.Moving := by
  constructor
  · intro i hstate
    rw [(hchan i).1] at hstate
    obtain ⟨herror, hmem⟩ := h.waits i hstate
    exact ⟨(hchan i).2 herror, hops ▸ hmem⟩
  · intro i hi
    obtain ⟨hstate, n, hn, hmem⟩ := h.due i (hdue hi)
    exact ⟨(hchan i).1.trans hstate, n, hphase n hn, hops ▸ hmem⟩

theorem Moving.due_eq_nil (h : g.Moving) (hphase : ∀ n, g.service.phase ≠ .channels n) :
    g.due = [] := by
  apply List.eq_nil_iff_forall_not_mem.2
  intro i hi
  obtain ⟨-, n, hn, -⟩ := h.due i hi
  exact hphase n hn

/-- A step outside of `process_channels`: it takes no channel into the resolving phase. -/
theorem Moving.outside (h : g.Moving) (hphase : ∀ n, g.service.phase ≠ .channels n)
    (hchan : ∀ i, (g'.service.chan i).state = .resolving →
      (g.service.chan i).state = .resolving ∧
        (g'.service.chan i).error = (g.service.chan i).error)
    (hops : g.service.channelOps ⊆ g'.service.channelOps) (hdue : g'.due ⊆ g.due) :
    g'.Moving := by
  constructor
  · intro i hstate
    obtain ⟨hstate, herror⟩ := hchan i hstate
    exact ⟨herror ▸ (h.waits i hstate).1, hops (h.waits i hstate).2⟩
  · intro i hi
    rw [h.due_eq_nil hphase] at hdue
    exact absurd (hdue hi) List.not_mem_nil

/-- `process_channels` begins: all that wait are in its list. -/
theorem Moving.begin (h : g.Moving) (hservice : g'.service = g.service.endTransports)
    (hdue : g'.due = g.stored.filter fun i => (g.service.chan i).state = .resolving) :
    g'.Moving := by
  have hchan : g'.service.chan = g.service.chan := by rw [hservice]; rfl
  have hops : g'.service.channelOps = g.service.channelOps := by rw [hservice]; rfl
  constructor
  · rw [hchan, hops]
    exact h.waits
  · intro i hi
    rw [hdue, List.mem_filter, decide_eq_true_eq] at hi
    have hmem := (h.waits i hi.2).2
    have hphase : g'.service.phase = .channels 0 := by
      rw [hservice]
      exact if_neg (List.ne_nil_of_mem hmem)
    rw [hchan, hops]
    exact ⟨hi.2, 0, hphase, hmem⟩

/-- The turn of a channel that is due moves it on. -/
theorem Moving.visit (h : g.Moving) {n i : ℕ} (hphase : g.service.phase = .channels n)
    (hi : g.service.channelOps[n]? = some i) {a : ChannelAnswers}
    (hcond : (g.service.chan i).state = .resolving →
      testbits (g.service.kind i) Ycm.client = true ∧ (i ∈ g.due → g.service.Usable inetPton i))
    (hservice : g'.service = g.service.visitChannel inetPton n i a)
    (hdue : g'.due = g.due.filter fun i => ¬ g.service.MovesOn g'.service i) : g'.Moving := by
  constructor
  · intro j hstate
    rw [hservice] at hstate ⊢
    by_cases hij : j = i
    · subst hij
      have hclient : testbits (g.service.kind j) Ycm.client = true := by
        cases hkind : testbits (g.service.kind j) Ycm.client with
        | true => rfl
        | false =>
          rcases Service.state_visitChannel inetPton hkind n a with h | h | h
          · rw [(hcond (h.symm.trans hstate)).1] at hkind
            exact hkind.symm
          · cases h.symm.trans hstate
          · cases h.symm.trans hstate
      obtain ⟨herror, hops⟩ := Service.waits_visitChannel hclient hstate
      refine ⟨?_, ?_⟩
      · rw [herror]
        decide
      · rw [hops]
        exact List.mem_of_getElem? hi
    · obtain ⟨hchan, hmem, -⟩ := Service.places_visitChannel inetPton a hphase hi hij
      rw [hchan] at hstate ⊢
      obtain ⟨herror, hj⟩ := h.waits j hstate
      exact ⟨herror, hmem hj⟩
  · intro j hj
    rw [hdue, List.mem_filter, decide_eq_true_eq] at hj
    obtain ⟨hj, hstays⟩ := hj
    obtain ⟨hstate, m, hm, hmem⟩ := h.due j hj
    obtain rfl : n = m := Phase.channels.inj (hphase.symm.trans hm)
    by_cases hij : j = i
    · subst hij
      obtain ⟨hclient, husable⟩ := hcond hstate
      rw [hservice] at hstays
      exact absurd ((Service.movesOn_visitChannel_iff hclient hstate (h.waits j hstate).1 n).2
        (husable hj)) hstays
    · obtain ⟨hchan, -, hplace⟩ := Service.places_visitChannel inetPton a hphase hi hij
      rw [hservice, hchan]
      exact ⟨hstate, hplace hmem⟩

theorem step_eq_some {a : Action} (h : step inetPton a g = some g') :
    g.service.admits a = true ∧ g'.service = g.service.effect inetPton a ∧
      g'.due = if g.service.beginsChannels a then
          g.stored.filter fun i => (g.service.chan i).state = .resolving
        else g.due.filter fun i => ¬ g.service.MovesOn g'.service i := by
  unfold step at h
  dsimp only at h
  split at h
  · next hadmits =>
    obtain rfl := Option.some.inj h
    exact ⟨hadmits, rfl, rfl⟩
  · cases h

theorem phase_ne_channels {s : Service} {p : Phase} (hphase : s.phase = p)
    (hp : ∀ n, p ≠ .channels n) : ∀ n, s.phase ≠ .channels n :=
  fun n hn => hp n (hphase.symm.trans hn)

/-- Every step under the condition keeps the invariant. -/
theorem Moving.step (h : g.Moving) {a : Action} (hcond : AnswerUsable inetPton g a)
    (hstep : step inetPton a g = some g') : g'.Moving := by
  obtain ⟨hadmits, hservice, hdue⟩ := step_eq_some hstep
  -- steps that leave the channels, but for their masks and errors
  have hmasks : g.service.beginsChannels a = false →
      (∀ i, (g'.service.chan i).state = (g.service.chan i).state ∧
        ((g.service.chan i).error ≠ 0 → (g'.service.chan i).error ≠ 0)) →
      g'.service.channelOps = g.service.channelOps →
      (∀ n, g.service.phase = .channels n → g'.service.phase = .channels n) → g'.Moving := by
    intro hbegins hchan hops hphase
    rw [hbegins, if_neg Bool.false_ne_true] at hdue
    exact h.of_same hchan hops hphase (hdue ▸ List.filter_subset_self _)
  have hsame : g.service.beginsChannels a = false → g'.service.chan = g.service.chan →
      g'.service.channelOps = g.service.channelOps →
      (∀ n, g.service.phase = .channels n → g'.service.phase = .channels n) → g'.Moving := by
    intro hbegins hchan
    exact hmasks hbegins fun i => by rw [hchan]; exact ⟨rfl, id⟩
  -- steps of the service thread outside of process_channels
  have hout : g.service.beginsChannels a = false → (∀ n, g.service.phase ≠ .channels n) →
      (∀ i, (g'.service.chan i).state = .resolving → g'.service.chan i = g.service.chan i) →
      g'.service.channelOps = g.service.channelOps → g'.Moving := by
    intro hbegins hphase hchan hops
    rw [hbegins, if_neg Bool.false_ne_true] at hdue
    refine h.outside hphase ?_ (hops ▸ List.Subset.refl _) (hdue ▸ List.filter_subset_self _)
    intro i hi
    have heq := hchan i hi
    rw [heq] at hi ⊢
    exact ⟨hi, rfl⟩
  cases a with
  | start =>
    have hphase : g.service.phase = .idle := of_decide_eq_true hadmits
    exact hout rfl (phase_ne_channels hphase (by simp)) (fun _ _ => by rw [hservice]; rfl)
      (by rw [hservice]; rfl)
  | frame now =>
    have hphase : g.service.phase = .top :=
      of_decide_eq_true (Bool.and_eq_true_iff.1 hadmits).1
    exact hout rfl (phase_ne_channels hphase (by simp)) (fun _ _ => by rw [hservice]; rfl)
      (by rw [hservice]; rfl)
  | poll answer =>
    have hphase : g.service.phase = .polling := of_decide_eq_true hadmits
    exact hout rfl (phase_ne_channels hphase (by simp)) (fun _ _ => by rw [hservice]; rfl)
      (by rw [hservice]; rfl)
  | transport a =>
    obtain ⟨n, hn, ⟨hend, heq⟩ | ⟨b, hb, heq⟩⟩ := Service.transport_cases inetPton hadmits
    · refine h.begin (hservice.trans heq) ?_
      rw [hdue]
      simp [Service.beginsChannels, hn, hend]
    · have hbegins : g.service.beginsChannels (.transport a) = false := by
        simp [Service.beginsChannels, hn, hb]
      have hchan := g.service.chan_visitTransport_or n b a
      rw [← heq, ← hservice] at hchan
      refine hout hbegins (phase_ne_channels hn (by simp)) (fun i hi => ?_) (hchan 0).1
      exact (hchan i).2.resolve_right fun hclosed => by cases hclosed.symm.trans hi
  | channel a =>
    obtain ⟨n, hn, ⟨hend, heq⟩ | ⟨i, hi, heq⟩⟩ := Service.channel_cases inetPton hadmits
    · -- none is due any more
      have hnil : g.due = [] := by
        apply List.eq_nil_iff_forall_not_mem.2
        intro i hi
        obtain ⟨-, m, hm, hmem⟩ := h.due i hi
        obtain rfl : n = m := Phase.channels.inj (hn.symm.trans hm)
        rw [List.drop_eq_nil_of_le (List.getElem?_eq_none_iff.1 hend)] at hmem
        cases hmem
      rw [heq] at hservice
      refine ⟨?_, ?_⟩
      · rw [hservice]
        exact h.waits
      · rw [hdue, hnil]
        exact fun i hi => absurd hi List.not_mem_nil
    · exact h.visit hn hi (hcond i (Service.mem_channelTurn hn hi)) (hservice.trans heq) hdue
  | timer again =>
    obtain ⟨n, hn, heq⟩ := Service.timer_cases inetPton hadmits
    have hchan := Service.chan_timerTurn_or (g.service.exists_timerTurn n again)
    rw [← heq, ← hservice] at hchan
    refine hout rfl (phase_ne_channels hn (by simp)) (fun i hi => ?_) (hchan 0).1
    exact (hchan i).2.resolve_right fun hclosed => by cases hclosed.symm.trans hi
  | endEvents =>
    refine hout rfl (fun n hn => ?_) (fun _ _ => by rw [hservice]; rfl) (by rw [hservice]; rfl)
    simp [Service.admits, Service.enabled, hn] at hadmits
  | beginDispatch count =>
    refine hsame rfl (by rw [hservice]; rfl) (by rw [hservice]; rfl) fun n hn => ?_
    rw [hservice]
    change (if g.service.phase = .events false then _ else _) = _
    rw [hn]
    exact if_neg (by simp)
  | answer n result =>
    cases result with
    | ok answer =>
      exact hsame rfl (by rw [hservice]; rfl) (by rw [hservice]; rfl)
        (by rw [hservice]; exact fun _ => id)
    | error e =>
      refine hmasks rfl (fun i => ?_) (by rw [hservice]; rfl) (by rw [hservice]; exact fun _ => id)
      rw [hservice]
      by_cases hi : i = (g.service.query n).channel
      · subst hi
        simp [Service.effect, Service.storeAnswer, Service.setChan, Errc.resolveHostFailed]
      · simp [Service.effect, Service.storeAnswer, Service.setChan, hi]
  | openMask n =>
    refine hmasks rfl (fun i => ?_) (by rw [hservice]; rfl) (by rw [hservice]; exact fun _ => id)
    rw [hservice]
    by_cases hi : i = (g.service.opening n).1
    · subst hi
      simp [Service.effect, Service.openMask, Service.setChan]
    · simp [Service.effect, Service.openMask, Service.setChan, hi]
  | openInsert n =>
    have hphase : ∀ m, g.service.phase ≠ .channels m := by
      intro m hm
      simp [Service.admits, Service.enabled, Service.opsLocked, hm] at hadmits
    refine h.outside hphase ?_ ?_ (hdue ▸ List.filter_subset_self _)
    · rw [hservice]
      exact fun _ hi => ⟨hi, rfl⟩
    · rw [hservice]
      change g.service.channelOps ⊆
        if (g.service.opening n).1 ∈ g.service.channelOps then g.service.channelOps
        else g.service.channelOps ++ [(g.service.opening n).1]
      split
      · exact List.Subset.refl _
      · exact List.subset_append_left _ _
  | closeChannel i =>
    refine hmasks rfl (fun j => ?_) (by rw [hservice]; rfl) (by rw [hservice]; exact fun _ => id)
    rw [hservice]
    by_cases hj : j = i
    · subst hj
      simp [Service.effect, Service.setChan, Service.state_closedChan, Service.error_closedChan]
    · simp [Service.effect, Service.setChan, hj]
  | udpConnect b ok =>
    obtain ⟨udp, sockPeer, heq, -⟩ := g.service.exists_udpConnect b ok
    rw [show g.service.effect inetPton (.udpConnect b ok) = _ from heq] at hservice
    exact hsame rfl (by rw [hservice]) (by rw [hservice]) (by rw [hservice]; exact fun _ => id)
  | cancelTimer n =>
    obtain ⟨timers, heq⟩ := g.service.exists_cancelTimer (.user n)
    rw [show g.service.effect inetPton (.cancelTimer n) = _ from heq] at hservice
    exact hsame rfl (by rw [hservice]) (by rw [hservice]) (by rw [hservice]; exact fun _ => id)
  | stop =>
    refine hmasks rfl (fun i => ?_) (by rw [hservice]; rfl) (by rw [hservice]; exact fun _ => id)
    rw [hservice]
    dsimp only [Service.effect, Service.stop]
    split
    · exact ⟨rfl, id⟩
    · rw [Service.state_closedChan, Service.error_closedChan]
      exact ⟨rfl, id⟩
  | join =>
    obtain ⟨events, heq, -⟩ := g.service.exists_join
    rw [show g.service.effect inetPton .join = _ from heq] at hservice
    refine hout rfl (fun n hn => ?_) (fun _ _ => by rw [hservice]) (by rw [hservice])
    simp [Service.admits, Service.enabled, hn] at hadmits
  | finishStop =>
    obtain ⟨io, sockets, heq⟩ := g.service.exists_clearTransports
    have heq' : g'.service =
        { g.service with
          toPool := g.service.toPool.clear, io, toSockets := sockets, timerQueue := []
          stopFlag := false, phase := .idle } := by
      rw [hservice]
      dsimp only [Service.effect, Service.finishStop]
      rw [heq]
    refine hout rfl (fun n hn => ?_) (fun _ _ => by rw [heq']) (by rw [heq'])
    simp [Service.admits, Service.enabled, hn] at hadmits
  | _ =>
    exact hsame rfl (by rw [hservice]; rfl) (by rw [hservice]; rfl)
      (by rw [hservice]; exact fun _ => id)

theorem moving_fresh (channelCount : ℕ) (options : Options) (uparams : ℕ → UnpackParams) :
    (fresh channelCount options uparams).Moving :=
  ⟨nofun, nofun⟩

/-- Whenever `process_channels` is not under way, each channel that waited for an answer when it
began, and had got it, has been moved on by it. -/
theorem due_eq_nil_of_run {channelCount : ℕ} {options : Options} {uparams : ℕ → UnpackParams}
    {as : List Action}
    (hrun : Machine.run (Answered.step inetPton) as (fresh channelCount options uparams) = some g)
    (hcond : Machine.Meets (Answered.step inetPton) (AnswerUsable inetPton) as
      (fresh channelCount options uparams))
    (hlocked : g.service.opsLocked = false) : g.due = [] := by
  have h : g.Moving := by
    refine Machine.invariant_of_meets (I := Moving) ?_ ?_ hcond hrun
    · intro g a g' hg hcond hstep
      exact hg.step hcond hstep
    · exact moving_fresh channelCount options uparams
  apply h.due_eq_nil
  intro n hn
  simp [Service.opsLocked, hn] at hlocked

/-- The answer comes, and a frame takes it up. -/
def takeAnswer (result : Except ℕ (List Endpoint × ℕ)) : List Action :=
  askHost ++ [.answer 0 result] ++ resolvingFrame 3

theorem due_eq_nil_of_run_takeAnswer :
    ∃ g, Machine.run (Answered.step fun _ => none) (takeAnswer (.ok ([.in4 1 80], 2)))
        (fresh 1 { noDispatch := true } fun _ => {}) = some g ∧
      g.service.opsLocked = false ∧ (g.service.chan 0).state = .closed ∧ g.due = [] := by
  obtain ⟨g, hrun, hlocked, hstate⟩ := Machine.exists_of_any (Answered.step fun _ => none)
    (takeAnswer (.ok ([.in4 1 80], 2))) (fresh 1 { noDispatch := true } fun _ => {})
    (fun g => g.service.opsLocked = false ∧ (g.service.chan 0).state = .closed)
    (by decide +kernel)
  exact ⟨g, hrun, hlocked, hstate, due_eq_nil_of_run hrun (by decide +kernel) hlocked⟩

/-- An answer without an error and without addresses: the channel waits on, and no resolver thread
is left. -/
theorem due_of_empty_answer :
    ∃ g, Machine.run (Answered.step fun _ => none) (takeAnswer (.ok ([], 2)))
        (fresh 1 { noDispatch := true } fun _ => {}) = some g ∧
      g.service.opsLocked = false ∧ g.due = [0] ∧ (g.service.chan 0).state = .resolving ∧
        g.service.queries = [] :=
  Machine.exists_of_any (Answered.step fun _ => none) (takeAnswer (.ok ([], 2)))
    (fresh 1 { noDispatch := true } fun _ => {})
    (fun g => g.service.opsLocked = false ∧ g.due = [0] ∧ (g.service.chan 0).state = .resolving ∧
      g.service.queries = [])
    (by decide +kernel)

end Answered

end Yasio
