import Yasio.Service.Routing

/-!
# The datagrams of UDP servers

As long as the map of peers tells the peers of the channels apart, each datagram goes to the live
transport of its channel and its peer, and there is only one.
-/

namespace Yasio

open Function (update)

theorem Endpoint.Same.refl (p : Endpoint) : p.Same p := by
  cases p with
  | unspec => trivial
  | in4 addr port => exact ⟨rfl, rfl⟩
  | in6 port flowinfo addr scopeId pad => exact ⟨rfl, rfl, rfl⟩

theorem Endpoint.Same.symm {p q : Endpoint} (h : p.Same q) : q.Same p := by
  cases p <;> cases q <;> simp_all [Endpoint.Same]

namespace Pool

variable {p : Pool} {b : Block}

/-- The live transports of one channel that `do_dgram_accept` made have different peers. -/
def Unique (p : Pool) : Prop :=
  ∀ b ∈ p.transports, ∀ b' ∈ p.transports, ∀ k ∈ p.mapKey b, ∀ k' ∈ p.mapKey b',
    (p.built b).ctx = (p.built b').ctx → k.Same k' → b = b'

theorem Unique.of_subset {p' : Pool} (h : p.Unique)
    (hsub : ∀ b ∈ p'.transports, b ∈ p.transports) (hkey : p'.mapKey = p.mapKey)
    (hbuilt : p'.built = p.built) : p'.Unique := by
  unfold Unique
  rw [hkey, hbuilt]
  exact fun b hb b' hb' => h b (hsub b hb) b' (hsub b' hb')

theorem Unique.connect (h : p.Unique) (hp : p.Sound) (built : Built) :
    (p.connect built).Unique := by
  have hmem : ∀ b ∈ (p.connect built).transports, ∀ k ∈ (p.connect built).mapKey b,
      b ∈ p.transports ∧ k ∈ p.mapKey b ∧ (p.connect built).built b = p.built b := by
    intro b hb k hk
    rcases List.mem_append.1 hb with hb | hb
    · have hne := hp.ne_freshBlock hb
      rw [mapKey_connect_of_ne built hne] at hk
      exact ⟨hb, hk, built_connect_of_ne built hne⟩
    · rw [List.mem_singleton.1 hb, mapKey_connect_freshBlock] at hk
      cases hk
  intro b hb b' hb' k hk k' hk' hctx hsame
  obtain ⟨hb, hk, hbuilt⟩ := hmem b hb k hk
  obtain ⟨hb', hk', hbuilt'⟩ := hmem b' hb' k' hk'
  rw [hbuilt, hbuilt'] at hctx
  exact h b hb b' hb' k hk k' hk' hctx hsame

theorem Unique.register (h : p.Unique) {peer : Endpoint}
    (hnew : ∀ b' ∈ p.transports, ∀ k ∈ p.mapKey b', b' ≠ b →
      (p.built b').ctx = (p.built b).ctx → ¬ k.Same peer) : (p.register peer b).Unique := by
  have hself : (p.register peer b).mapKey b = some peer := Function.update_self _ _ _
  have hother : ∀ b', b' ≠ b → (p.register peer b).mapKey b' = p.mapKey b' := fun _ hb' =>
    Function.update_of_ne hb' _ _
  intro b₁ hb₁ b₂ hb₂ k₁ hk₁ k₂ hk₂ hctx hsame
  by_cases h₁ : b₁ = b
  · by_cases h₂ : b₂ = b
    · rw [h₁, h₂]
    · rw [hother b₂ h₂] at hk₂
      rw [h₁, hself] at hk₁
      obtain rfl := Option.some.inj hk₁
      exact absurd hsame.symm (hnew b₂ hb₂ k₂ hk₂ h₂ (h₁ ▸ hctx.symm))
  · rw [hother b₁ h₁] at hk₁
    by_cases h₂ : b₂ = b
    · rw [h₂, hself] at hk₂
      obtain rfl := Option.some.inj hk₂
      exact absurd hsame (hnew b₁ hb₁ k₁ hk₁ h₁ (h₂ ▸ hctx))
    · rw [hother b₂ h₂] at hk₂
      exact h b₁ hb₁ b₂ hb₂ k₁ hk₁ k₂ hk₂ hctx hsame

end Pool

/-! ## Deliveries -/

/-- The datagram went to a live transport of its channel that was built for its peer. -/
def Delivery.Right (d : Delivery) : Prop :=
  d.alive = true ∧ d.ctx = d.channel ∧ ∃ k ∈ d.builtFor, k.Same d.peer

namespace Service

variable {inetPton : Host → Option Ip} {s : Service} {b : Block}

/-- The transport `b` takes a datagram from its own socket. -/
def takesOwn (s : Service) (b : Block) (a : TransportAnswers) : Bool :=
  (s.sock (s.built b).sock).isSome && (s.built b).cls.isUdp && a.raw.data ≠ [] &&
    s.ready (s.built b).sock { read := true, error := true }

theorem delivered_receiveFrom (hb : b ∈ s.transports) (a : TransportAnswers) :
    ∀ d ∈ (s.receiveFrom b a).delivered, d ∈ s.delivered ∨
      ∃ k ∈ s.mapKey b, ((s.built b).cls.isUdp = true ∧ a.raw.data ≠ [] ∧
          s.ready (s.built b).sock { read := true, error := true } = true) ∧
        d = { channel := (s.built b).ctx, peer := a.peer, alive := true,
              ctx := (s.built b).ctx, builtFor := some k } := by
  intro d hd
  unfold receiveFrom at hd
  dsimp only at hd
  split at hd
  · next htakes =>
    cases hk : s.mapKey b with
    | none =>
      simp only [hk] at hd
      exact .inl hd
    | some k =>
      simp only [hk] at hd
      rcases List.mem_append.1 hd with hd | hd
      · exact .inl hd
      · refine .inr ⟨k, rfl, htakes, ?_⟩
        simpa [hb] using hd
  · exact .inl hd

/-- What a transport that has a peer in the map records of its own socket. -/
theorem delivered_atRead (hb : b ∈ s.transports) (a : TransportAnswers) :
    ∀ d ∈ (s.atRead b a).delivered, d ∈ s.delivered ∨
      ∃ k ∈ s.mapKey b, s.takesOwn b a = true ∧
        d = { channel := (s.built b).ctx, peer := a.peer, alive := true,
              ctx := (s.built b).ctx, builtFor := some k } := by
  intro d hd
  unfold atRead at hd
  split at hd
  · exact .inl hd
  · next hsock =>
    unfold beforeRead at hd
    dsimp only at hd
    split at hd
    · rw [delivered_sslHandshake a.handshake] at hd
      exact .inl hd
    · rcases delivered_receiveFrom (s := { s.ask _ _ with waitDuration := _ }) hb a d hd
        with hd | ⟨k, hk, htakes, heq⟩
      · exact .inl hd
      · refine .inr ⟨k, hk, ?_, heq⟩
        simp only [takesOwn, Bool.and_eq_true, Option.isSome_iff_ne_none]
        exact ⟨⟨⟨hsock, htakes.1⟩, decide_eq_true htakes.2.1⟩, htakes.2.2⟩

theorem delivered_visitTransport (n : ℕ) (a : TransportAnswers) :
    (s.visitTransport n b a).delivered = (s.atRead b a).delivered := by
  obtain ⟨s', hs, hend⟩ := s.exists_turnEnd (b := b) n a
  rw [← hs.delivered]
  generalize s.visitTransport n b a = t at hend
  cases hend with
  | thrown => rfl
  | kept h => rfl
  | dropped =>
    obtain ⟨chan, io, sockets, heq, -⟩ := s'.exists_dropTransport n b a.tail
    rw [heq]
    rfl

/-- The steps that deliver nothing. -/
theorem delivered_effect (inetPton : Host → Option Ip) {a : Action}
    (henabled : s.enabled a = true) :
    match a with
    | .transport _ | .channel _ => True
    | _ => (s.effect inetPton a).delivered = s.delivered := by
  cases a with
  | transport a => trivial
  | channel a => trivial
  | finishStop =>
    obtain ⟨io, sockets, heq⟩ := s.exists_clearTransports
    dsimp only [effect, finishStop]
    rw [heq]
  | timer again =>
    obtain ⟨n, -, heq⟩ := timer_cases inetPton henabled
    obtain ⟨i, t, phase, ht, -, heq'⟩ := s.exists_processTimer inetPton n again
    dsimp only
    rw [heq, heq']
    exact ht.frame.delivered
  | answer n result => cases result <;> rfl
  | udpConnect b ok =>
    obtain ⟨udp, sockPeer, heq, -⟩ := s.exists_udpConnect b ok
    dsimp only [effect]
    rw [heq]
  | cancelTimer n =>
    obtain ⟨timers, heq⟩ := s.exists_cancelTimer (.user n)
    dsimp only [effect]
    rw [heq]
  | join =>
    obtain ⟨events, heq, -⟩ := s.exists_join
    dsimp only [effect]
    rw [heq]
  | _ => rfl

end Service

/-- The map tells a datagram's peer on channel `i` apart from all others. -/
def Service.tells (s : Service) (i : ℕ) (peer : Endpoint) : Prop :=
  ∀ e ∈ s.transportMap, e.1.equiv peer = true ↔ (s.built e.2).ctx = i ∧ e.1.Same peer

instance (s : Service) (i : ℕ) (peer : Endpoint) : Decidable (s.tells i peer) :=
  List.decidableBAll _ _

/-- The map tells the peers of the channels apart, a new peer gets its socket, and the socket of a
transport receives from its peer. -/
def PeersApart (s : Service) : Action → Prop
  | .transport a => PeersKept s (.transport a) ∧
      ∀ x ∈ s.transportTurn, s.takesOwn x.2 a = true → ∀ k ∈ s.mapKey x.2, k.Same a.peer
  | .channel a => PeersKept s (.channel a) ∧
      ∀ i ∈ s.channelTurn, s.takesDatagram i a = true →
        s.tells i a.peer ∧ (s.transportMap.find a.peer = none → s.granted i a = true)
  | _ => True

instance (s : Service) (a : Action) : Decidable (PeersApart s a) := by
  unfold PeersApart
  induction a using Action.casesOn <;> infer_instance

theorem PeersApart.kept {s : Service} {a : Action} (h : PeersApart s a) : PeersKept s a := by
  cases a with
  | transport a => exact h.1
  | channel a => exact h.1
  | _ => trivial

/-- The invariant of the deliveries. -/
structure Service.Delivers (s : Service) : Prop extends s.Routed where
  unique : s.toPool.Unique
  right : ∀ d ∈ s.delivered, d.Right

namespace Service

variable {inetPton : Host → Option Ip} {s : Service}

theorem unique_visitTransport (h : s.Delivers) (n : ℕ) (b : Block) (a : TransportAnswers) :
    (s.visitTransport n b a).toPool.Unique := by
  rcases s.toPool_visitTransport n b a with hp | hp
  · exact hp ▸ h.unique
  · rw [hp]
    exact h.unique.of_subset (fun b' hb' => (List.eraseIdx_sublist _ _).subset hb') rfl rfl

theorem right_visitTransport (h : s.Delivers) {n : ℕ} {b : Block}
    (hb : s.transports[n]? = some b) {a : TransportAnswers}
    (hcond : s.takesOwn b a = true → ∀ k ∈ s.mapKey b, k.Same a.peer) :
    ∀ d ∈ (s.visitTransport n b a).delivered, d.Right := by
  intro d hd
  rw [delivered_visitTransport] at hd
  rcases delivered_atRead (List.mem_of_getElem? hb) a d hd with hd | ⟨k, hk, htakes, rfl⟩
  · exact h.right d hd
  · exact ⟨rfl, rfl, k, rfl, hcond htakes k hk⟩

theorem unique_visitChannel (h : s.Delivers) {n i : ℕ} {a : ChannelAnswers}
    (hcond : s.takesDatagram i a = true → s.tells i a.peer) :
    (s.visitChannel inetPton n i a).toPool.Unique := by
  rcases s.toPool_visitChannel inetPton n i a with
    hp | ⟨built, ⟨hctx, -, -⟩, hp | ⟨hfind, htakes, hp⟩⟩
  · exact hp ▸ h.unique
  · exact hp ▸ h.unique.connect h.sound built
  · rw [hp]
    apply (h.unique.connect h.sound built).register
    intro b' hb' k hk hne hctx' hsame
    rw [Pool.built_connect_freshBlock, Pool.built_connect_of_ne built hne, hctx] at hctx'
    rw [Pool.mapKey_connect_of_ne built hne] at hk
    have hlive : b' ∈ s.transports :=
      (List.mem_append.1 hb').resolve_right fun hb' => hne (List.mem_singleton.1 hb')
    have hentry := h.pool.entry b' hlive k hk
    have hequiv := (hcond htakes (k, b') hentry).2 ⟨hctx', hsame⟩
    cases hequiv.symm.trans (PeerMap.find_eq_none.1 hfind _ hentry)

theorem right_deliver (h : ∀ d ∈ s.delivered, d.Right) {i : ℕ} {peer : Endpoint} {b : Block}
    (hb : b ∈ s.transports) (hctx : (s.built b).ctx = i) {k : Endpoint} (hk : s.mapKey b = some k)
    (hsame : k.Same peer) : ∀ d ∈ (s.deliver i peer b).delivered, d.Right := by
  intro d hd
  rcases List.mem_append.1 hd with hd | hd
  · exact h d hd
  · rw [List.mem_singleton.1 hd]
    exact ⟨decide_eq_true hb, hctx, k, hk, hsame⟩

theorem right_visitChannel (h : s.Delivers) {n i : ℕ} {a : ChannelAnswers}
    (hcond : s.takesDatagram i a = true → s.tells i a.peer ∧
      (s.transportMap.find a.peer = none → s.granted i a = true)) :
    ∀ d ∈ (s.visitChannel inetPton n i a).delivered, d.Right := by
  obtain ⟨t, hturn, ht⟩ := s.exists_channelTurn inetPton n i a
  have hdelivered : (s.visitChannel inetPton n i a).delivered = t.delivered := by
    rcases ht with ht | ht <;> rw [ht]
  rw [hdelivered]
  cases hturn with
  | quiet hq => exact hq.frame.delivered ▸ h.right
  | connect hq ok hq' =>
    rw [hq'.frame.delivered, (connected_establish i a.interval ok).delivered, hq.frame.delivered]
    exact h.right
  | accept hq fd hfd hkind =>
    rw [(connected_establish (i := i) _ a.interval true).delivered]
    exact hq.frame.delivered ▸ h.right
  | lost hq htakes hfind hgranted =>
    rw [show _ = s.toPool from hq.frame.pool] at hfind
    cases ((hcond htakes).2 hfind).symm.trans hgranted
  | @datagram s₁ hq htakes b hfind =>
    have hpool : s₁.toPool = s.toPool := hq.frame.pool
    rw [(received_handleInput (i := i) b _ _).delivered]
    rw [hpool] at hfind
    obtain ⟨k, hentry, hequiv⟩ := PeerMap.exists_mem_of_find hfind
    obtain ⟨hctx, hsame⟩ := ((hcond htakes).1 (k, b) hentry).1 hequiv
    refine right_deliver (hq.frame.delivered ▸ h.right) ?_ ?_ ?_ hsame
    · rw [hpool]
      exact h.pool.live _ hentry
    · rw [hpool]
      exact hctx
    · rw [hpool]
      exact h.pool.key _ hentry
  | @newPeer s₁ hq htakes fd hfind hfd =>
    have hpool := s₁.toPool_acceptPeer (i := i) a.peer fd a
    rw [(received_handleInput (i := i) _ _ _).delivered]
    refine right_deliver ?_ ?_ ?_ ?_ (Endpoint.Same.refl a.peer)
    · rw [(connected_acceptPeer (i := i) a.peer fd a).delivered, hq.frame.delivered]
      exact h.right
    · rw [hpool]
      exact List.mem_append_right _ (List.mem_singleton.2 rfl)
    · rw [hpool]
      exact congrArg Built.ctx (Pool.built_connect_freshBlock _)
    · rw [hpool]
      exact Function.update_self _ _ _

theorem Delivers.effect (h : s.Delivers) {a : Action} (henabled : s.enabled a = true)
    (hcond : PeersApart s a) : (s.effect inetPton a).Delivers := by
  have hrouted : (s.effect inetPton a).Routed := h.toRouted.effect henabled hcond.kept
  have hpool := s.toPool_effect inetPton a
  have hdelivered := delivered_effect inetPton henabled
  cases a with
  | transport a =>
    obtain ⟨n, hn, ⟨-, heq⟩ | ⟨b, hb, heq⟩⟩ := transport_cases inetPton henabled
    · exact ⟨hrouted, heq ▸ h.unique, heq ▸ h.right⟩
    · refine ⟨hrouted, heq ▸ unique_visitTransport h n b a, heq ▸ right_visitTransport h hb ?_⟩
      exact hcond.2 _ (mem_transportTurn hn hb)
  | channel a =>
    obtain ⟨n, hn, ⟨-, heq⟩ | ⟨i, hi, heq⟩⟩ := channel_cases inetPton henabled
    · exact ⟨hrouted, heq ▸ h.unique, heq ▸ h.right⟩
    · have htells := hcond.2 i (mem_channelTurn hn hi)
      exact ⟨hrouted, heq ▸ unique_visitChannel h fun ht => (htells ht).1,
        heq ▸ right_visitChannel h htells⟩
  | finishStop =>
    refine ⟨hrouted, ?_, fun d hd => h.right d ((show _ = s.delivered from hdelivered) ▸ hd)⟩
    obtain ⟨io, sockets, heq⟩ := s.exists_clearTransports
    dsimp only [Service.effect, finishStop]
    rw [heq]
    exact fun _ hb => absurd hb List.not_mem_nil
  | _ =>
    exact ⟨hrouted, (show _ = s.toPool from hpool) ▸ h.unique,
      (show _ = s.delivered from hdelivered) ▸ h.right⟩

end Service

/-- Each datagram of a UDP server goes to a live transport of its channel and its peer, and no two
live transports of a channel have the same peer. -/
theorem delivered_of_run {inetPton : Host → Option Ip} {channelCount : ℕ} {options : Options}
    {uparams : ℕ → UnpackParams} {as : List Action} {s : Service}
    (hrun : Machine.run (step inetPton) as (.fresh channelCount options uparams) = some s)
    (hcond : Machine.Meets (step inetPton) PeersApart as (.fresh channelCount options uparams)) :
    (∀ d ∈ s.delivered,
      d.alive = true ∧ d.ctx = d.channel ∧ ∃ k ∈ d.builtFor, k.Same d.peer) ∧
    ∀ b ∈ s.transports, ∀ b' ∈ s.transports, ∀ k ∈ s.mapKey b, ∀ k' ∈ s.mapKey b',
      (s.built b).ctx = (s.built b').ctx → k.Same k' → b = b' := by
  have h : s.Delivers := by
    refine Machine.invariant_of_meets (I := Service.Delivers) ?_ ?_ hcond hrun
    · intro s a s' hs hcond hstep
      obtain ⟨henabled, rfl⟩ := step_eq_some.1 hstep
      exact hs.effect henabled hcond
    · exact ⟨Service.routed_fresh channelCount options uparams, nofun, nofun⟩
  exact ⟨h.right, h.unique⟩

theorem delivered_of_run_acceptFirst :
    ∃ s, Machine.run (step fun _ => none) (openUdpServer ++ acceptFirst (.in4 1 80))
        (.fresh 1 { noDispatch := true } fun _ => {}) = some s ∧
      s.delivered ≠ [] ∧ ∀ d ∈ s.delivered, d.alive = true ∧ d.ctx = d.channel ∧
        ∃ k ∈ d.builtFor, k.Same d.peer := by
  obtain ⟨s, hrun, hsome⟩ := Machine.exists_of_any (step fun _ => none)
    (openUdpServer ++ acceptFirst (.in4 1 80)) (.fresh 1 { noDispatch := true } fun _ => {})
    (fun s => s.delivered ≠ []) (by decide +kernel)
  exact ⟨s, hrun, hsome, (delivered_of_run hrun (by decide +kernel)).1⟩

/-- Channel 1 is opened as a second server and gets a datagram of a peer of channel 0: it goes to
the transport of channel 0. -/
theorem delivered_on_other_channel :
    ∃ s, Machine.run (step fun _ => none)
        (openUdpServer ++ acceptFirst (.in4 1 80) ++
          [.openKind 1 Yck.udpServer, .openTest 0, .openMask 0, .openInsert 0, .frame 3,
            .poll (some fun _ => {}), .transport {}, .transport {}, .channel {},
            .channel { socket := .ok 7 }, .channel {}, .timer none, .endEvents, .frame 4,
            .poll (some fun fd => { read := fd = 7 }), .transport {}, .transport {}, .channel {},
            .channel { datagram := .bytes [2], peer := .in4 1 80, dgramSocket := .ok 8 },
            .channel {}, .timer none, .endEvents])
        (.fresh 2 { noDispatch := true } fun _ => {}) = some s ∧
      ∃ d ∈ s.delivered, d.channel = 1 ∧ d.ctx = 0 :=
  Machine.exists_of_any _ _ _ _ (by decide +kernel)

end Yasio
