import Yasio.Service.PoolSteps

/-!
# The map of UDP peers

`transport_map_` is shared by all channels, and `handle_close` erases from it by the address of
the peer.  It keeps the transports of UDP servers apart as long as its comparison does, and as long
as a transport that is closed still has the kind and the peer that it was registered with.
-/

namespace Yasio

open Function (update)

namespace Pool

variable {p : Pool} {b : Block}

/-! ## The entries -/

/-- The entries are those of the live transports that `do_dgram_accept` made. -/
structure Routed (p : Pool) : Prop where
  live : ∀ e ∈ p.transportMap, e.2 ∈ p.transports
  key : ∀ e ∈ p.transportMap, p.mapKey e.2 = some e.1
  entry : ∀ b ∈ p.transports, ∀ k, p.mapKey b = some k → (k, b) ∈ p.transportMap

theorem Routed.connect (h : p.Routed) (hp : p.Sound) (built : Built) :
    (p.connect built).Routed := by
  have hne : ∀ e ∈ p.transportMap, e.2 ≠ p.freshBlock := fun e he =>
    hp.ne_freshBlock (h.live e he)
  refine ⟨?_, ?_, ?_⟩
  · intro e he
    exact List.mem_append_left _ (h.live e he)
  · intro e he
    rw [mapKey_connect_of_ne built (hne e he)]
    exact h.key e he
  · intro b hb k hk
    rcases List.mem_append.1 hb with hb | hb
    · rw [mapKey_connect_of_ne built (hp.ne_freshBlock hb)] at hk
      exact h.entry b hb k hk
    · rw [List.mem_singleton.1 hb, mapKey_connect_freshBlock] at hk
      cases hk

theorem Routed.register (h : p.Routed) (hb : b ∈ p.transports) (hkey : p.mapKey b = none)
    (peer : Endpoint) : (p.register peer b).Routed := by
  have hne : ∀ e ∈ p.transportMap, e.2 ≠ b := by
    rintro e he rfl
    cases (h.key e he).symm.trans hkey
  have hmem : ∀ e, e ∈ (p.register peer b).transportMap ↔
      e ∈ p.transportMap ∨ e = (peer, b) := fun e => PeerMap.mem_emplace
  have hmap : ∀ b', b' ≠ b → (p.register peer b).mapKey b' = p.mapKey b' := fun _ hb' =>
    Function.update_of_ne hb' _ _
  have hself : (p.register peer b).mapKey b = some peer := Function.update_self _ _ _
  refine ⟨?_, ?_, ?_⟩
  · intro e he
    rcases (hmem e).1 he with he | rfl
    · exact h.live e he
    · exact hb
  · intro e he
    rcases (hmem e).1 he with he | rfl
    · rw [hmap _ (hne e he)]
      exact h.key e he
    · exact hself
  · intro b' hb' k hk
    by_cases hbb : b' = b
    · subst hbb
      rw [hself] at hk
      exact (hmem _).2 (.inr (by rw [Option.some.inj hk]))
    · rw [hmap b' hbb] at hk
      exact (hmem _).2 (.inl (h.entry b' hb' k hk))

/-- `handle_close` erases the entry of the transport that it closes, if it has one, and no
other. -/
def ErasesOwn (p : Pool) (b : Block) (kind : ℕ) (remote : Endpoint) : Prop :=
  match p.mapKey b with
  | none =>
    testbits kind Ycm.udp = true → ∀ e ∈ p.transportMap, e.1.equiv remote = false
  | some k =>
    testbits kind Ycm.udp = true ∧ k.equiv remote = true ∧
      ∀ e ∈ p.transportMap, e.1.equiv remote = true → e = (k, b)

instance (p : Pool) (b : Block) (kind : ℕ) (remote : Endpoint) :
    Decidable (p.ErasesOwn b kind remote) := by
  unfold ErasesOwn
  split <;> infer_instance

theorem Routed.release_iff (h : p.Routed) (hp : p.Sound) {n : ℕ} (hb : p.transports[n]? = some b)
    (kind : ℕ) (remote : Endpoint) :
    (p.release n b kind remote).Routed ↔ p.ErasesOwn b kind remote := by
  have hmap : ∀ e, e ∈ (p.release n b kind remote).transportMap ↔
      e ∈ p.transportMap ∧ (testbits kind Ycm.udp = true → e.1.equiv remote = false) := by
    intro e
    change e ∈ (if testbits kind Ycm.udp then p.transportMap.erase remote else p.transportMap) ↔ _
    split
    · next hudp => simp [PeerMap.mem_erase, hudp]
    · next hudp => simp [hudp]
  have hlive : ∀ b', b' ∈ (p.release n b kind remote).transports ↔ b' ∈ p.transports ∧ b' ≠ b :=
    fun b' => mem_release hp hb
  have hkey : (p.release n b kind remote).mapKey = p.mapKey := rfl
  have hbmem : b ∈ p.transports := List.mem_of_getElem? hb
  -- An entry of the map stands under the key that its transport was stored with.
  have hown : ∀ e ∈ p.transportMap, e.2 = b → p.mapKey b = some e.1 := fun e he heb =>
    heb ▸ h.key e he
  unfold ErasesOwn
  constructor
  · intro hr
    -- The entry of another transport has to survive the erase.
    have hother : ∀ e ∈ p.transportMap, e.2 ≠ b → testbits kind Ycm.udp = true →
        e.1.equiv remote = false := by
      intro e he hne hudp
      have hentry := hr.entry e.2 ((hlive e.2).2 ⟨h.live e he, hne⟩) e.1 (h.key e he)
      exact ((hmap _).1 hentry).2 hudp
    cases hk : p.mapKey b with
    | none =>
      intro hudp e he
      refine hother e he ?_ hudp
      intro heb
      cases (hown e he heb).symm.trans hk
    | some k =>
      -- And the own entry has to go with the transport.
      have hgone : ¬ (testbits kind Ycm.udp = true → k.equiv remote = false) := by
        intro hkept
        have hstill := hr.live (k, b) ((hmap _).2 ⟨h.entry b hbmem k hk, hkept⟩)
        exact ((hlive b).1 hstill).2 rfl
      obtain ⟨hudp, hequiv⟩ := Classical.not_imp.1 hgone
      refine ⟨hudp, (Bool.not_eq_false _).mp hequiv, ?_⟩
      intro e he heq
      by_cases heb : e.2 = b
      · exact Prod.ext (Option.some.inj ((hown e he heb).symm.trans hk)) heb
      · cases (hother e he heb hudp).symm.trans heq
  · intro herase
    refine ⟨?_, fun e he => h.key e ((hmap e).1 he).1, ?_⟩
    · intro e he
      obtain ⟨he, hkept⟩ := (hmap e).1 he
      refine (hlive e.2).2 ⟨h.live e he, ?_⟩
      intro heb
      rw [hown e he heb] at herase
      obtain ⟨hudp, hequiv, -⟩ := herase
      cases hequiv.symm.trans (hkept hudp)
    · intro b' hb' k' hk'
      obtain ⟨hb', hne⟩ := (hlive b').1 hb'
      have he := h.entry b' hb' k' hk'
      refine (hmap _).2 ⟨he, fun hudp => ?_⟩
      cases hk : p.mapKey b with
      | none =>
        rw [hk] at herase
        exact herase hudp _ he
      | some k =>
        rw [hk] at herase
        refine (Bool.not_eq_true _).mp fun hequiv => hne ?_
        exact congrArg Prod.snd (herase.2.2 _ he hequiv)

theorem Routed.clear (p : Pool) : p.clear.Routed := ⟨nofun, nofun, nofun⟩

end Pool

/-! ## Steps -/

/-- The peers that the map compares. -/
def Service.peers (s : Service) : List Endpoint := s.transportMap.map Prod.fst

/-- The comparison orders the peers that are looked up, and a transport is closed with the kind
and the peer of its entry. -/
def PeersKept (s : Service) : Action → Prop
  | .transport a => ∀ x ∈ s.transportTurn, s.closes x.1 x.2 a = true →
      PeerMap.Ordered (s.peers ++ [(s.atRead x.2 a).remoteEndpoint x.2 a.tail]) ∧
        s.toPool.ErasesOwn x.2 (s.kind (s.built x.2).ctx)
          ((s.atRead x.2 a).remoteEndpoint x.2 a.tail)
  | .channel a => ∀ i ∈ s.channelTurn, s.takesDatagram i a = true →
      PeerMap.Ordered (s.peers ++ [a.peer])
  | _ => True

instance (s : Service) (a : Action) : Decidable (PeersKept s a) := by
  unfold PeersKept
  induction a using Action.casesOn <;> infer_instance

/-- The invariant of the map. -/
structure Service.Routed (s : Service) : Prop extends s.Orderly where
  pool : s.toPool.Routed

namespace Service

variable {inetPton : Host → Option Ip} {s : Service}

theorem Routed.visitTransport (h : s.Routed) {n : ℕ} {b : Block} (hb : s.transports[n]? = some b)
    {a : TransportAnswers} (hcond : s.closes n b a = true →
      s.toPool.ErasesOwn b (s.kind (s.built b).ctx)
        ((s.atRead b a).remoteEndpoint b a.tail)) :
    (s.visitTransport n b a).toPool.Routed := by
  rcases s.toPool_visitTransport n b a with hp | hp
  · rw [hp]
    exact h.pool
  · rw [hp]
    refine (h.pool.release_iff h.sound hb _ _).2 (hcond ?_)
    have hlen : s.transports.eraseIdx n ≠ s.transports := by
      intro heq
      have hn := (List.getElem?_eq_some_iff.1 hb).1
      have := congrArg List.length heq
      rw [List.length_eraseIdx_of_lt hn] at this
      omega
    unfold closes
    rw [show (s.visitTransport n b a).transports = s.transports.eraseIdx n from
      congrArg Pool.transports hp]
    exact decide_eq_true hlen

theorem Routed.visitChannel (h : s.Routed) (n i : ℕ) (a : ChannelAnswers) :
    (s.visitChannel inetPton n i a).toPool.Routed := by
  rcases s.toPool_visitChannel inetPton n i a with hp | ⟨built, -, hp | ⟨-, -, hp⟩⟩
  · exact hp ▸ h.pool
  · exact hp ▸ h.pool.connect h.sound built
  · rw [hp]
    exact (h.pool.connect h.sound built).register
      (List.mem_append_right _ (List.mem_singleton.2 rfl))
      (Pool.mapKey_connect_freshBlock built) a.peer

theorem Routed.effect (h : s.Routed) {a : Action} (henabled : s.enabled a = true)
    (hcond : PeersKept s a) : (s.effect inetPton a).Routed := by
  refine ⟨h.toOrderly.effect henabled, ?_⟩
  have hother := s.toPool_effect inetPton a
  cases a with
  | transport a =>
    obtain ⟨n, hn, ⟨-, heq⟩ | ⟨b, hb, heq⟩⟩ := transport_cases inetPton henabled
    · exact heq ▸ h.pool
    · rw [heq]
      exact h.visitTransport hb fun hclose => (hcond _ (mem_transportTurn hn hb) hclose).2
  | channel a =>
    obtain ⟨n, hn, ⟨-, heq⟩ | ⟨i, hi, heq⟩⟩ := channel_cases inetPton henabled
    · exact heq ▸ h.pool
    · exact heq ▸ h.visitChannel n i a
  | finishStop =>
    obtain ⟨io, sockets, heq⟩ := s.exists_clearTransports
    dsimp only [Service.effect, finishStop]
    rw [heq]
    exact .clear _
  | _ => exact (show _ = s.toPool from hother) ▸ h.pool

theorem routed_fresh (channelCount : ℕ) (options : Options) (uparams : ℕ → UnpackParams) :
    (Service.fresh channelCount options uparams).Routed :=
  ⟨orderly_fresh channelCount options uparams, nofun, nofun, nofun⟩

end Service

/-- Every transport in the map lives, and every live transport that `do_dgram_accept` made still
has its entry. -/
theorem transportMap_of_run {inetPton : Host → Option Ip} {channelCount : ℕ} {options : Options}
    {uparams : ℕ → UnpackParams} {as : List Action} {s : Service}
    (hrun : Machine.run (step inetPton) as (.fresh channelCount options uparams) = some s)
    (hcond : Machine.Meets (step inetPton) PeersKept as (.fresh channelCount options uparams)) :
    (∀ e ∈ s.transportMap, e.2 ∈ s.transports) ∧
      ∀ b ∈ s.transports, ∀ k, s.mapKey b = some k → (k, b) ∈ s.transportMap := by
  have h : s.Routed := by
    refine Machine.invariant_of_meets (I := Service.Routed) ?_ ?_ hcond hrun
    · intro s a s' hs hcond hstep
      obtain ⟨henabled, rfl⟩ := step_eq_some.1 hstep
      exact hs.effect henabled hcond
    · exact Service.routed_fresh channelCount options uparams
  exact ⟨h.pool.live, h.pool.entry⟩

/-- Channel 0 is opened as a UDP server on the descriptor 5. -/
def openUdpServer : List Action :=
  [.start, .openKind 0 Yck.udpServer, .openTest 0, .openMask 0, .openInsert 0, .frame 1,
    .poll (some fun _ => {}), .transport {}, .channel { socket := .ok 5 }, .channel {},
    .timer none, .endEvents]

/-- A frame in which a datagram comes to it, when no transport lives. -/
def acceptFirst (peer : Endpoint) : List Action :=
  [.frame 2, .poll (some fun fd => { read := fd = 5 }), .transport {},
    .channel { datagram := .bytes [1], peer, dgramSocket := .ok 6 }, .channel {}, .timer none,
    .endEvents]

theorem transportMap_of_run_acceptFirst :
    ∃ s, Machine.run (step fun _ => none) (openUdpServer ++ acceptFirst (.in4 1 80))
        (.fresh 1 { noDispatch := true } fun _ => {}) = some s ∧
      s.transportMap = [(.in4 1 80, 0)] ∧ ∀ e ∈ s.transportMap, e.2 ∈ s.transports := by
  obtain ⟨s, hrun, hmap⟩ := Machine.exists_of_any (step fun _ => none)
    (openUdpServer ++ acceptFirst (.in4 1 80)) (.fresh 1 { noDispatch := true } fun _ => {})
    (fun s => s.transportMap = [(.in4 1 80, 0)]) (by decide +kernel)
  exact ⟨s, hrun, hmap, (transportMap_of_run hrun (by decide +kernel)).1⟩

/-- The channel gets the kind of a TCP server while a peer's transport lives: the close of the
transport leaves its entry behind. -/
theorem transportMap_dangling :
    ∃ s, Machine.run (step fun _ => none)
        (openUdpServer ++ acceptFirst (.in4 1 80) ++
          [.openKind 0 Yck.tcpServer, .closeTransport 0, .frame 3, .poll (some fun _ => {}),
            .transport {}, .transport {}, .channel {}, .channel {}, .timer none, .endEvents])
        (.fresh 1 { noDispatch := true } fun _ => {}) = some s ∧
      s.transports = [] ∧ s.transportMap = [(.in4 1 80, 0)] :=
  Machine.exists_of_any _ _ _ _ (by decide +kernel)

end Yasio
