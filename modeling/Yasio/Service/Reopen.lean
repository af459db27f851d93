import Yasio.Service.ClientTurn

/-!
# Reopening a client channel

The transport of a client channel and the channel share one socket object.  A request to open the
channel again is to close the old transport before the new attempt opens the socket.
-/

namespace Yasio

open Function (update)

namespace Service

/-- A live transport of channel `i`. -/
def Links (s : Service) (i : ℕ) (b : Block) : Prop := b ∈ s.transports ∧ (s.built b).ctx = i

instance (s : Service) (i : ℕ) (b : Block) : Decidable (s.Links i b) :=
  inferInstanceAs (Decidable (_ ∧ _))

/-- Before channel `i` is visited in this frame, `process_transports` will have visited each of its
transports. -/
def Ahead (s : Service) (i : ℕ) : Prop :=
  match s.phase with
  | .transports m => i ∈ s.channelOps → ∀ b ∈ s.transports.take m, (s.built b).ctx ≠ i
  | .channels m => i ∈ s.channelOps.drop m → ∀ b ∈ s.transports, (s.built b).ctx ≠ i
  | _ => True

instance (s : Service) (i : ℕ) : Decidable (s.Ahead i) := by
  unfold Ahead
  split <;> infer_instance

theorem ahead_of_ne {s : Service} {i : ℕ} (ht : ∀ m, s.phase ≠ .transports m)
    (hc : ∀ m, s.phase ≠ .channels m) : s.Ahead i := by
  unfold Ahead
  split
  · next m hphase => exact absurd hphase (ht m)
  · next m hphase => exact absurd hphase (hc m)
  · trivial

theorem ahead_of_transports {s : Service} {i m : ℕ} (hphase : s.phase = .transports m)
    (h : i ∈ s.channelOps → ∀ b ∈ s.transports.take m, (s.built b).ctx ≠ i) : s.Ahead i := by
  unfold Ahead
  rw [hphase]
  exact h

theorem ahead_of_channels {s : Service} {i m : ℕ} (hphase : s.phase = .channels m)
    (h : i ∈ s.channelOps.drop m → ∀ b ∈ s.transports, (s.built b).ctx ≠ i) : s.Ahead i := by
  unfold Ahead
  rw [hphase]
  exact h

theorem Ahead.transports {s : Service} {i m : ℕ} (h : s.Ahead i)
    (hphase : s.phase = .transports m) (hi : i ∈ s.channelOps) :
    ∀ b ∈ s.transports.take m, (s.built b).ctx ≠ i := by
  unfold Ahead at h
  rw [hphase] at h
  exact h hi

theorem Ahead.channels {s : Service} {i m : ℕ} (h : s.Ahead i)
    (hphase : s.phase = .channels m) (hi : i ∈ s.channelOps.drop m) :
    ∀ b ∈ s.transports, (s.built b).ctx ≠ i := by
  unfold Ahead at h
  rw [hphase] at h
  exact h hi

/-- The opening of the transport of `i` was announced and the loss was, or the transport lives. -/
def Accounted (s : Service) (i : ℕ) (e : Event) : Prop :=
  (∃ e' ∈ s.fired, e'.kind = .onClose ∧ e'.sourceId = e.sourceId) ∨
    ∃ b, s.Links i b ∧ (s.built b).id = e.sourceId ∧ (s.io b).state = .opened

/-- The announcement of a connection of channel `i`. -/
def announces (i : ℕ) (e : Event) : Prop := e.kind = .onOpen ∧ e.channel = i ∧ e.transport ≠ none

/-- The invariant of the reopening of channel `i`. -/
structure Isolated (s : Service) (i : ℕ) : Prop where
  lt : i < s.nextSock
  ops : s.channelOps.Nodup
  kind : testbits (s.kind i) Ycm.client = false → testbits (s.kind i) Ycm.server = false
  opened : ∀ b, s.Links i b → (s.chan i).state = .opened
  one : ∀ b b', s.Links i b → s.Links i b' → b = b'
  masked : (s.chan i).opOpen = true → s.Ahead i
  socket : ∀ b, s.Links i b → (s.built b).sock = i ∧ (s.built b).gen = s.gen i
  accounted : ∀ e ∈ s.fired, announces i e → s.Accounted i e
  attempts : ∀ x ∈ s.attempts, x.channel = i → x.left = [] ∧ x.unclosed = []

variable {s s' s'' : Service} {i j : ℕ} {inetPton : Host → Option Ip}

theorem links_of_pool {i : ℕ} (h : s'.toPool = s.toPool) (b : Block) :
    s'.Links i b ↔ s.Links i b := by
  unfold Links
  rw [h]

/-! ## Steps that are not about the channel -/

/-- What everything that is not about channel `i` leaves as it is. -/
structure Apart (i : ℕ) (s s' : Service) : Prop where
  gen : s'.gen i = s.gen i
  nextSock : s.nextSock ≤ s'.nextSock
  links : ∀ b, s'.Links i b ↔ s.Links i b
  built : ∀ b, s.Links i b → s'.built b = s.built b
  io : ∀ b, s.Links i b → (s'.io b).state = (s.io b).state
  fires : ∃ es, s'.fired = s.fired ++ es ∧ ∀ e ∈ es, ¬ (e.kind = .onOpen ∧ e.channel = i)
  attempts : ∃ xs, s'.attempts = s.attempts ++ xs ∧ ∀ x ∈ xs, x.channel ≠ i

theorem Apart.refl (i : ℕ) (s : Service) : Apart i s s where
  gen := rfl
  nextSock := Nat.le_refl _
  links _ := Iff.rfl
  built _ _ := rfl
  io _ _ := rfl
  fires := ⟨[], by simp⟩
  attempts := ⟨[], by simp⟩

theorem Apart.trans (h : Apart i s s') (h' : Apart i s' s'') : Apart i s s'' where
  gen := h'.gen.trans h.gen
  nextSock := h.nextSock.trans h'.nextSock
  links b := (h'.links b).trans (h.links b)
  built b hb := (h'.built b ((h.links b).2 hb)).trans (h.built b hb)
  io b hb := (h'.io b ((h.links b).2 hb)).trans (h.io b hb)
  fires := by
    obtain ⟨es, hf, hes⟩ := h.fires
    obtain ⟨es', hf', hes'⟩ := h'.fires
    refine ⟨es ++ es', by rw [hf', hf, List.append_assoc], ?_⟩
    intro e he
    exact (List.mem_append.1 he).elim (hes e) (hes' e)
  attempts := by
    obtain ⟨xs, hx, hxs⟩ := h.attempts
    obtain ⟨xs', hx', hxs'⟩ := h'.attempts
    refine ⟨xs ++ xs', by rw [hx', hx, List.append_assoc], ?_⟩
    intro x hmem
    exact (List.mem_append.1 hmem).elim (hxs x) (hxs' x)

/-- Nothing that the invariant reads has changed, but what it says of the masks holds again. -/
theorem Isolated.of_apart (h : s.Isolated i) (ha : Apart i s s')
    (hops : s'.channelOps.Nodup)
    (hkind : testbits (s'.kind i) Ycm.client = false → testbits (s'.kind i) Ycm.server = false)
    (hstate : (s'.chan i).state = (s.chan i).state)
    (hmasked : (s'.chan i).opOpen = true → s'.Ahead i) : s'.Isolated i where
  lt := h.lt.trans_le ha.nextSock
  ops := hops
  kind := hkind
  opened b hb := hstate.trans (h.opened b ((ha.links b).1 hb))
  one b b' hb hb' := h.one b b' ((ha.links b).1 hb) ((ha.links b').1 hb')
  masked := hmasked
  socket b hb := by
    have hb := (ha.links b).1 hb
    rw [ha.built b hb, ha.gen]
    exact h.socket b hb
  accounted e he hann := by
    obtain ⟨es, hf, hes⟩ := ha.fires
    rw [hf] at he
    rcases List.mem_append.1 he with he | he
    · rcases h.accounted e he hann with ⟨e', he', hclose⟩ | ⟨b, hb, hid, hio⟩
      · left
        refine ⟨e', ?_, hclose⟩
        rw [hf]
        exact List.mem_append_left _ he'
      · right
        refine ⟨b, (ha.links b).2 hb, ?_, ?_⟩
        · rw [ha.built b hb, hid]
        · rw [ha.io b hb, hio]
    · exact absurd ⟨hann.1, hann.2.1⟩ (hes e he)
  attempts x hx hchannel := by
    obtain ⟨xs, hatt, hxs⟩ := ha.attempts
    rw [hatt] at hx
    rcases List.mem_append.1 hx with hx | hx
    · exact h.attempts x hx hchannel
    · exact absurd hchannel (hxs x hx)

theorem Isolated.note (h : s.Isolated i) (armed : List Armed) (timeouts : List Timeout)
    (taken : List TakeUp) : ({ s with armed, timeouts, taken } : Service).Isolated i :=
  h.of_apart { Apart.refl i s with } h.ops h.kind rfl h.masked

/-- What a new connection does to the pool, with what its transport was built as. -/
structure Joined (s s' : Service) (built : Built) : Prop where
  transports : s'.transports = s.transports ++ [s.freshBlock]
  other : ∀ b, b ≠ s.freshBlock → s'.built b = s.built b
  ctx : (s'.built s.freshBlock).ctx = built.ctx
  sock : (s'.built s.freshBlock).sock = built.sock
  gen : (s'.built s.freshBlock).gen = built.gen
  kind : (s'.built s.freshBlock).kind = built.kind

theorem Joined.of_connect {built : Built} (h : s'.toPool = s.toPool.connect built) :
    Joined s s' built := by
  have hfresh := Pool.built_connect_freshBlock (p := s.toPool) built
  rw [← h] at hfresh
  refine ⟨?_, fun b hb => ?_, ?_, ?_, ?_, ?_⟩
  · rw [h, Pool.transports_connect]
  · rw [h, Pool.built_connect_of_ne built hb]
  · rw [hfresh]
  · rw [hfresh]
  · rw [hfresh]
  · rw [hfresh]

theorem Joined.of_register {built : Built} {peer : Endpoint}
    (h : s'.toPool = (s.toPool.connect built).register peer s.freshBlock) : Joined s s' built := by
  have hfresh := Pool.built_connect_freshBlock (p := s.toPool) built
  rw [← show s'.built s.freshBlock = (s.toPool.connect built).built s.freshBlock by rw [h]; rfl]
    at hfresh
  refine ⟨?_, fun b hb => ?_, ?_, ?_, ?_, ?_⟩
  · rw [h]
    rfl
  · rw [h]
    exact Pool.built_connect_of_ne built hb
  · rw [hfresh]
  · rw [hfresh]
  · rw [hfresh]
  · rw [hfresh]

theorem Joined.links_iff {built : Built} (h : Joined s s' built) (hs : s.toPool.Sound) (i : ℕ)
    (b : Block) : s'.Links i b ↔ s.Links i b ∨ b = s.freshBlock ∧ built.ctx = i := by
  unfold Links
  rw [h.transports, List.mem_append, List.mem_singleton]
  by_cases hb : b = s.freshBlock
  · subst hb
    simp [hs.freshBlock_notMem, h.ctx]
  · simp [hb, h.other b hb]

/-- A connection of another channel. -/
theorem Apart.of_connected (built : Built) (hij : built.ctx ≠ i) (hs : s.toPool.Sound)
    (h : Connected j s.freshBlock s s') (hjoined : Joined s s' built) (hgen : s'.gen i = s.gen i)
    (hnext : s.nextSock ≤ s'.nextSock) : Apart i s s' where
  gen := hgen
  nextSock := hnext
  links b := by simp [hjoined.links_iff hs, hij]
  built b hb := hjoined.other b (hs.ne_freshBlock hb.1)
  io b hb := by rw [h.io b (hs.ne_freshBlock hb.1)]
  fires := by
    obtain ⟨es, -, hfired, hes⟩ := h.fires
    refine ⟨es, hfired, ?_⟩
    rintro e he ⟨-, hchannel⟩
    apply hij
    rw [← hchannel, (hes e he).2.2.2.1, hjoined.ctx]
  attempts := by
    refine ⟨[], ?_, nofun⟩
    rw [List.append_nil, show s'.attempts = s'.toHistory.attempts from rfl, h.history]

theorem Apart.of_part (hij : j ≠ i) (h : Part inetPton j s s') : Apart i s s' := by
  cases h with
  | resolve now =>
    obtain ⟨net, queries, options, error, heq⟩ := Resolves.doResolve inetPton j now s
    rw [heq]
    exact { Apart.refl i s with }
  | openSock fd hfd =>
    exact { Apart.refl i s with gen := Function.update_of_ne hij.symm _ _ }
  | fire error =>
    refine { Apart.refl i s with fires := ⟨_, rfl, ?_⟩ }
    rintro e he ⟨-, hchannel⟩
    rw [List.mem_singleton.1 he] at hchannel
    exact hij hchannel
  | attempt left unclosed sockPeer =>
    refine { Apart.refl i s with attempts := ⟨_, rfl, ?_⟩ }
    intro x hx
    rw [List.mem_singleton.1 hx]
    exact hij
  | setChan base | closeSock | modEvent add remove | ask events | timers timers
  | note armed timeouts | take x hx => exact { Apart.refl i s with }

theorem Apart.of_quiet (hij : j ≠ i) (h : Quiet inetPton j s s') : Apart i s s' := by
  induction h with
  | refl => exact .refl i s
  | tail _ hpart ih => exact ih.trans (.of_part hij hpart)

theorem Apart.of_received {b : Block} (h : Received j b s s') : Apart i s s' where
  gen := by rw [h.sockets]
  nextSock := by rw [h.sockets]
  links := links_of_pool h.pool
  built b _ := by rw [h.pool]
  io b _ := h.io b
  fires := by
    obtain ⟨es, -, hfired, hes⟩ := h.fires
    refine ⟨es, hfired, ?_⟩
    rintro e he ⟨hkind, -⟩
    cases (hes e he).1.symm.trans hkind
  attempts := by
    refine ⟨[], ?_, nofun⟩
    rw [List.append_nil, show s'.attempts = s'.toHistory.attempts from rfl, h.history]

theorem gen_establish (k : SockId) (interval : ℕ) (ok : Bool) :
    (s.establish j k interval ok).gen = s.gen ∧
      (s.establish j k interval ok).nextSock = s.nextSock :=
  s.tuned_establish (i := j) k interval ok (fun t => t.gen = s.gen ∧ t.nextSock = s.nextSock)
    (fun _ _ _ h => h) (fun _ _ h => h) ⟨rfl, rfl⟩

theorem gen_acceptPeer (peer : Endpoint) (fd : Fd) (a : ChannelAnswers) :
    (s.acceptPeer j peer fd a).gen = update s.gen s.nextSock (s.gen s.nextSock + 1) ∧
      (s.acceptPeer j peer fd a).nextSock = s.nextSock + 1 :=
  s.tuned_acceptPeer (i := j) peer fd a
    (fun t => t.gen = update s.gen s.nextSock (s.gen s.nextSock + 1) ∧
      t.nextSock = s.nextSock + 1)
    (fun _ _ _ h => h) (fun _ _ h => h) ⟨rfl, rfl⟩

/-- A connection on a socket that the channel has or that is new. -/
theorem Apart.establish (hij : j ≠ i) (hs : s.toPool.Sound) (k : SockId) (interval : ℕ)
    (ok : Bool) : Apart i s (s.establish j k interval ok) :=
  Apart.of_connected (s.newBuilt j k interval) hij hs (connected_establish k interval ok)
    (.of_connect (s.toPool_establish k interval ok)) (congrFun (gen_establish k interval ok).1 i)
    (gen_establish k interval ok).2.ge

theorem Apart.newSock (hi : i < s.nextSock) (fd : Fd) (peer : Endpoint) :
    Apart i s (s.newSock fd peer) :=
  { Apart.refl i s with
    gen := Function.update_of_ne (Nat.ne_of_lt hi) _ _
    nextSock := Nat.le_succ _ }

/-- The turn of another channel. -/
theorem Apart.of_channelTurn {a : ChannelAnswers} (hij : j ≠ i) (hi : i < s.nextSock)
    (hs : s.toPool.Sound) (h : ChannelTurn inetPton j a s s') : Apart i s s' := by
  cases h with
  | quiet hq => exact .of_quiet hij hq
  | @connect s₁ _ hq ok hq' =>
    have hs₁ : s₁.toPool.Sound := hq.frame.pool ▸ hs
    exact ((Apart.of_quiet hij hq).trans (.establish hij hs₁ j a.interval ok)).trans
      (.of_quiet hij hq')
  | @accept s₁ hq fd hfd hkind =>
    have hs₁ : (s₁.newSock fd a.acceptPeer).toPool.Sound := (hq.frame.pool ▸ hs : s₁.toPool.Sound)
    have hap := Apart.of_quiet hij hq
    exact (hap.trans (.newSock (hi.trans_le hap.nextSock) fd a.acceptPeer)).trans
      (.establish hij hs₁ _ a.interval true)
  | lost hq htakes hfind hgranted => exact (Apart.of_quiet hij hq).trans { Apart.refl i _ with }
  | @datagram s₁ hq htakes b hfind =>
    have hdeliver : Apart i s₁ (s₁.deliver j a.peer b) := { Apart.refl i s₁ with }
    exact ((Apart.of_quiet hij hq).trans hdeliver).trans
      (.of_received (received_handleInput (i := j) b _ _))
  | @newPeer s₁ hq htakes fd hfind hfd =>
    have hs₁ : s₁.toPool.Sound := hq.frame.pool ▸ hs
    have hap := Apart.of_quiet hij hq
    have hne : i ≠ s₁.nextSock := Nat.ne_of_lt (hi.trans_le hap.nextSock)
    obtain ⟨hgen, hnext⟩ := s₁.gen_acceptPeer (j := j) a.peer fd a
    have hpeer : Apart i s₁ (s₁.acceptPeer j a.peer fd a) := by
      refine Apart.of_connected ((s₁.newSock fd .unspec).newBuilt j s₁.nextSock a.interval) hij hs₁
        (connected_acceptPeer a.peer fd a) (.of_register (s₁.toPool_acceptPeer a.peer fd a)) ?_ ?_
      · rw [hgen, Function.update_of_ne hne]
      · rw [hnext]
        exact Nat.le_succ _
    have hdeliver : ∀ t : Service, Apart i t (t.deliver j a.peer s₁.freshBlock) :=
      fun t => { Apart.refl i t with }
    exact ((hap.trans hpeer).trans (hdeliver _)).trans
      (.of_received (received_handleInput (i := j) _ _ _))

theorem mem_drop_eraseIdx {l : List ℕ} {n x : ℕ} (h : x ∈ (l.eraseIdx n).drop n) :
    x ∈ l.drop n := by
  rw [drop_eraseIdx, ← List.drop_drop] at h
  exact List.mem_of_mem_drop h

/-- A visit that leaves the masks and the transports of the channel. -/
theorem Ahead.next {n : ℕ} (h : s.Ahead i) (hphase : s.phase = .channels n)
    (hlinks : ∀ b, s'.Links i b → s.Links i b)
    (hnext : s'.phase = .channels n ∧ s'.channelOps = s.channelOps.eraseIdx n ∨
      s'.phase = .channels (n + 1) ∧ s'.channelOps = s.channelOps) : s'.Ahead i := by
  have hnone : i ∈ s.channelOps.drop n → ∀ b ∈ s'.transports, (s'.built b).ctx ≠ i := by
    intro hi b hb hctx
    obtain ⟨hmem, hctx'⟩ := hlinks b ⟨hb, hctx⟩
    exact h.channels hphase hi b hmem hctx'
  rcases hnext with ⟨hp, hops⟩ | ⟨hp, hops⟩
  · apply ahead_of_channels hp
    intro hi
    rw [hops] at hi
    exact hnone (mem_drop_eraseIdx hi)
  · apply ahead_of_channels hp
    intro hi
    rw [hops, ← List.drop_drop] at hi
    exact hnone (List.mem_of_mem_drop hi)

/-- The visit of another channel. -/
theorem Isolated.visitOther (h : s.Isolated i) (hs : s.toPool.Sound) {n : ℕ}
    (hphase : s.phase = .channels n) (hij : j ≠ i) (a : ChannelAnswers) :
    (s.visitChannel inetPton n j a).Isolated i := by
  obtain ⟨t, hturn, ht⟩ := s.exists_channelTurn inetPton n j a
  have hap : Apart i s t := .of_channelTurn hij h.lt hs hturn
  have hframe := hturn.frame
  have hchan : t.chan i = s.chan i := hframe.chan i hij.symm
  have hkind : testbits (t.kind i) Ycm.client = false → testbits (t.kind i) Ycm.server = false := by
    rw [hframe.kind]
    exact h.kind
  rcases ht with ht | ht
  · rw [ht]
    refine h.of_apart (hap.trans { Apart.refl i t with }) ?_ hkind (congrArg IoBase.state hchan) ?_
    · change (t.channelOps.eraseIdx n).Nodup
      rw [hframe.channelOps]
      exact h.ops.sublist (List.eraseIdx_sublist _ _)
    · intro hopen
      have hopen' : (s.chan i).opOpen = true := by rwa [← hchan]
      refine (h.masked hopen').next hphase (fun b => (hap.links b).1) (.inl ⟨?_, ?_⟩)
      · exact hframe.phase.trans hphase
      · exact congrArg (·.eraseIdx n) hframe.channelOps
  · rw [ht]
    refine h.of_apart (hap.trans { Apart.refl i t with }) ?_ hkind (congrArg IoBase.state hchan) ?_
    · exact hframe.channelOps ▸ h.ops
    · intro hopen
      have hopen' : (s.chan i).opOpen = true := by rwa [← hchan]
      exact (h.masked hopen').next hphase (fun b => (hap.links b).1)
        (.inr ⟨rfl, hframe.channelOps⟩)

/-! ## The turn of the channel -/

/-- What the parts of the channel's own turn leave that make no connection. -/
structure Bare (i : ℕ) (s s' : Service) : Prop where
  pool : s'.toPool = s.toPool
  kind : s'.kind = s.kind
  ops : s'.channelOps = s.channelOps
  nextSock : s'.nextSock = s.nextSock
  opOpen : (s.chan i).opOpen = false → (s'.chan i).opOpen = false
  fires : ∃ es, s'.fired = s.fired ++ es ∧ ∀ e ∈ es, ¬ announces i e
  attempts : s'.attempts = s.attempts

theorem Bare.refl (i : ℕ) (s : Service) : Bare i s s where
  pool := rfl
  kind := rfl
  ops := rfl
  nextSock := rfl
  opOpen h := h
  fires := ⟨[], by simp⟩
  attempts := rfl

theorem Bare.of_resolves (h : Resolves i s s') : Bare i s s' := by
  obtain ⟨net, queries, options, error, rfl⟩ := h
  refine { Bare.refl i s with opOpen := fun h => ?_ }
  change (update s.chan i { s.chan i with error } i).opOpen = false
  rw [Function.update_self]
  exact h

theorem Bare.setChan {base : IoBase} (h : base.opOpen = (s.chan i).opOpen) :
    Bare i s (s.setChan i base) := by
  refine { Bare.refl i s with opOpen := fun hopen => ?_ }
  change (update s.chan i base i).opOpen = false
  rw [Function.update_self, h, hopen]

theorem Bare.handleConnectFailed (i : ℕ) (s : Service) (error : Int) :
    Bare i s (s.handleConnectFailed i error) := by
  refine { Bare.refl i s with opOpen := fun _ => ?_, fires := ⟨_, rfl, ?_⟩ }
  · change (update s.chan i _ i).opOpen = false
    rw [Function.update_self]
    exact Bool.and_false _
  · rintro e he ⟨-, -, htransport⟩
    rw [List.mem_singleton.1 he] at htransport
    exact htransport rfl

theorem Bare.cancelTimer (i : ℕ) (s : Service) (t : TimerId) : Bare i s (s.cancelTimer t) := by
  obtain ⟨timers, heq⟩ := s.exists_cancelTimer t
  rw [heq]
  exact { Bare.refl i s with }

theorem Bare.modEvent (i : ℕ) (s : Service) (k : SockId) (add remove : Interest) :
    Bare i s (s.modEvent k add remove) := { Bare.refl i s with }

theorem Bare.ask (i : ℕ) (s : Service) (k : SockId) (events : Ready) :
    Bare i s (s.ask k events) := { Bare.refl i s with }

/-- No transport of the channel lives, no request waits, and it has the kind of a client. -/
structure Vacant (s : Service) (i : ℕ) : Prop extends s.Isolated i where
  none : ∀ b, ¬ s.Links i b
  opOpen : (s.chan i).opOpen = false
  client : testbits (s.kind i) Ycm.client = true

/-- While no transport of the channel lives, its invariant needs little. -/
theorem Isolated.bare (h : s.Isolated i) (hnone : ∀ b, ¬ s.Links i b) (hb : Bare i s s')
    (hopen : (s'.chan i).opOpen = false) : s'.Isolated i := by
  have hlinks : ∀ b, ¬ s'.Links i b := fun b hl => hnone b ((links_of_pool hb.pool b).1 hl)
  refine ⟨?_, ?_, ?_, ?_, ?_, ?_, ?_, ?_, ?_⟩
  · rw [hb.nextSock]
    exact h.lt
  · rw [hb.ops]
    exact h.ops
  · rw [hb.kind]
    exact h.kind
  · exact fun b hl => absurd hl (hlinks b)
  · exact fun b _ hl => absurd hl (hlinks b)
  · exact fun hmask => absurd (hopen.symm.trans hmask) Bool.false_ne_true
  · exact fun b hl => absurd hl (hlinks b)
  · intro e he hann
    obtain ⟨es, hfired, hes⟩ := hb.fires
    rw [hfired] at he
    rcases List.mem_append.1 he with he | he
    · rcases h.accounted e he hann with ⟨e', he', hclose⟩ | ⟨b, hl, -⟩
      · left
        refine ⟨e', ?_, hclose⟩
        rw [hfired]
        exact List.mem_append_left _ he'
      · exact absurd hl (hnone b)
    · exact absurd hann (hes e he)
  · rw [hb.attempts]
    exact h.attempts

theorem Vacant.bare (h : s.Vacant i) (hb : Bare i s s') : s'.Vacant i where
  toIsolated := h.toIsolated.bare h.none hb (hb.opOpen h.opOpen)
  none b hl := h.none b ((links_of_pool hb.pool b).1 hl)
  opOpen := hb.opOpen h.opOpen
  client := hb.kind ▸ h.client

theorem Vacant.unclosed (h : s.Vacant i) : s.unclosed i = [] := by
  unfold Service.unclosed
  rw [List.map_eq_nil_iff, List.filter_eq_nil_iff]
  intro e he hopen
  simp only [decide_eq_true_eq] at hopen
  obtain ⟨hkind, hchannel, htransport, hnot⟩ := hopen
  rcases h.accounted e he ⟨hkind, hchannel, htransport⟩ with ⟨e', he', hclose⟩ | ⟨b, hl, -⟩
  · exact hnot e' he' hclose
  · exact h.none b hl

theorem Vacant.unbound (h : s.Vacant i) : (s.unbound i).Vacant i := by
  unfold Service.unbound
  dsimp only
  split
  · have hclean : Bare i s (s.cleanupChannel i) := by
      refine { Bare.refl i s with opOpen := fun _ => ?_ }
      change (update s.chan i _ i).opOpen = false
      rw [Function.update_self]
      exact Bool.and_false _
    exact (h.bare hclean).bare (.setChan rfl)
  · exact h.bare (.setChan rfl)

/-- A new attempt finds no transport of the channel, and no connection that was not closed. -/
theorem Vacant.attempted (h : s.Vacant i) (fd : Fd) : (s.attempted i fd).Vacant i := by
  refine ⟨⟨h.lt, h.ops, h.kind, ?_, ?_, h.masked, ?_, ?_, ?_⟩, h.none, h.opOpen, h.client⟩
  · exact fun b hl => absurd hl (h.none b)
  · exact fun b _ hl => absurd hl (h.none b)
  · exact fun b hl => absurd hl (h.none b)
  · exact h.accounted
  · intro x hx hchannel
    rcases List.mem_append.1 hx with hx | hx
    · exact h.attempts x hx hchannel
    · rw [List.mem_singleton.1 hx]
      refine ⟨?_, h.unclosed⟩
      apply List.filter_eq_nil_iff.2
      intro b hb hctx
      exact h.none b ⟨hb, of_decide_eq_true hctx⟩

theorem Bare.awaitConnect (i : ℕ) (s : Service) (a : ChannelAnswers) :
    Bare i s (s.awaitConnect i a) := by
  have h : Bare i s (s.setChan i { s.chan i with error := EINPROGRESS }) := .setChan rfl
  exact { h with opOpen := h.opOpen }

/-- A connection of the channel when no transport of it lives. -/
theorem Vacant.establish (h : s.Vacant i) (hs : s.toPool.Sound) (interval : ℕ) (ok : Bool) :
    (s.establish i i interval ok).Isolated i ∧
      ((s.establish i i interval ok).chan i).opOpen = false := by
  have hconn : Connected i s.freshBlock s (s.establish i i interval ok) :=
    connected_establish i interval ok
  have hjoined : Joined s (s.establish i i interval ok) (s.newBuilt i i interval) :=
    .of_connect (s.toPool_establish i interval ok)
  obtain ⟨hgen, hnext⟩ := s.gen_establish (j := i) i interval ok
  have hchan := congrFun (s.chan_establish h.client i interval ok) i
  rw [Function.update_self] at hchan
  generalize s.establish i i interval ok = t at hconn hjoined hgen hnext hchan
  have hlinks : ∀ b, t.Links i b ↔ b = s.freshBlock := by
    intro b
    rw [hjoined.links_iff hs]
    simp [h.none b, newBuilt]
  have hopen : (t.chan i).opOpen = false := by
    rw [hchan]
    exact h.opOpen
  refine ⟨⟨?_, ?_, ?_, ?_, ?_, ?_, ?_, ?_, ?_⟩, hopen⟩
  · rw [hnext]
    exact h.lt
  · rw [hconn.channelOps]
    exact h.ops
  · rw [hconn.kind]
    exact h.kind
  · intro b _
    rw [hchan]
    rfl
  · intro b b' hb hb'
    rw [(hlinks b).1 hb, (hlinks b').1 hb']
  · exact fun hmask => absurd (hopen.symm.trans hmask) Bool.false_ne_true
  · intro b hb
    rw [(hlinks b).1 hb, hjoined.sock, hjoined.gen, hgen]
    exact ⟨rfl, rfl⟩
  · intro e he hann
    obtain ⟨es, -, hfired, hes⟩ := hconn.fires
    rw [hfired] at he
    rcases List.mem_append.1 he with he | he
    · rcases h.accounted e he hann with ⟨e', he', hclose⟩ | ⟨b, hl, -⟩
      · left
        refine ⟨e', ?_, hclose⟩
        rw [hfired]
        exact List.mem_append_left _ he'
      · exact absurd hl (h.none b)
    · right
      obtain ⟨-, -, hid, -, hio⟩ := hes e he
      exact ⟨s.freshBlock, (hlinks _).2 rfl, hid.symm, hio⟩
  · rw [show t.attempts = t.toHistory.attempts from rfl, hconn.history]
    exact h.attempts

/-- The turn of a client channel whose request, if there was one, has been taken up. -/
theorem Isolated.clientTurn {a : ChannelAnswers} {t : Service} (h : s.Isolated i)
    (hs : s.toPool.Sound) (hopen : (s.chan i).opOpen = false)
    (hclient : testbits (s.kind i) Ycm.client = true) (hturn : ClientTurn i a s t) :
    t.Isolated i ∧ (t.chan i).opOpen = false := by
  have hvacant : (s.chan i).state ≠ .opened → s.Vacant i := fun hne =>
    ⟨h, fun b hb => hne (h.opened b hb), hopen, hclient⟩
  have hresolving : (s.chan i).state = .resolving → s.Vacant i := by
    intro hstate
    apply hvacant
    rw [hstate]
    exact nofun
  have hconnecting : (s.chan i).state = .connecting → s.Vacant i := by
    intro hstate
    apply hvacant
    rw [hstate]
    exact nofun
  cases hturn with
  | idle hstate => exact ⟨h, hopen⟩
  | waits hstate hres herror =>
    have hv := (hresolving hstate).bare (.of_resolves hres)
    exact ⟨hv.toIsolated, hv.opOpen⟩
  | unresolved hstate hres error =>
    have hv := ((hresolving hstate).bare (.of_resolves hres)).bare (.handleConnectFailed i _ error)
    exact ⟨hv.toIsolated, hv.opOpen⟩
  | noSocket hstate hres error =>
    have hv := ((hresolving hstate).bare (.of_resolves hres)).unbound.bare
      (.handleConnectFailed i _ error)
    exact ⟨hv.toIsolated, hv.opOpen⟩
  | refused hstate hres fd hfd error =>
    have hv := (((hresolving hstate).bare (.of_resolves hres)).unbound.attempted fd).bare
      (.handleConnectFailed i _ error)
    exact ⟨hv.toIsolated, hv.opOpen⟩
  | starts hstate hres fd hfd =>
    have hv := (((hresolving hstate).bare (.of_resolves hres)).unbound.attempted fd).bare
      (.awaitConnect i _ a)
    exact ⟨hv.toIsolated, hv.opOpen⟩
  | @connects hstate s₁ hres fd hfd =>
    have hv := (((hresolving hstate).bare (.of_resolves hres)).unbound.attempted fd).bare
      (.modEvent i _ i { read := true } .none)
    refine hv.establish ?_ a.interval a.dgramConnect
    have hpool : (s₁.unbound i).toPool = s₁.toPool := by
      unfold Service.unbound
      dsimp only
      split <;> rfl
    change (s₁.unbound i).toPool.Sound
    rw [hpool, (Bare.of_resolves hres).pool]
    exact hs
  | pending hstate hready => exact ⟨h, hopen⟩
  | completes hstate hready =>
    have hv := ((hconnecting hstate).bare (.ask i s i connectReady)).bare
      (.modEvent i _ i .none { write := true })
    obtain ⟨hiso, hopen'⟩ := hv.establish hs a.interval a.dgramConnect
    generalize establish _ i i a.interval a.dgramConnect = u at hiso hopen'
    obtain ⟨timers, heq⟩ := u.exists_cancelTimer (.connect i)
    rw [heq]
    refine ⟨?_, hopen'⟩
    exact hiso.of_apart { Apart.refl i u with } hiso.ops hiso.kind rfl hiso.masked
  | fails hstate hready error =>
    have hv := (((hconnecting hstate).bare (.ask i s i connectReady)).bare
      (.handleConnectFailed i _ error)).bare (.cancelTimer i _ (.connect i))
    exact ⟨hv.toIsolated, hv.opOpen⟩

/-- The taking up of a request, when no transport of the channel lives. -/
theorem Isolated.takeOpen (h : s.Isolated i)
    (hnone : (s.chan i).opOpen = true → ∀ b, ¬ s.Links i b) :
    (s.takeOpen i).Isolated i ∧ ((s.takeOpen i).chan i).opOpen = false := by
  unfold Service.takeOpen
  split
  · next hopen =>
    have hopen' : ((s.setChan i { s.chan i with opOpen := false, state := .resolving }).chan
        i).opOpen = false := by
      change (update s.chan i _ i).opOpen = false
      rw [Function.update_self]
    refine ⟨⟨h.lt, h.ops, h.kind, ?_, h.one, ?_, h.socket, h.accounted, h.attempts⟩, hopen'⟩
    · exact fun b hb => absurd hb (hnone hopen b)
    · exact fun hmask => absurd (hopen'.symm.trans hmask) Bool.false_ne_true
  · next hopen => exact ⟨h, (Bool.not_eq_true _).mp hopen⟩

/-- The visit of the channel itself. -/
theorem Isolated.visitSelf (h : s.Isolated i) (hs : s.toPool.Sound) {n : ℕ}
    (hphase : s.phase = .channels n) (hi : s.channelOps[n]? = some i) (a : ChannelAnswers) :
    (s.visitChannel inetPton n i a).Isolated i := by
  cases hclient : testbits (s.kind i) Ycm.client with
  | false =>
    rw [visitChannel_of_no_role inetPton n a hclient (h.kind hclient)]
    refine h.of_apart { Apart.refl i s with } ?_ h.kind rfl ?_
    · exact h.ops.sublist (List.eraseIdx_sublist _ _)
    · exact fun hopen => (h.masked hopen).next hphase (fun _ hb => hb) (.inl ⟨hphase, rfl⟩)
  | true =>
    have hdrop := mem_drop_channelOps hi
    obtain ⟨htake, hopen⟩ := h.takeOpen fun hmask b hb =>
      (h.masked hmask).channels hphase hdrop b hb.1 hb.2
    obtain ⟨t, hturn, ht⟩ := exists_clientTurn inetPton n a hclient
    obtain ⟨hiso, hopen'⟩ := htake.clientTurn (s.toPool_takeOpen i ▸ hs) hopen
      (s.kind_takeOpen i ▸ hclient) hturn
    have hmasked : (t.chan i).opOpen = true → False := by
      intro hmask
      rw [hopen'] at hmask
      cases hmask
    rcases ht with ⟨-, ht⟩ | ⟨-, ht⟩
    · rw [ht]
      refine hiso.of_apart { Apart.refl i t with } ?_ hiso.kind rfl
        fun hmask => (hmasked hmask).elim
      exact hiso.ops.sublist (List.eraseIdx_sublist _ _)
    · rw [ht]
      exact hiso.of_apart { Apart.refl i t with } hiso.ops hiso.kind rfl
        fun hmask => (hmasked hmask).elim

/-! ## The turn of a transport -/

theorem ahead_congr (hphase : s'.phase = s.phase) (hops : s'.channelOps = s.channelOps)
    (hpool : s'.toPool = s.toPool) : s'.Ahead i ↔ s.Ahead i := by
  unfold Ahead
  rw [hphase, hops, hpool]

theorem Isolated.touched {b : Block} (h : s.Isolated i) (hb : b ∈ s.transports)
    (ht : Touched b s s') : s'.Isolated i := by
  have hlinks : ∀ b, s'.Links i b ↔ s.Links i b := links_of_pool ht.pool
  have hchan : s'.chan = s.chan := congrArg Channels.chan ht.channels
  have hbuilt : s'.built = s.built := congrArg Pool.built ht.pool
  have hgen : s'.gen = s.gen ∧ s'.nextSock = s.nextSock :=
    ht.sockets (fun t => t.gen = s.gen ∧ t.nextSock = s.nextSock) (fun _ _ _ _ h => h) ⟨rfl, rfl⟩
  have hops : s'.channelOps = s.channelOps := congrArg Channels.channelOps ht.channels
  have hphase : s'.phase = s.phase := by rw [show s'.phase = s'.toLoop.phase from rfl, ht.loop]
  obtain ⟨es, -, hfired, hes⟩ := ht.fires
  refine ⟨?_, ?_, ?_, ?_, ?_, ?_, ?_, ?_, ?_⟩
  · rw [hgen.2]
    exact h.lt
  · rw [hops]
    exact h.ops
  · rw [show s'.kind = s.kind from congrArg Channels.kind ht.channels]
    exact h.kind
  · rw [hchan]
    exact fun b hb => h.opened b ((hlinks b).1 hb)
  · exact fun b b' hb hb' => h.one b b' ((hlinks b).1 hb) ((hlinks b').1 hb')
  · rw [hchan]
    exact fun hmask => (ahead_congr hphase hops ht.pool).2 (h.masked hmask)
  · rw [hbuilt, hgen.1]
    exact fun b hb => h.socket b ((hlinks b).1 hb)
  · intro e he hann
    rw [hfired] at he
    rcases List.mem_append.1 he with he | he
    · rcases h.accounted e he hann with ⟨e', he', hclose⟩ | ⟨b', hb', hid, hio⟩
      · left
        refine ⟨e', ?_, hclose⟩
        rw [hfired]
        exact List.mem_append_left _ he'
      · right
        refine ⟨b', (hlinks b').2 hb', by rw [hbuilt, hid], ?_⟩
        by_cases hbb : b' = b
        · subst hbb
          exact ht.opened hio
        · rw [ht.io b' hbb, hio]
    · right
      obtain ⟨hkind, hchannel, htransport⟩ := hann
      obtain ⟨b', hb'⟩ := Option.ne_none_iff_exists'.1 htransport
      obtain ⟨rfl, hid, hctx, hopen⟩ := (hes e he).2 b' hb'
      refine ⟨b', (hlinks b').2 ⟨hb, hctx ▸ hchannel⟩, ?_, hopen hkind⟩
      rw [hbuilt, hid]
  · rw [ht.attempts]
    exact h.attempts

/-- What the closing of a transport leaves of the sockets and of the other transports. -/
theorem dropTransport_frame (s : Service) (n : ℕ) (b : Block) (tail : ℕ) :
    (s.dropTransport n b tail).gen = s.gen ∧ (s.dropTransport n b tail).nextSock = s.nextSock ∧
      ∀ b', b' ≠ b → (s.dropTransport n b tail).io b' = s.io b' := by
  unfold dropTransport handleClose
  dsimp only
  split
  · exact ⟨rfl, rfl, fun b' hb' => Function.update_of_ne hb' _ _⟩
  · exact ⟨rfl, rfl, fun b' hb' => Function.update_of_ne hb' _ _⟩

theorem links_dropTransport (hs : s.toPool.Sound) {n tail : ℕ} {b b' : Block}
    (hb : s.transports[n]? = some b) :
    (s.dropTransport n b tail).Links i b' ↔ s.Links i b' ∧ b' ≠ b := by
  obtain ⟨chan, io, sockets, heq, -⟩ := s.exists_dropTransport n b tail
  have hmem : b' ∈ (s.dropTransport n b tail).transports ↔ b' ∈ s.transports ∧ b' ≠ b := by
    rw [heq]
    exact Pool.mem_release hs hb
  have hbuilt : (s.dropTransport n b tail).built = s.built := by
    rw [heq]
    rfl
  unfold Links
  rw [hmem, hbuilt]
  tauto

theorem Isolated.dropTransport (h : s.Isolated i) (hs : s.toPool.Sound) {n tail : ℕ}
    (hphase : s.phase = .transports n) {b : Block} (hb : s.transports[n]? = some b) :
    (s.dropTransport n b tail).Isolated i := by
  obtain ⟨hgen, hnext, hio⟩ := s.dropTransport_frame n b tail
  obtain ⟨chan, io, sockets, heq, hchan⟩ := s.exists_dropTransport n b tail
  have hbuilt : (s.dropTransport n b tail).built = s.built := by
    rw [heq]
    rfl
  have hlinks : ∀ b', (s.dropTransport n b tail).Links i b' ↔ s.Links i b' ∧ b' ≠ b :=
    fun b' => links_dropTransport hs hb
  have hfired : (s.dropTransport n b tail).fired = s.fired ++ s.closeEvents b := by
    rw [heq]
    rfl
  have hops : (s.dropTransport n b tail).channelOps = s.channelOps := by
    rw [heq]
    rfl
  have hkind : (s.dropTransport n b tail).kind = s.kind := by
    rw [heq]
    rfl
  have hattempts : (s.dropTransport n b tail).attempts = s.attempts := by
    rw [heq]
    rfl
  have hphase' : (s.dropTransport n b tail).phase = .transports n := by
    rw [heq]
    exact hphase
  have htransports : (s.dropTransport n b tail).transports = s.transports.eraseIdx n := by
    rw [heq]
    rfl
  -- A close turns off the channel of its own transport and no other.
  have hsame : (s.built b).ctx ≠ i → (s.dropTransport n b tail).chan i = s.chan i := by
    intro hctx
    rw [heq]
    exact hchan i hctx.symm
  refine ⟨?_, ?_, ?_, ?_, ?_, ?_, ?_, ?_, ?_⟩
  · rw [hnext]
    exact h.lt
  · rw [hops]
    exact h.ops
  · rw [hkind]
    exact h.kind
  · intro b' hb'
    obtain ⟨hl, hne⟩ := (hlinks b').1 hb'
    rw [hsame fun hctx => hne (h.one b' b hl ⟨List.mem_of_getElem? hb, hctx⟩)]
    exact h.opened b' hl
  · exact fun b₁ b₂ h₁ h₂ => h.one b₁ b₂ ((hlinks b₁).1 h₁).1 ((hlinks b₂).1 h₂).1
  · intro hmask
    apply ahead_of_transports hphase'
    rw [hops, htransports, hbuilt]
    intro hi b' hb' hctx
    have htake : b' ∈ s.transports.take n := by
      rwa [List.take_eraseIdx_eq_take_of_le _ _ _ (Nat.le_refl n)] at hb'
    -- One transport a channel: a transport of `i` in front of the dropped one would be it.
    by_cases hctxb : (s.built b).ctx = i
    · have hbb : b' = b :=
        h.one b' b ⟨List.mem_of_mem_take htake, hctx⟩ ⟨List.mem_of_getElem? hb, hctxb⟩
      subst hbb
      have hlink : (s.dropTransport n b' tail).Links i b' :=
        ⟨htransports ▸ List.mem_of_mem_take hb', hbuilt ▸ hctx⟩
      exact ((hlinks b').1 hlink).2 rfl
    · rw [hsame hctxb] at hmask
      exact (h.masked hmask).transports hphase hi b' htake hctx
  · intro b' hb'
    rw [hbuilt, hgen]
    exact h.socket b' ((hlinks b').1 hb').1
  · intro e he hann
    rw [hfired] at he
    have hold : e ∈ s.fired := by
      rcases List.mem_append.1 he with he | he
      · exact he
      · unfold closeEvents at he
        split at he
        · rw [List.mem_singleton.1 he] at hann
          cases hann.1
        · cases he
    unfold Accounted
    rw [hfired]
    rcases h.accounted e hold hann with ⟨e', he', hclose⟩ | ⟨b', hb', hid, hopen⟩
    · exact .inl ⟨e', List.mem_append_left _ he', hclose⟩
    -- The transport of an announced session either lives on or has just said goodbye.
    · by_cases hbb : b' = b
      · subst hbb
        left
        refine ⟨s.transportEvent b' .onClose (s.io b').error, ?_, rfl, hid⟩
        apply List.mem_append_right
        unfold closeEvents
        rw [if_pos hopen]
        exact List.mem_singleton.2 rfl
      · right
        exact ⟨b', (hlinks b').2 ⟨hb', hbb⟩, by rw [hbuilt, hid], by rw [hio b' hbb, hopen]⟩
  · rw [hattempts]
    exact h.attempts

theorem Isolated.visitTransport (h : s.Isolated i) (hs : s.toPool.Sound) {n : ℕ}
    (hphase : s.phase = .transports n) {b : Block} (hb : s.transports[n]? = some b)
    (a : TransportAnswers) : (s.visitTransport n b a).Isolated i := by
  obtain ⟨s', hs', hend⟩ := s.exists_turnEnd (b := b) n a
  have ht : Touched b s s' := (s.touched_atRead (b := b) a).trans hs'.toTouched
  have h' : s'.Isolated i := h.touched (List.mem_of_getElem? hb) ht
  have hphase' : s'.phase = .transports n := by
    rw [show s'.phase = s'.toLoop.phase from rfl, ht.loop]
    exact hphase
  have hb' : s'.transports[n]? = some b := ht.pool ▸ hb
  generalize s.visitTransport n b a = t at hend
  cases hend with
  | thrown =>
    exact h'.of_apart { Apart.refl i s' with } h'.ops h'.kind rfl fun _ =>
      ahead_of_ne (fun _ => nofun) (fun _ => nofun)
  | kept hasked =>
    refine h'.of_apart { Apart.refl i s' with } h'.ops h'.kind rfl fun hmask => ?_
    apply ahead_of_transports (m := n + 1) rfl
    intro hi b' hmem
    change b' ∈ s'.transports.take (n + 1) at hmem
    rw [List.take_add_one, hb'] at hmem
    rcases List.mem_append.1 hmem with hmem | hmem
    · exact (h'.masked hmask).transports hphase' hi b' hmem
    · obtain rfl : b' = b := by simpa using hmem
      intro hctx
      have hopen : (s'.chan (s'.built b').ctx).opOpen = true := by
        rw [show (s'.built b').ctx = i from hctx]
        exact hmask
      simp [closeAsked, hopen] at hasked
  | dropped => exact h'.dropTransport (ht.pool ▸ hs) hphase' hb'

theorem Isolated.timerTurn (h : s.Isolated i) {n : ℕ} (hphase : s.phase = .timers n) {t : Service}
    (hturn : TimerTurn n s t) : t.Isolated i := by
  have hahead : ∀ {t : Service}, t.phase = .timers n → t.Ahead i := by
    intro t ht
    apply ahead_of_ne
    · intro m hm
      cases ht.symm.trans hm
    · intro m hm
      cases ht.symm.trans hm
  cases hturn with
  | ends timers htimers =>
    exact h.of_apart { Apart.refl i s with } h.ops h.kind rfl fun _ =>
      ahead_of_ne (fun _ => nofun) (fun _ => nofun)
  | userDone m hlast =>
    exact h.of_apart { Apart.refl i s with } h.ops h.kind rfl fun _ => hahead hphase
  | userAgain m hlast time =>
    exact h.of_apart { Apart.refl i s with } h.ops h.kind rfl fun _ =>
      ahead_of_ne (fun _ => nofun) (fun _ => nofun)
  | late j hlast hexpired hstate =>
    exact h.of_apart { Apart.refl i s with } h.ops h.kind rfl fun _ => hahead hphase
  | timeout j hlast hexpired hstate =>
    let s₁ : Service := { s with timerQueue := s.timerQueue.dropLast }
    have h₁ : s₁.Isolated i :=
      h.of_apart { Apart.refl i s with } h.ops h.kind rfl fun _ => hahead hphase
    have h₂ : (s₁.handleConnectFailed j ETIMEDOUT).Isolated i := by
      by_cases hij : j = i
      · subst hij
        refine h₁.bare (fun b hb => hstate (h.opened b hb)) (.handleConnectFailed j s₁ ETIMEDOUT) ?_
        change (update s.chan j _ j).opOpen = false
        rw [Function.update_self]
        exact Bool.and_false _
      · have hquiet : Quiet (fun _ => none) j s₁ (s₁.handleConnectFailed j ETIMEDOUT) :=
          quiet_handleConnectFailed ETIMEDOUT
        refine h₁.of_apart (.of_quiet hij hquiet) h.ops h.kind ?_ fun _ => hahead hphase
        exact congrArg IoBase.state (Function.update_of_ne (Ne.symm hij) _ _)
    exact h₂.note s.armed _ s.taken

theorem clearTransports_of_nil (h : s.transports = []) :
    s.clearTransports = { s with transportMap := [] } := by
  have heq : s.clearTransports = { { s with transportMap := [] } with transports := [] } := by
    unfold clearTransports
    rw [h]
    rfl
  rw [heq, ← h]

theorem Orderly.transports_of_finishStop (h : s.Orderly) (henabled : s.enabled .finishStop = true) :
    s.transports = [] := by
  have hphase : s.phase = .stopping ∧ s.budget = none := by simpa [enabled] using henabled
  exact h.exited (by simp [left, hphase.1])

/-- The pool is empty by the time the worker has left its loop. -/
theorem Orderly.finishStop_eq (h : s.Orderly) (henabled : s.enabled .finishStop = true) :
    s.finishStop =
      { s with transportMap := [], timerQueue := [], stopFlag := false, phase := .idle } := by
  rw [finishStop, clearTransports_of_nil (h.transports_of_finishStop henabled)]

end Service

/-- The transports that `process_transports` has visited and kept in this frame, while it runs. -/
def Service.passed (s : Service) : List Block :=
  match s.phase with
  | .transports m => s.transports.take m
  | _ => []

/-- A request to open channel `i` sets its mask when the transports of the channel will still be
visited before the channel is, and is inserted then if the mask is set. -/
def OpensAhead (i : ℕ) (s : Service) : Action → Prop
  | .openMask n => (s.opening n).1 = i → s.Ahead i
  | .openInsert n => (s.opening n).1 = i → (s.chan i).opOpen = true →
      ∀ b ∈ s.passed, (s.built b).ctx ≠ i
  | _ => True

instance (i : ℕ) (s : Service) (a : Action) : Decidable (OpensAhead i s a) := by
  unfold OpensAhead
  induction a using Action.casesOn <;> infer_instance

/-- The kinds that channel `i` is opened with are kinds of a client. -/
def OpensClient (i : ℕ) : Action → Prop
  | .openKind j kind => j = i → testbits kind Ycm.client = true
  | _ => True

instance (i : ℕ) (a : Action) : Decidable (OpensClient i a) := by
  unfold OpensClient
  induction a using Action.casesOn <;> infer_instance

/-- The invariant of the reopening of channel `i`, with what it rests on. -/
structure Service.Reopened (s : Service) (i : ℕ) : Prop extends s.Orderly where
  isolated : s.Isolated i

namespace Service

variable {s : Service} {i : ℕ} {inetPton : Host → Option Ip}

theorem nextPhase_cases (s : Service) : s.nextPhase = .exiting ∨ s.nextPhase = .top := by
  unfold nextPhase
  split
  · exact .inl rfl
  · exact .inr rfl

theorem ahead_nextPhase (h : s.phase = s.nextPhase) : s.Ahead i := by
  rcases s.nextPhase_cases with hp | hp
  · exact ahead_of_ne (fun m hm => by cases (h.trans hp).symm.trans hm)
      (fun m hm => by cases (h.trans hp).symm.trans hm)
  · exact ahead_of_ne (fun m hm => by cases (h.trans hp).symm.trans hm)
      (fun m hm => by cases (h.trans hp).symm.trans hm)

theorem Isolated.endTransports (h : s.Isolated i) {n : ℕ} (hphase : s.phase = .transports n)
    (hend : s.transports[n]? = none) : s.endTransports.Isolated i := by
  refine h.of_apart { Apart.refl i s with } h.ops h.kind rfl fun hmask => ?_
  have hnext : s.endTransports.phase = if s.channelOps = [] then .timers 0 else .channels 0 := rfl
  split at hnext
  · exact ahead_of_ne (fun m hm => by cases hnext.symm.trans hm)
      (fun m hm => by cases hnext.symm.trans hm)
  · apply ahead_of_channels hnext
    intro hi b hb
    have hall : s.transports.take n = s.transports :=
      List.take_of_length_le (List.getElem?_eq_none_iff.1 hend)
    exact (h.masked hmask).transports hphase hi b (hall.symm ▸ hb)

theorem Isolated.setChan (h : s.Isolated i) {j : ℕ} {base : IoBase}
    (hstate : base.state = (s.chan j).state)
    (hmask : j = i → base.opOpen = true → (s.chan i).opOpen = true ∨ s.Ahead i) :
    (s.setChan j base).Isolated i := by
  by_cases hij : j = i
  · subst hij
    have hchan : (s.setChan j base).chan j = base := Function.update_self _ _ _
    refine h.of_apart { Apart.refl j s with } h.ops h.kind ?_ ?_
    · rw [hchan, hstate]
    · rw [hchan]
      exact fun hopen => (hmask rfl hopen).elim h.masked id
  · have hchan : (s.setChan j base).chan i = s.chan i := Function.update_of_ne (Ne.symm hij) _ _
    refine h.of_apart { Apart.refl i s with } h.ops h.kind ?_ ?_
    · rw [hchan]
    · rw [hchan]
      exact h.masked

theorem opOpen_closedChan {j : ℕ} (h : (s.closedChan j).opOpen = true) :
    (s.chan j).opOpen = true := by
  unfold closedChan at h
  split at h
  · exact h
  · cases h

theorem Isolated.openInsert (h : s.Isolated i) {n : ℕ} (hlocked : s.opsLocked = false)
    (hcond : (s.opening n).1 = i → (s.chan i).opOpen = true →
      ∀ b ∈ s.passed, (s.built b).ctx ≠ i) : (s.openInsert n).Isolated i := by
  refine h.of_apart { Apart.refl i s with } ?_ h.kind rfl fun hmask => ?_
  · change (if (s.opening n).1 ∈ s.channelOps then s.channelOps
      else s.channelOps ++ [(s.opening n).1]).Nodup
    split
    · exact h.ops
    · next hmem =>
      exact List.Nodup.append h.ops (List.nodup_singleton _) (List.disjoint_singleton.2 hmem)
  · have hopen : (s.chan i).opOpen = true := hmask
    cases hphase : s.phase with
    | transports m =>
      apply ahead_of_transports (s := s.openInsert n) hphase
      intro hi b hb
      by_cases hin : (s.opening n).1 = i
      · apply hcond hin hopen b
        unfold passed
        rw [hphase]
        exact hb
      · refine (h.masked hopen).transports hphase ?_ b hb
        change i ∈ (if (s.opening n).1 ∈ s.channelOps then s.channelOps
          else s.channelOps ++ [(s.opening n).1]) at hi
        split at hi
        · exact hi
        · rcases List.mem_append.1 hi with hi | hi
          · exact hi
          · exact absurd (List.mem_singleton.1 hi).symm hin
    | channels m => simp [opsLocked, hphase] at hlocked
    | _ =>
      refine ahead_of_ne (s := s.openInsert n) ?_ ?_ <;>
        exact fun m hm => by cases hphase.symm.trans hm

theorem Reopened.effect (h : s.Reopened i) {a : Action} (henabled : s.enabled a = true)
    (hcond : OpensAhead i s a) (hclient : OpensClient i a) :
    (s.effect inetPton a).Reopened i := by
  refine ⟨h.toOrderly.effect henabled, ?_⟩
  have hiso := h.isolated
  cases a with
  | transport a =>
    obtain ⟨n, hn, ⟨hend, heq⟩ | ⟨b, hb, heq⟩⟩ := transport_cases inetPton henabled
    · exact heq ▸ hiso.endTransports hn hend
    · exact heq ▸ hiso.visitTransport h.sound hn hb a
  | channel a =>
    obtain ⟨n, hn, ⟨-, heq⟩ | ⟨j, hj, heq⟩⟩ := channel_cases inetPton henabled
    · rw [heq]
      exact hiso.of_apart { Apart.refl i s with } hiso.ops hiso.kind rfl fun _ =>
        ahead_of_ne (fun _ h => by cases h) (fun _ h => by cases h)
    · rw [heq]
      by_cases hij : j = i
      · subst hij
        exact hiso.visitSelf h.sound hn hj a
      · exact hiso.visitOther h.sound hn hij a
  | timer again =>
    obtain ⟨n, hn, heq⟩ := timer_cases inetPton henabled
    exact heq ▸ hiso.timerTurn hn (exists_timerTurn n again)
  -- The worker moves to another phase: only what a mask still waits for has to be checked.
  | start =>
    refine hiso.of_apart { Apart.refl i s with } hiso.ops hiso.kind rfl fun _ => ?_
    exact ahead_of_ne (fun _ h => by cases h) (fun _ h => by cases h)
  | join =>
    obtain ⟨events, heq, -⟩ := s.exists_join
    dsimp only [Service.effect]
    rw [heq]
    refine hiso.of_apart { Apart.refl i s with } hiso.ops hiso.kind rfl fun _ => ?_
    exact ahead_of_ne (fun _ h => by cases h) (fun _ h => by cases h)
  | frame now =>
    refine hiso.of_apart { Apart.refl i s with } hiso.ops hiso.kind rfl fun _ => ?_
    have hnext : (s.beginFrame now).phase =
        if 0 < s.getTimeout now then .polling else .transports 0 := rfl
    split at hnext
    · exact ahead_of_ne (fun m hm => by cases hnext.symm.trans hm)
        (fun m hm => by cases hnext.symm.trans hm)
    · exact ahead_of_transports hnext fun _ _ hb => absurd hb List.not_mem_nil
  | poll answer =>
    refine hiso.of_apart { Apart.refl i s with } hiso.ops hiso.kind rfl fun _ => ?_
    cases answer with
    | none => exact ahead_nextPhase (s := s.poll none) rfl
    | some answer =>
      exact ahead_of_transports (s := s.poll (some answer)) (m := 0) rfl
        fun _ _ hb => absurd hb List.not_mem_nil
  | endEvents =>
    refine hiso.of_apart { Apart.refl i s with } hiso.ops hiso.kind rfl fun _ => ?_
    exact ahead_nextPhase (s := s.endEvents) rfl
  | beginDispatch count =>
    refine hiso.of_apart { Apart.refl i s with } hiso.ops hiso.kind rfl fun hmask => ?_
    have hnext : (s.beginDispatch count).phase =
        if s.phase = .events false then .events true else s.phase := rfl
    split at hnext
    · exact ahead_of_ne (fun m hm => by cases hnext.symm.trans hm)
        (fun m hm => by cases hnext.symm.trans hm)
    · exact (ahead_congr hnext rfl rfl).2 (hiso.masked hmask)
  -- Only an open of this channel changes its kind, and the condition makes it a client.
  | openKind j kind =>
    refine hiso.of_apart { Apart.refl i s with } hiso.ops ?_ rfl hiso.masked
    intro hne
    change testbits (update s.kind j kind i) Ycm.client = false at hne
    change testbits (update s.kind j kind i) Ycm.server = false
    by_cases hij : j = i
    · subst hij
      rw [Function.update_self] at hne
      exact absurd (hne.symm.trans (hclient rfl)) Bool.false_ne_true
    · rw [Function.update_of_ne (Ne.symm hij)] at hne ⊢
      exact hiso.kind hne
  -- The flag is raised here, so the condition has to supply what the masked channel needs.
  | openMask n =>
    have hset : (s.setChan (s.opening n).1
        { s.chan (s.opening n).1 with opClose := false, opOpen := true }).Isolated i :=
      hiso.setChan rfl fun hn _ => .inr (hcond hn)
    exact hset.of_apart { Apart.refl i _ with } hset.ops hset.kind rfl hset.masked
  | openInsert n =>
    have hlocked : s.opsLocked = false := by
      simp only [enabled, Bool.and_eq_true, Bool.not_eq_true'] at henabled
      exact henabled.2
    exact hiso.openInsert hlocked hcond
  -- A close never raises the open flag.
  | closeChannel j =>
    apply hiso.setChan (state_closedChan s j)
    rintro rfl hmask
    exact .inl (opOpen_closedChan hmask)
  | stop =>
    refine hiso.of_apart { Apart.refl i s with } hiso.ops hiso.kind ?_ fun hmask => ?_
    · change (if s.stopFlag ∨ s.phase = .exiting ∨ s.phase = .stopping ∨ s.channelCount ≤ i
        then s.chan i else s.closedChan i).state = _
      split
      · rfl
      · exact state_closedChan s i
    · refine hiso.masked ?_
      change (if s.stopFlag ∨ s.phase = .exiting ∨ s.phase = .stopping ∨ s.channelCount ≤ i
        then s.chan i else s.closedChan i).opOpen = true at hmask
      split at hmask
      · exact hmask
      · exact opOpen_closedChan hmask
  | answer n result =>
    cases result with
    | ok result =>
      exact hiso.of_apart { Apart.refl i s with } hiso.ops hiso.kind rfl hiso.masked
    | error error =>
      have hqueries : ({ s with queries := s.queries.eraseIdx n } : Service).Isolated i :=
        hiso.of_apart { Apart.refl i s with } hiso.ops hiso.kind rfl hiso.masked
      refine hqueries.setChan rfl ?_
      rintro hn hopen
      exact .inl (hn ▸ hopen)
  | closeTransport b =>
    refine hiso.of_apart { Apart.refl i s with io := fun b' _ => ?_ } hiso.ops hiso.kind rfl
      hiso.masked
    change (update s.io b { s.io b with opClose := true } b').state = _
    by_cases hb : b' = b
    · subst hb
      rw [Function.update_self]
    · rw [Function.update_of_ne hb]
  | udpConnect b ok =>
    obtain ⟨udp, sockPeer, heq, -⟩ := s.exists_udpConnect b ok
    dsimp only [Service.effect]
    rw [heq]
    exact hiso.of_apart { Apart.refl i s with } hiso.ops hiso.kind rfl hiso.masked
  | cancelTimer n =>
    obtain ⟨timers, heq⟩ := s.exists_cancelTimer (.user n)
    dsimp only [Service.effect]
    rw [heq]
    exact hiso.of_apart { Apart.refl i s with } hiso.ops hiso.kind rfl hiso.masked
  | finishStop =>
    dsimp only [Service.effect]
    rw [h.toOrderly.finishStop_eq henabled]
    refine hiso.of_apart { Apart.refl i s with } hiso.ops hiso.kind rfl fun _ => ?_
    exact ahead_of_ne (fun _ h => by cases h) (fun _ h => by cases h)
  | _ => exact hiso.of_apart { Apart.refl i s with } hiso.ops hiso.kind rfl hiso.masked

theorem reopened_fresh {channelCount : ℕ} (hi : i < channelCount) (options : Options)
    (uparams : ℕ → UnpackParams) : (Service.fresh channelCount options uparams).Reopened i := by
  refine ⟨orderly_fresh channelCount options uparams, ?_⟩
  refine ⟨hi, List.nodup_nil, fun _ => ?_, ?_, ?_, nofun, ?_, nofun, nofun⟩
  · exact (by decide : testbits 0 Ycm.server = false)
  · exact fun b hb => nomatch hb.1
  · exact fun b b' hb => nomatch hb.1
  · exact fun b hb => nomatch hb.1

end Service

/-- A new attempt of a client channel finds no transport of it and no connection whose loss was not
announced; at most one transport of the channel lives, and its socket has not been opened again. -/
theorem reopen_of_run {inetPton : Host → Option Ip} {channelCount : ℕ} {options : Options}
    {uparams : ℕ → UnpackParams} {as : List Action} {s : Service} {i : ℕ} (hi : i < channelCount)
    (hclient : ∀ a ∈ as, OpensClient i a)
    (hrun : Machine.run (step inetPton) as (.fresh channelCount options uparams) = some s)
    (hcond : Machine.Meets (step inetPton) (OpensAhead i) as
      (.fresh channelCount options uparams)) :
    (∀ x ∈ s.attempts, x.channel = i → x.left = [] ∧ x.unclosed = []) ∧
      (∀ b ∈ s.transports, ∀ b' ∈ s.transports,
        (s.built b).ctx = i → (s.built b').ctx = i → b = b') ∧
      ∀ b ∈ s.transports, (s.built b).ctx = i →
        (s.built b).sock = i ∧ (s.built b).gen = s.gen i := by
  have h : s.Reopened i := by
    refine Machine.invariant_of_meets (I := fun s => Service.Reopened s i) ?_ ?_
      (hcond.and_of_forall hclient) hrun
    · intro s a s' hs hcond hstep
      obtain ⟨henabled, rfl⟩ := step_eq_some.1 hstep
      exact hs.effect henabled hcond.1 hcond.2
    · exact Service.reopened_fresh hi options uparams
  refine ⟨h.isolated.attempts, ?_, ?_⟩
  · exact fun b hb b' hb' hctx hctx' => h.isolated.one b b' ⟨hb, hctx⟩ ⟨hb', hctx'⟩
  · exact fun b hb hctx => h.isolated.socket b ⟨hb, hctx⟩

/-- Channel 0 is opened again between two frames, and connects on the descriptor 6. -/
def reopenZero : List Action :=
  [.openKind 0 Yck.tcpClient, .openTest 0, .openMask 0, .openInsert 0, .frame 2,
    .poll (some fun _ => {}), .transport {}, .transport {}, .channel { socket := .ok 6 }]

theorem reopen_of_run_reopenZero :
    ∃ s, Machine.run (step fun _ => some (.v4 1)) (connectFirst ++ reopenZero)
        (.fresh 1 { noDispatch := true } fun _ => {}) = some s ∧
      (s.attempts.length = 2 ∧ s.transports ≠ []) ∧
        ∀ x ∈ s.attempts, x.channel = 0 → x.left = [] ∧ x.unclosed = [] := by
  obtain ⟨s, hrun, hs⟩ := Machine.exists_of_any (step fun _ => some (.v4 1))
    (connectFirst ++ reopenZero) (.fresh 1 { noDispatch := true } fun _ => {})
    (fun s => s.attempts.length = 2 ∧ s.transports ≠ []) (by decide +kernel)
  exact ⟨s, hrun, hs,
    (reopen_of_run Nat.zero_lt_one (by decide +kernel) hrun (by decide +kernel)).1⟩

/-- The channel is opened again in a frame that has passed its transport: two transports live on its
socket, the first of them on one that was opened for the second. -/
theorem two_transports_after_reopen :
    ∃ s, Machine.run (step fun _ => some (.v4 1))
        (connectFirst ++
          [.frame 2, .poll (some fun _ => {}), .transport {}, .openKind 0 Yck.tcpClient,
            .openTest 0, .openMask 0, .openInsert 0, .transport {},
            .channel { socket := .ok 6 }])
        (.fresh 1 { noDispatch := true } fun _ => {}) = some s ∧
      s.attempts.map Attempt.left = [[], [0]] ∧ s.transports = [0, 1] ∧
        (∀ b ∈ s.transports, (s.built b).ctx = 0 ∧ (s.built b).sock = 0) ∧
          (s.built 0).gen < s.gen 0 :=
  Machine.exists_of_any _ _ _ _ (by decide +kernel)

end Yasio
