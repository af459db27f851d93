import Yasio.Service.SocketMoves

/-!
# Writing through the handle of an event

An event names its transport by the block.  What is written through it goes to the connection of
the event as long as no block is taken from `tpool_` that an event still waiting names, and no
channel opens its socket object again while a transport lives that shares it.
-/

namespace Yasio

open Function (update)

namespace Service

/-- The events that wait, and the one that is handled. -/
def pending (s : Service) : List Event := s.queue ++ s.deal ++ s.handling.toList

/-- The blocks that events name, and the operations that wait in them, belong to the connections
that these are for. -/
structure Trace (s : Service) : Prop where
  pending : ∀ e ∈ s.pending, ∀ b ∈ e.transport,
    b < s.nextBlock ∧ (s.built b).id = e.sourceId
  map : ∀ e ∈ s.transportMap, e.2 < s.nextBlock
  queued : ∀ b, ∀ op ∈ (s.tx b).sendQueue, ∀ o ∈ op.origin, (s.built b).id = o
  sent : ∀ x ∈ s.sent, ∀ o ∈ x.origin, x.id = some o

variable {s s' : Service} {inetPton : Host → Option Ip} {b : Block} {i : ℕ}

theorem mem_pending_of_fires {es : List Event}
    (hevents : s'.toEvents = { s.toEvents with queue := s'.queue })
    (hqueue : s'.queue = s.queue ++ es) {e : Event} (he : e ∈ s'.pending) :
    e ∈ s.pending ∨ e ∈ es := by
  have hdeal : s'.deal = s.deal := by rw [show s'.deal = s'.toEvents.deal from rfl, hevents]
  have hhandling : s'.handling = s.handling := by
    rw [show s'.handling = s'.toEvents.handling from rfl, hevents]
  simp only [Service.pending, hdeal, hhandling, hqueue, List.mem_append] at he ⊢
  tauto

/-- Events that only change hands stay pending. -/
theorem mem_pending_of_deal (hdeal : s'.deal ++ s'.queue = s.deal ++ s.queue)
    (hhandling : s'.handling = s.handling) : ∀ e ∈ s'.pending, e ∈ s.pending := by
  intro e he
  have hmem : e ∈ s'.deal ++ s'.queue ↔ e ∈ s.deal ++ s.queue := by rw [hdeal]
  simp only [Service.pending, hhandling, List.mem_append] at he hmem ⊢
  tauto

/-- Events of the transports that they name, in a state that keeps what the blocks are. -/
theorem Trace.of_fires (h : s.Trace) (es : List Event)
    (hevents : s'.toEvents = { s.toEvents with queue := s'.queue })
    (hqueue : s'.queue = s.queue ++ es) (hbuilt : s'.built = s.built)
    (hnext : s'.nextBlock = s.nextBlock) (hmap : ∀ e ∈ s'.transportMap, e ∈ s.transportMap)
    (hes : ∀ e ∈ es, ∀ b ∈ e.transport, b < s.nextBlock ∧ (s.built b).id = e.sourceId)
    (hqueued : ∀ b, ∀ op ∈ (s'.tx b).sendQueue, ∀ o ∈ op.origin, (s.built b).id = o)
    (hsent : ∀ x ∈ s'.sent, ∀ o ∈ x.origin, x.id = some o) : s'.Trace := by
  refine ⟨?_, ?_, ?_, hsent⟩
  · rw [hbuilt, hnext]
    intro e he
    rcases mem_pending_of_fires hevents hqueue he with he | he
    · exact h.pending e he
    · exact hes e he
  · rw [hnext]
    exact fun e he => h.map e (hmap e he)
  · rw [hbuilt]
    exact hqueued

/-! ## Turns -/

theorem Trace.touched (h : s.Trace) (hb : b < s.nextBlock)
    (hown : s.connection b = some (s.built b).id) (ht : Touched b s s') : s'.Trace := by
  obtain ⟨es, hqueue, -, hes⟩ := ht.fires
  refine h.of_fires es ht.events hqueue (congrArg Pool.built ht.pool)
    (congrArg Pool.nextBlock ht.pool) (fun e he => ht.pool ▸ he) ?_ ?_ ?_
  · intro e he b' hb'
    obtain ⟨rfl, hid, -⟩ := (hes e he).2 b' hb'
    exact ⟨hb, hid.symm⟩
  · intro b' op hop o ho
    by_cases hbb : b' = b
    · subst hbb
      obtain ⟨op', hop', horigin⟩ := ht.queued op hop
      exact h.queued b' op' hop' o (horigin ▸ ho)
    · rw [ht.tx b' hbb] at hop
      exact h.queued b' op hop o ho
  · intro x hx o ho
    rcases ht.sent x hx with hx | ⟨hid, op, hop, horigin⟩
    · exact h.sent x hx o ho
    · rw [hid, hown, h.queued b op hop o (horigin ▸ ho)]

theorem Trace.dropTransport (h : s.Trace) (hb : b < s.nextBlock) (n tail : ℕ) :
    (s.dropTransport n b tail).Trace := by
  obtain ⟨chan, io, sockets, heq, -⟩ := s.exists_dropTransport n b tail
  have htx : (s.dropTransport n b tail).tx = update s.tx b {} := by rw [heq]
  have hmap : (s.dropTransport n b tail).transportMap =
      if testbits (s.kind (s.built b).ctx) Ycm.udp then
        s.transportMap.erase (s.remoteEndpoint b tail)
      else s.transportMap := by
    rw [heq]
    rfl
  refine h.of_fires (s.closeEvents b) ?_ ?_ ?_ ?_ ?_ ?_ ?_ ?_
  · rw [heq]
    rfl
  · rw [heq]
    rfl
  · rw [heq]
    rfl
  · rw [heq]
    rfl
  · intro e he
    rw [hmap] at he
    split at he
    · exact (PeerMap.mem_erase.1 he).1
    · exact he
  · intro e he
    unfold closeEvents at he
    split at he
    · obtain rfl := List.mem_singleton.1 he
      intro b' hb'
      obtain rfl := Option.some.inj hb'
      exact ⟨hb, rfl⟩
    · cases he
  · intro b' op hop
    rw [htx] at hop
    by_cases hbb : b' = b
    · subst hbb
      rw [Function.update_self] at hop
      cases hop
    · rw [Function.update_of_ne hbb] at hop
      exact h.queued b' op hop
  · rw [heq]
    exact h.sent

theorem Trace.quiet (h : s.Trace) (hq : Quiet inetPton i s s') : s'.Trace := by
  obtain ⟨es, hqueue, -, hes⟩ := hq.frame.fires
  refine h.of_fires es hq.frame.events hqueue (congrArg Pool.built hq.frame.pool)
    (congrArg Pool.nextBlock hq.frame.pool) (fun e he => hq.frame.pool ▸ he) ?_ ?_ ?_
  · intro e he b hb
    rw [(hes e he).2] at hb
    cases hb
  · rw [hq.frame.contents]
    exact h.queued
  · rw [hq.frame.sent]
    exact h.sent

theorem Trace.received (h : s.Trace) (hb : b < s.nextBlock) (hr : Received i b s s') :
    s'.Trace := by
  obtain ⟨es, hqueue, -, hes⟩ := hr.fires
  refine h.of_fires es hr.events hqueue (congrArg Pool.built hr.pool)
    (congrArg Pool.nextBlock hr.pool) (fun e he => hr.pool ▸ he) ?_ ?_ ?_
  · intro e he b' hb'
    obtain ⟨-, htransport, hid⟩ := hes e he
    obtain rfl := Option.some.inj (htransport.symm.trans hb')
    exact ⟨hb, hid.symm⟩
  · rw [hr.tx]
    exact h.queued
  · rw [hr.sent]
    exact h.sent

/-- A connection on a block that no waiting event names. -/
theorem Trace.connected (h : s.Trace) (hc : Connected i s.freshBlock s s')
    (hfree : ∀ e ∈ s.pending, e.transport ≠ some s.freshBlock)
    (hbuilt : ∀ b, b ≠ s.freshBlock → s'.built b = s.built b)
    (hnext : s.nextBlock ≤ s'.nextBlock) (hfresh : s.freshBlock < s'.nextBlock)
    (hmap : ∀ e ∈ s'.transportMap, e ∈ s.transportMap ∨ e.2 = s.freshBlock) : s'.Trace := by
  obtain ⟨es, hqueue, -, hes⟩ := hc.fires
  refine ⟨?_, ?_, ?_, ?_⟩
  · intro e he b hb
    rcases mem_pending_of_fires hc.events hqueue he with he | he
    · obtain ⟨hlt, hid⟩ := h.pending e he b hb
      have hne : b ≠ s.freshBlock := by
        rintro rfl
        exact hfree e he hb
      exact ⟨hlt.trans_le hnext, by rw [hbuilt b hne, hid]⟩
    · obtain ⟨-, htransport, hid, -⟩ := hes e he
      obtain rfl := Option.some.inj (htransport.symm.trans hb)
      exact ⟨hfresh, hid.symm⟩
  · intro e he
    rcases hmap e he with he | he
    · exact (h.map e he).trans_le hnext
    · exact he ▸ hfresh
  · intro b op hop
    rw [hc.tx] at hop
    by_cases hb : b = s.freshBlock
    · subst hb
      rw [Function.update_self] at hop
      cases hop
    · rw [Function.update_of_ne hb] at hop
      rw [hbuilt b hb]
      exact h.queued b op hop
  · rw [hc.sent]
    exact h.sent

/-- The next block is named by no event that waits. -/
def Unnamed (s : Service) : Prop := ∀ e ∈ s.pending, e.transport ≠ some s.freshBlock

theorem Trace.unnamed_of_new (h : s.Trace) (hnil : s.tpool = []) : s.Unnamed := by
  intro e he hb
  have hlt := (h.pending e he _ hb).1
  simp [Pool.freshBlock, hnil] at hlt

theorem Unnamed.quiet (h : s.Unnamed) (hq : Quiet inetPton i s s') : s'.Unnamed := by
  obtain ⟨es, hqueue, -, hes⟩ := hq.frame.fires
  intro e he
  rw [hq.frame.pool]
  rcases mem_pending_of_fires hq.frame.events hqueue he with he | he
  · exact h e he
  · rw [(hes e he).2]
    exact nofun

theorem Trace.establish (h : s.Trace) (hp : s.toPool.Sound) (hfree : s.Unnamed) (k : SockId)
    (interval : ℕ) (ok : Bool) : (s.establish i k interval ok).Trace := by
  have hpool := s.toPool_establish (i := i) k interval ok
  refine h.connected (connected_establish k interval ok) hfree ?_ ?_ ?_ ?_
  · rw [hpool]
    exact fun b hb => Pool.built_connect_of_ne _ hb
  · rw [hpool]
    exact Pool.nextBlock_le_connect _
  · rw [hpool]
    exact hp.freshBlock_lt _
  · rw [hpool]
    exact fun e he => .inl he

theorem Trace.acceptPeer (h : s.Trace) (hp : s.toPool.Sound) (hfree : s.Unnamed)
    (peer : Endpoint) (fd : Fd) (a : ChannelAnswers) : (s.acceptPeer i peer fd a).Trace := by
  have hpool := s.toPool_acceptPeer (i := i) peer fd a
  refine h.connected (connected_acceptPeer peer fd a) hfree ?_ ?_ ?_ ?_
  · rw [hpool]
    exact fun b hb => Pool.built_connect_of_ne _ hb
  · rw [hpool]
    exact Pool.nextBlock_le_connect ((s.newSock fd .unspec).newBuilt i s.nextSock a.interval)
  · rw [hpool]
    exact hp.freshBlock_lt ((s.newSock fd .unspec).newBuilt i s.nextSock a.interval)
  · rw [hpool]
    intro e he
    rcases PeerMap.mem_emplace.1 he with he | rfl
    · exact .inl he
    · exact .inr rfl

theorem Trace.visitChannel (h : s.Trace) (hp : s.toPool.Sound) {n : ℕ} {a : ChannelAnswers}
    (hfree : (s.visitChannel inetPton n i a).tpool ≠ s.tpool →
      ∀ b ∈ s.tpool.head?, ∀ e ∈ s.pending, e.transport ≠ some b) :
    (s.visitChannel inetPton n i a).Trace := by
  obtain ⟨t, hturn, ht⟩ := s.exists_channelTurn inetPton n i a
  have htpool : (s.visitChannel inetPton n i a).tpool = t.tpool := by
    rcases ht with ht | ht <;> rw [ht]
  -- A recycled block must not be named by an event that still waits; a new one cannot be.
  have hunnamed : t.tpool = s.tpool.tail → s.Unnamed := by
    intro htail
    cases hnil : s.tpool with
    | nil => exact h.unnamed_of_new hnil
    | cons b bs =>
      have hb : s.freshBlock = b := by simp [Pool.freshBlock, hnil]
      unfold Unnamed
      rw [hb]
      refine hfree ?_ b (by simp [hnil])
      rw [htpool, htail, hnil]
      exact fun heq => List.cons_ne_self b bs heq.symm
  have htrace : t.Trace := by
    cases hturn with
    | quiet hq => exact h.quiet hq
    | @connect s₁ _ hq ok hq' =>
      have hfree₁ : s.Unnamed := hunnamed (by
        rw [show t.tpool = t.toPool.tpool from rfl, hq'.frame.pool, toPool_establish,
          hq.frame.pool]
        rfl)
      exact ((h.quiet hq).establish (hq.frame.pool ▸ hp) (hfree₁.quiet hq) i a.interval ok).quiet
        hq'
    | @accept s₁ hq fd hfd hkind =>
      have hfree₁ : s.Unnamed := hunnamed (by
        rw [← hq.frame.pool, toPool_establish]
        rfl)
      have hnew : (s₁.newSock fd a.acceptPeer).Trace :=
        ⟨(h.quiet hq).pending, (h.quiet hq).map, (h.quiet hq).queued, (h.quiet hq).sent⟩
      have hsound : s₁.toPool.Sound := hq.frame.pool ▸ hp
      have hfree₂ : s₁.Unnamed := hfree₁.quiet hq
      exact hnew.establish hsound hfree₂ _ a.interval true
    -- No socket for the peer: the datagram is dropped.
    | lost hq htakes hfind hgranted =>
      have hs₁ := h.quiet hq
      exact ⟨hs₁.pending, hs₁.map, hs₁.queued, hs₁.sent⟩
    | @datagram s₁ hq htakes b hfind =>
      have hs₁ := h.quiet hq
      obtain ⟨k, hentry, -⟩ := PeerMap.exists_mem_of_find hfind
      have hdeliver : (s₁.deliver i a.peer b).Trace :=
        ⟨hs₁.pending, hs₁.map, hs₁.queued, hs₁.sent⟩
      exact hdeliver.received (hs₁.map _ hentry) (received_handleInput (i := i) b _ _)
    | @newPeer s₁ hq htakes fd hfind hfd =>
      have hpool := s₁.toPool_acceptPeer (i := i) a.peer fd a
      have hfree₁ : s.Unnamed := hunnamed (by
        rw [(received_handleInput (i := i) s₁.freshBlock _ _).pool, ← hq.frame.pool]
        exact congrArg Pool.tpool hpool)
      have hsound : s₁.toPool.Sound := hq.frame.pool ▸ hp
      have hs₁ := (h.quiet hq).acceptPeer (i := i) hsound (hfree₁.quiet hq) a.peer fd a
      have hdeliver : ((s₁.acceptPeer i a.peer fd a).deliver i a.peer s₁.freshBlock).Trace :=
        ⟨hs₁.pending, hs₁.map, hs₁.queued, hs₁.sent⟩
      refine hdeliver.received ?_ (received_handleInput (i := i) s₁.freshBlock _ _)
      rw [show ((s₁.acceptPeer i a.peer fd a).deliver i a.peer s₁.freshBlock).nextBlock =
        (s₁.acceptPeer i a.peer fd a).toPool.nextBlock from rfl, hpool]
      exact hsound.freshBlock_lt ((s₁.newSock fd .unspec).newBuilt i s₁.nextSock a.interval)
  rcases ht with ht | ht <;> rw [ht] <;>
    exact ⟨htrace.pending, htrace.map, htrace.queued, htrace.sent⟩

theorem Trace.visitTransport (h : s.Trace) (hb : b < s.nextBlock)
    (hown : s.connection b = some (s.built b).id) (n : ℕ) (a : TransportAnswers) :
    (s.visitTransport n b a).Trace := by
  obtain ⟨s', hs, hend⟩ := s.exists_turnEnd (b := b) n a
  have htouched := (s.touched_atRead (b := b) a).trans hs.toTouched
  have hs' : s'.Trace := h.touched hb hown htouched
  generalize s.visitTransport n b a = t at hend
  cases hend with
  | thrown => exact ⟨hs'.pending, hs'.map, hs'.queued, hs'.sent⟩
  | kept hasked => exact ⟨hs'.pending, hs'.map, hs'.queued, hs'.sent⟩
  | dropped => exact hs'.dropTransport (by rw [htouched.pool]; exact hb) n a.tail

/-! ## The sockets of the live transports -/

/-- A live transport has the socket that it was built on. -/
def OwnSockets (s : Service) : Prop :=
  ∀ b ∈ s.transports, s.gen (s.built b).sock = (s.built b).gen

theorem OwnSockets.connection (h : s.OwnSockets) (hb : b ∈ s.transports) :
    s.connection b = some (s.built b).id := if_pos (h b hb)

theorem OwnSockets.of_same (h : s.OwnSockets) (hpool : s'.toPool = s.toPool)
    (hgen : s'.gen = s.gen) : s'.OwnSockets := by
  unfold OwnSockets
  rw [hpool, hgen]
  exact h

theorem OwnSockets.visitTransport (h : s.OwnSockets) (n : ℕ) (b : Block) (a : TransportAnswers) :
    (s.visitTransport n b a).OwnSockets := by
  obtain ⟨s', hs, hend⟩ := s.exists_turnEnd (b := b) n a
  have htouched := (s.touched_atRead (b := b) a).trans hs.toTouched
  have hs' : s'.OwnSockets := h.of_same htouched.pool htouched.gen_eq
  generalize s.visitTransport n b a = t at hend
  cases hend with
  | thrown => exact hs'
  | kept hasked => exact hs'
  | dropped =>
    have hgen := (s'.dropTransport_frame n b a.tail).1
    obtain ⟨chan, io, sockets, heq, -⟩ := s'.exists_dropTransport n b a.tail
    have hsub : ∀ b' ∈ (s'.dropTransport n b a.tail).transports, b' ∈ s'.transports := by
      rw [heq]
      exact fun b' hb' => (List.eraseIdx_sublist _ _).subset hb'
    have hbuilt : (s'.dropTransport n b a.tail).built = s'.built := by
      rw [heq]
      rfl
    unfold OwnSockets
    rw [hgen, hbuilt]
    exact fun b' hb' => hs' b' (hsub b' hb')

/-- A turn of a channel that does not open the sockets of live transports. -/
theorem OwnSockets.visitChannel (h : s.OwnSockets) (hp : s.toPool.Sound) {n : ℕ}
    {a : ChannelAnswers}
    (hkept : ∀ b ∈ s.transports,
      (s.visitChannel inetPton n i a).gen (s.built b).sock = s.gen (s.built b).sock) :
    (s.visitChannel inetPton n i a).OwnSockets := by
  rcases s.joined_visitChannel (i := i) inetPton n a with ⟨hpool, -⟩ | ⟨built, hbuilt, hjoined⟩
  · unfold OwnSockets
    rw [hpool]
    exact fun b hb => (hkept b hb).trans (h b hb)
  · intro b hb
    rw [hjoined.transports, List.mem_append, List.mem_singleton] at hb
    rcases hb with hb | rfl
    · rw [hjoined.other b (hp.ne_freshBlock hb)]
      exact (hkept b hb).trans (h b hb)
    · rw [hjoined.sock, hjoined.gen, hbuilt.gen]

/-! ## Steps -/

/-- A step of `process_channels` takes a block from `tpool_`. -/
def reuses (inetPton : Host → Option Ip) (s : Service) (a : ChannelAnswers) : Bool :=
  (s.effect inetPton (.channel a)).tpool ≠ s.tpool

/-- A step of `process_channels` opens this socket object. -/
def opensSock (inetPton : Host → Option Ip) (s : Service) (a : ChannelAnswers) (k : SockId) :
    Bool :=
  (s.effect inetPton (.channel a)).gen k ≠ s.gen k

end Service

/-- A block is taken from `tpool_` only if no event that waits names it, and the socket of a channel
is opened only if no live transport shares it. -/
def HandlesKept (inetPton : Host → Option Ip) (s : Service) : Action → Prop
  | .channel a =>
    (s.reuses inetPton a = true →
        ∀ b ∈ s.tpool.head?, ∀ e ∈ s.pending, e.transport ≠ some b) ∧
      ∀ b ∈ s.transports, s.opensSock inetPton a (s.built b).sock = false
  | _ => True

instance (inetPton : Host → Option Ip) (s : Service) (a : Action) :
    Decidable (HandlesKept inetPton s a) := by
  unfold HandlesKept
  induction a using Action.casesOn <;> infer_instance

/-- The invariant of the handles. -/
structure Service.Traced (s : Service) : Prop extends s.Placed where
  trace : s.Trace
  own : s.OwnSockets

namespace Service

variable {s s' : Service} {inetPton : Host → Option Ip}

/-- What the dispatching thread does with the events. -/
theorem Trace.of_pending (h : s.Trace) (hpending : ∀ e ∈ s'.pending, e ∈ s.pending)
    (hpool : s'.toPool = s.toPool) (htx : s'.tx = s.tx) (hsent : s'.sent = s.sent) : s'.Trace := by
  refine ⟨?_, ?_, ?_, hsent ▸ h.sent⟩
  · rw [hpool]
    exact fun e he => h.pending e (hpending e he)
  · rw [hpool]
    exact h.map
  · rw [hpool, htx]
    exact h.queued

theorem Trace.enqueue (h : s.Trace) {b : Block} {data : List UInt8} {dest : Option Endpoint}
    {origin : Option ℕ} (horigin : ∀ o ∈ origin, (s.built b).id = o) :
    (s.enqueue b (s.sendOp b data dest origin) dest).Trace := by
  refine ⟨h.pending, h.map, ?_, h.sent⟩
  intro b' op hop o ho
  by_cases hb : b' = b
  · subst hb
    have hmem : op ∈ (s.tx b').sendQueue ++ [s.sendOp b' data dest origin] := by
      simpa [Service.enqueue] using hop
    rcases List.mem_append.1 hmem with hop | hop
    · exact h.queued b' op hop o ho
    · obtain rfl := List.mem_singleton.1 hop
      exact horigin o ho
  · have hmem : op ∈ (s.tx b').sendQueue := by simpa [Service.enqueue, hb] using hop
    exact h.queued b' op hmem o ho

theorem OwnSockets.effect (h : s.OwnSockets) (hplaced : s.Placed) {a : Action}
    (henabled : s.enabled a = true) (hcond : HandlesKept inetPton s a) :
    (s.effect inetPton a).OwnSockets := by
  cases a with
  | transport a =>
    obtain ⟨n, -, ⟨-, heq⟩ | ⟨b, -, heq⟩⟩ := transport_cases inetPton henabled
    · rw [heq]
      exact h.of_same rfl rfl
    · rw [heq]
      exact h.visitTransport n b a
  | channel a =>
    have hkept : ∀ b ∈ s.transports,
        (s.effect inetPton (.channel a)).gen (s.built b).sock = s.gen (s.built b).sock :=
      fun b hb => not_not.1 (of_decide_eq_false (hcond.2 b hb))
    obtain ⟨n, -, ⟨-, heq⟩ | ⟨i, -, heq⟩⟩ := channel_cases inetPton henabled
    · rw [heq]
      exact h.of_same rfl rfl
    · rw [heq] at hkept ⊢
      exact h.visitChannel hplaced.sound hkept
  | timer again =>
    obtain ⟨n, -, heq⟩ := timer_cases inetPton henabled
    have hturn := exists_timerTurn (s := s) n again
    rw [heq]
    generalize s.processTimer n again = t at hturn
    cases hturn with
    | ends | userDone | userAgain | late | timeout => exact h.of_same rfl rfl
  | udpConnect b ok =>
    obtain ⟨udp, sockPeer, heq, -⟩ := s.exists_udpConnect b ok
    dsimp only [Service.effect]
    rw [heq]
    exact h.of_same rfl rfl
  | cancelTimer n =>
    obtain ⟨timers, heq⟩ := s.exists_cancelTimer (.user n)
    dsimp only [Service.effect]
    rw [heq]
    exact h.of_same rfl rfl
  | join =>
    obtain ⟨events, heq, -⟩ := s.exists_join
    dsimp only [Service.effect]
    rw [heq]
    exact h.of_same rfl rfl
  | answer n result => cases result <;> exact h.of_same rfl rfl
  | finishStop =>
    obtain ⟨io, sockets, heq⟩ := s.exists_clearTransports
    dsimp only [Service.effect, finishStop]
    rw [heq]
    exact fun _ hb => absurd hb List.not_mem_nil
  | _ => exact h.of_same rfl rfl

theorem Traced.effect (h : s.Traced) {a : Action} (henabled : s.enabled a = true)
    (hcond : HandlesKept inetPton s a) : (s.effect inetPton a).Traced := by
  refine ⟨h.toPlaced.effect henabled, ?_, h.own.effect h.toPlaced henabled hcond⟩
  have htrace := h.trace
  cases a with
  | transport a =>
    obtain ⟨n, hn, ⟨-, heq⟩ | ⟨b, hb, heq⟩⟩ := transport_cases inetPton henabled
    · rw [heq]
      exact htrace.of_pending (fun _ he => he) rfl rfl rfl
    · rw [heq]
      have hmem := List.mem_of_getElem? hb
      have hlt := h.sound.lt b (List.mem_append_left _ hmem)
      exact htrace.visitTransport hlt (h.own.connection hmem) n a
  | channel a =>
    obtain ⟨n, hn, ⟨-, heq⟩ | ⟨i, hi, heq⟩⟩ := channel_cases inetPton henabled
    · rw [heq]
      exact htrace.of_pending (fun _ he => he) rfl rfl rfl
    · rw [heq]
      refine htrace.visitChannel h.sound fun hne => hcond.1 ?_
      unfold reuses
      rw [heq]
      exact decide_eq_true hne
  | timer again =>
    obtain ⟨n, -, heq⟩ := timer_cases inetPton henabled
    obtain ⟨i, t, phase, ht, -, heq'⟩ := s.exists_processTimer inetPton n again
    rw [heq, heq']
    exact (htrace.quiet ht).of_pending (fun _ he => he) rfl rfl rfl
  | beginDispatch count =>
    refine htrace.of_pending ?_ rfl rfl rfl
    exact mem_pending_of_deal (deal_beginDispatch count) rfl
  | join =>
    obtain ⟨events, heq, hdeal, hhandling⟩ := s.exists_join
    dsimp only [Service.effect]
    rw [heq]
    exact htrace.of_pending (mem_pending_of_deal hdeal hhandling) rfl rfl rfl
  | nextEvent =>
    refine htrace.of_pending ?_ rfl rfl rfl
    intro e he
    simp only [pending, Service.effect, List.mem_append, Option.mem_toList] at he ⊢
    rcases he with (he | he) | he
    · exact .inl (.inl he)
    · exact .inl (.inr (List.mem_of_mem_tail he))
    · exact .inl (.inr (List.mem_of_mem_head? he))
  | endEvent =>
    refine htrace.of_pending ?_ rfl rfl rfl
    intro e he
    exact List.mem_append_left _ (by simpa [pending, Service.effect] using he)
  | writeQueue data dest =>
    have hwrite : (s.enqueue (s.handle.getD 0) (s.sendOp (s.handle.getD 0) data dest
        (s.handling.map Event.sourceId)) dest).Trace := by
      apply htrace.enqueue
      intro o ho
      obtain ⟨e, he, rfl⟩ := Option.map_eq_some_iff.1 ho
      have hhandle : s.handle.isSome = true := by
        have henabled' := henabled
        simp only [enabled, Bool.and_eq_true] at henabled'
        exact henabled'.1.1
      obtain ⟨b, hb⟩ := Option.isSome_iff_exists.1 hhandle
      have hevent : e.transport = some b := by simpa [handle, he] using hb
      rw [hb]
      refine (htrace.pending e ?_ b hevent).2
      simp [pending, he]
    exact hwrite.of_pending (fun _ he => he) rfl rfl rfl
  | write b data dest => exact htrace.enqueue (by simp)
  | answer n result =>
    cases result <;> exact htrace.of_pending (fun _ he => he) rfl rfl rfl
  | udpConnect b ok =>
    obtain ⟨udp, sockPeer, heq, -⟩ := s.exists_udpConnect b ok
    dsimp only [Service.effect]
    rw [heq]
    exact htrace.of_pending (fun _ he => he) rfl rfl rfl
  | cancelTimer n =>
    obtain ⟨timers, heq⟩ := s.exists_cancelTimer (.user n)
    dsimp only [Service.effect]
    rw [heq]
    exact htrace.of_pending (fun _ he => he) rfl rfl rfl
  | finishStop =>
    obtain ⟨io, sockets, heq⟩ := s.exists_clearTransports
    dsimp only [Service.effect, finishStop]
    rw [heq]
    exact ⟨htrace.pending, fun _ hb => absurd hb List.not_mem_nil, htrace.queued, htrace.sent⟩
  | _ => exact htrace.of_pending (fun _ he => he) rfl rfl rfl

end Service

/-- The first event is handled, and bytes are written through it. -/
def writeThroughFirst : List Action :=
  [.beginDispatch 1, .nextEvent, .writeTest, .writeQueue [7] none, .endEvent, .endDispatch,
    .frame 3, .poll (some fun _ => {}), .transport { send := .sent 1 }]

/-- `open` comes between `process_transports` and `process_channels`: the transport lives, and its
socket object is opened for the next connection. -/
example : (Machine.run (step fun _ => some (.v4 1))
      (connectFirst ++
        [.frame 2, .poll (some fun _ => {}), .transport {}, .openKind 0 Yck.tcpClient, .openTest 0,
          .openMask 0, .openInsert 0, .transport {}, .channel { socket := .ok 6 }, .channel {},
          .timer none, .endEvents] ++ writeThroughFirst)
      (.fresh 2 { noDispatch := true } fun _ => {})).any
        (fun s => s.sent.any fun x => x.origin = some 3 && x.id = none) = true := by
  decide +kernel

end Yasio
