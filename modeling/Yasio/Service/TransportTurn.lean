import Yasio.Service.Step

/-!
# What a turn of the loop of process_transports can do

`do_read` and `do_write` of a transport touch this transport, the interest in its socket and the
queue of events.  The turn of the loop then keeps the transport, drops it or stops the thread.
-/

namespace Yasio

open Function (update)

/-- What `do_read` and `do_write` of `b` leave as it is, and how they change the rest. -/
structure Touched (b : Block) (s s' : Service) : Prop where
  pool : s'.toPool = s.toPool
  channels : s'.toChannels = s.toChannels
  timers : s'.toTimers = s.toTimers
  loop : s'.toLoop = { s.toLoop with waitDuration := s'.waitDuration }
  sockets : ∀ P : Sockets → Prop,
    (∀ t add remove, t.sock (s.built b).sock ≠ none → P t →
      P (t.modEvent (s.built b).sock add remove)) → P s.toSockets → P s'.toSockets
  io : ∀ b', b' ≠ b → s'.io b' = s.io b'
  opened : (s.io b).state = .opened → (s'.io b).state = .opened
  tx : ∀ b', b' ≠ b → s'.tx b' = s.tx b'
  queued : ∀ op ∈ (s'.tx b).sendQueue, ∃ op' ∈ (s.tx b).sendQueue, op.origin = op'.origin
  sent : ∀ x ∈ s'.sent, x ∈ s.sent ∨
    x.id = s.connection b ∧ ∃ op ∈ (s.tx b).sendQueue, x.origin = op.origin
  events : s'.toEvents = { s.toEvents with queue := s'.queue }
  fires : ∃ es, s'.queue = s.queue ++ es ∧ s'.fired = s.fired ++ es ∧
    ∀ e ∈ es, e.kind ≠ .onClose ∧ ∀ b', e.transport = some b' →
      b' = b ∧ e.sourceId = (s.built b).id ∧ e.channel = (s.built b).ctx ∧
        (e.kind = .onOpen → (s'.io b).state = .opened)
  attempts : s'.attempts = s.attempts
  seen : ∃ xs, s'.seen = s.seen ++ xs ∧
    ∀ x ∈ xs, x.direct = true ∧ x.event.kind = .onPacket ∧ x.event.transport = some b
  notes : s'.armed = s.armed ∧ s'.timeouts = s.timeouts ∧ s'.taken = s.taken ∧ s'.stops = s.stops

/-- The same, when the state of the transport, the peers, the deliveries and the record of
`is_ready` are left as well, and only packets are announced. -/
structure Settled (b : Block) (s s' : Service) : Prop extends Touched b s s' where
  state : ∀ b', (s'.io b').state = (s.io b').state
  packets : ∃ es, s'.fired = s.fired ++ es ∧ ∀ e ∈ es, e.kind = .onPacket
  udp : s'.udp = s.udp
  delivered : s'.delivered = s.delivered
  asked : s'.asked = s.asked

namespace Touched

variable {b : Block} {s s' s'' : Service}

theorem refl (b : Block) (s : Service) : Touched b s s where
  pool := rfl
  channels := rfl
  timers := rfl
  loop := rfl
  sockets _ _ h := h
  io _ _ := rfl
  opened h := h
  tx _ _ := rfl
  queued op h := ⟨op, h, rfl⟩
  sent _ h := .inl h
  events := rfl
  fires := ⟨[], by simp⟩
  attempts := rfl
  seen := ⟨[], by simp⟩
  notes := ⟨rfl, rfl, rfl, rfl⟩

theorem gen_eq (h : Touched b s s') : s'.gen = s.gen :=
  h.sockets (fun t => t.gen = s.gen) (fun _ _ _ _ ht => ht) rfl

theorem connection_eq (h : Touched b s s') (b' : Block) : s'.connection b' = s.connection b' := by
  unfold Service.connection
  rw [h.gen_eq, show s'.built = s.built from congrArg Pool.built h.pool]

theorem trans (h : Touched b s s') (h' : Touched b s' s'') : Touched b s s'' where
  pool := h'.pool.trans h.pool
  channels := h'.channels.trans h.channels
  timers := h'.timers.trans h.timers
  loop := by rw [h'.loop, h.loop]
  sockets P hP hs := by
    apply h'.sockets P _ (h.sockets P hP hs)
    rw [show s'.built = s.built from congrArg Pool.built h.pool]
    exact hP
  io b' hb := (h'.io b' hb).trans (h.io b' hb)
  opened ho := h'.opened (h.opened ho)
  tx b' hb := (h'.tx b' hb).trans (h.tx b' hb)
  queued op hop := by
    obtain ⟨op', hop', ho⟩ := h'.queued op hop
    obtain ⟨op'', hop'', ho'⟩ := h.queued op' hop'
    exact ⟨op'', hop'', ho.trans ho'⟩
  sent x hx := by
    rcases h'.sent x hx with hx | ⟨hid, op, hop, ho⟩
    · exact h.sent x hx
    · obtain ⟨op', hop', ho'⟩ := h.queued op hop
      exact .inr ⟨hid.trans (h.connection_eq b), op', hop', ho.trans ho'⟩
  events := by rw [h'.events, h.events]
  fires := by
    obtain ⟨es, hq, hf, hes⟩ := h.fires
    obtain ⟨es', hq', hf', hes'⟩ := h'.fires
    rw [show s'.built = s.built from congrArg Pool.built h.pool] at hes'
    refine ⟨es ++ es', by rw [hq', hq, List.append_assoc], by rw [hf', hf, List.append_assoc], ?_⟩
    intro e he
    rcases List.mem_append.1 he with he | he
    · refine ⟨(hes e he).1, fun b' hb => ?_⟩
      obtain ⟨hb, hid, hctx, hopen⟩ := (hes e he).2 b' hb
      exact ⟨hb, hid, hctx, fun hkind => h'.opened (hopen hkind)⟩
    · exact hes' e he
  attempts := h'.attempts.trans h.attempts
  seen := by
    obtain ⟨xs, hx, hxs⟩ := h.seen
    obtain ⟨xs', hx', hxs'⟩ := h'.seen
    refine ⟨xs ++ xs', by rw [hx', hx, List.append_assoc], ?_⟩
    intro x hmem
    exact (List.mem_append.1 hmem).elim (hxs x) (hxs' x)
  notes := ⟨h'.notes.1.trans h.notes.1, h'.notes.2.1.trans h.notes.2.1,
    h'.notes.2.2.1.trans h.notes.2.2.1, h'.notes.2.2.2.trans h.notes.2.2.2⟩

end Touched

namespace Settled

variable {b : Block} {s s' s'' : Service}

theorem refl (b : Block) (s : Service) : Settled b s s where
  toTouched := .refl b s
  state _ := rfl
  packets := ⟨[], by simp⟩
  udp := rfl
  delivered := rfl
  asked := rfl

theorem trans (h : Settled b s s') (h' : Settled b s' s'') : Settled b s s'' where
  toTouched := h.toTouched.trans h'.toTouched
  state b' := (h'.state b').trans (h.state b')
  packets := by
    obtain ⟨es, hf, hes⟩ := h.packets
    obtain ⟨es', hf', hes'⟩ := h'.packets
    refine ⟨es ++ es', by rw [hf', hf, List.append_assoc], ?_⟩
    intro e he
    exact (List.mem_append.1 he).elim (hes e) (hes' e)
  udp := h'.udp.trans h.udp
  delivered := h'.delivered.trans h.delivered
  asked := h'.asked.trans h.asked

/-! ### The parts of do_read and do_write -/

theorem setIo {base : IoBase} (hstate : base.state = (s.io b).state) :
    Settled b s (s.setIo b base) :=
  { Settled.refl b s with
    io := fun _ hb => Function.update_of_ne hb _ _
    opened := by simp [Service.setIo, hstate]
    state := fun b' => by
      by_cases hb : b' = b
      · subst hb
        simp [Service.setIo, hstate]
      · simp [Service.setIo, hb]
    fires := ⟨[], by simp [Service.setIo]⟩ }

theorem setRx (rx : Rx) (wait : Int) :
    Settled b s { s with rx := update s.rx b rx, waitDuration := wait } :=
  { Settled.refl b s with loop := rfl }

theorem setTx (queue : List SendOp) (pollout : Bool) (wait : Int)
    (hqueue : ∀ op ∈ queue, ∃ op' ∈ (s.tx b).sendQueue, op.origin = op'.origin) :
    Settled b s
      { s with tx := update s.tx b { sendQueue := queue, pollout }, waitDuration := wait } :=
  { Settled.refl b s with
    loop := rfl
    tx := fun _ hb => Function.update_of_ne hb _ _
    queued := by simpa using hqueue }

theorem modEvent (hopen : s.sock (s.built b).sock ≠ none) (add remove : Interest) :
    Settled b s (s.modEvent (s.built b).sock add remove) :=
  { Settled.refl b s with sockets := fun _ hP hs => hP _ _ _ hopen hs }

theorem firePacket (packet : List UInt8) :
    Settled b s (s.fireEvents [s.transportEvent b .onPacket 0 packet]) := by
  refine { Settled.refl b s with
    events := rfl
    fires := ⟨_, rfl, rfl, ?_⟩
    packets := ⟨_, rfl, ?_⟩ }
  · intro e he
    obtain rfl := List.mem_singleton.1 he
    exact ⟨nofun, fun b' hb => ⟨(Option.some.inj hb).symm, rfl, rfl, nofun⟩⟩
  · intro e he
    rw [List.mem_singleton.1 he]
    rfl

theorem forwardPacket (view : List UInt8) : Settled b s (s.forwardPacket b view) := by
  refine { Settled.refl b s with seen := ⟨_, rfl, ?_⟩ }
  intro x hx
  obtain rfl := List.mem_singleton.1 hx
  exact ⟨rfl, rfl, rfl⟩

theorem recordSent {op : SendOp} (hop : op ∈ (s.tx b).sendQueue) (send : RawSend) :
    Settled b s (s.recordSent b op send) := by
  cases send with
  | zero errno | fail errno => exact .refl b s
  | sent n =>
    refine { Settled.refl b s with sent := ?_ }
    intro x hx
    simp only [Service.recordSent, List.mem_append, List.mem_singleton] at hx
    rcases hx with hx | rfl
    · exact .inl hx
    · exact .inr ⟨rfl, op, hop, rfl⟩

end Settled

namespace Service

variable {b : Block} {s : Service}

theorem touched_fireEvents {es : List Event}
    (hes : ∀ e ∈ es, e.kind ≠ .onClose ∧ ∀ b', e.transport = some b' →
      b' = b ∧ e.sourceId = (s.built b).id ∧ e.channel = (s.built b).ctx ∧
        (e.kind = .onOpen → (s.io b).state = .opened)) :
    Touched b s (s.fireEvents es) :=
  { Touched.refl b s with events := rfl, fires := ⟨es, rfl, rfl, hes⟩ }

theorem touched_sslHandshake (result : Handshake) : Touched b s (s.sslHandshake b result) := by
  unfold sslHandshake
  cases result with
  | pending => exact .refl b s
  | complete =>
    have hopen : ((s.setIo b { s.io b with state := .opened }).io b).state = .opened := by
      simp [setIo]
    have hset : Touched b s (s.setIo b { s.io b with state := .opened }) :=
      { Touched.refl b s with
        io := fun _ hb => Function.update_of_ne hb _ _
        opened := fun _ => hopen
        fires := ⟨[], by simp [setIo]⟩ }
    refine hset.trans (touched_fireEvents ?_)
    intro e he
    obtain rfl := List.mem_singleton.1 he
    exact ⟨nofun, fun b' hb => ⟨(Option.some.inj hb).symm, rfl, rfl, fun _ => hopen⟩⟩
  | failed =>
    apply touched_fireEvents
    intro e he
    split at he
    · obtain rfl := List.mem_singleton.1 he
      exact ⟨nofun, nofun⟩
    · cases he

theorem delivered_sslHandshake (result : Handshake) :
    (s.sslHandshake b result).delivered = s.delivered := by
  cases result <;> rfl

theorem settled_afterRead (result : ReadResult) : Settled b s (s.afterRead b result).1 := by
  have h := Settled.setRx (b := b) (s := s) result.rx
    (if result.busy then 0 else s.waitDuration)
  unfold afterRead
  cases hv : result.verdict with
  | closed error => exact h.trans (.setIo rfl)
  | pending => exact h
  | packet p => exact h.trans (.firePacket p)
  | view v => exact h.trans (.forwardPacket v)

theorem settled_afterWrite (hopen : s.sock (s.built b).sock ≠ none) (pending : List SendOp)
    (error : Int)
    (hqueue : ∀ op ∈ pending, ∃ op' ∈ (s.tx b).sendQueue, op.origin = op'.origin) :
    Settled b s (s.afterWrite b pending error) := by
  have hput : ∀ add remove pollout wait, Settled b s
      { s.modEvent (s.built b).sock add remove with
        tx := update s.tx b { sendQueue := pending, pollout }, waitDuration := wait } :=
    fun add remove pollout wait =>
      (Settled.modEvent hopen add remove).trans (.setTx pending pollout wait hqueue)
  unfold afterWrite
  by_cases hfull : pending ≠ [] ∧ (error = EWOULDBLOCK ∨ error = EAGAIN ∨ error = ENOBUFS)
  · simp only [if_pos hfull]
    cases (s.tx b).pollout with
    | false => exact hput { write := true } .none true s.waitDuration
    | true => exact .setTx pending true s.waitDuration hqueue
  · simp only [if_neg hfull]
    cases (s.tx b).pollout with
    | false => exact .setTx pending false _ hqueue
    | true => exact hput .none { write := true } false _

theorem origin_of_callWrite {udp : Bool} {op op' : SendOp} {send : RawSend} {error : Int}
    (h : callWrite udp op send = .ok (some op', error)) : op'.origin = op.origin := by
  unfold callWrite at h
  split at h
  · split at h
    · simp only [Except.ok.injEq, Prod.mk.injEq, Option.some.injEq] at h
      rw [← h.1]
    · simp at h
  · simp only [Except.ok.injEq, Prod.mk.injEq, Option.some.injEq] at h
    rw [← h.1]
  · split at h
    · simp only [Except.ok.injEq, Prod.mk.injEq, Option.some.injEq] at h
      rw [← h.1]
    · split at h <;> simp at h

theorem settled_doWrite (send : RawSend) : Settled b s (s.doWrite b send).1 := by
  unfold doWrite
  dsimp only
  split
  · exact .refl b s
  · next hopen =>
    split
    · next hqueue => exact settled_afterWrite hopen [] 0 (fun _ h => absurd h List.not_mem_nil)
    · next op rest hqueue =>
      have hop : op ∈ (s.tx b).sendQueue := by simp [hqueue]
      split
      · exact .setIo rfl
      · next left error hcall =>
        have hopen' :
            (s.recordSent b op send).sock ((s.recordSent b op send).built b).sock ≠ none := by
          cases send <;> exact hopen
        refine (Settled.recordSent hop send).trans (settled_afterWrite hopen' _ _ ?_)
        have htx : ((s.recordSent b op send).tx b).sendQueue = op :: rest := by
          rw [← hqueue]
          cases send <;> rfl
        rw [htx]
        intro op' hop'
        rcases List.mem_append.1 hop' with hop' | hop'
        · obtain rfl := Option.mem_toList.1 hop'
          exact ⟨op, by simp, origin_of_callWrite hcall⟩
        · exact ⟨op', by simp [hop'], rfl⟩

theorem touched_beforeRead (a : TransportAnswers) : Touched b s (s.beforeRead b a) := by
  let s₁ : Service :=
    { s.ask (s.built b).sock { read := true, error := true } with
      waitDuration :=
        if (s.built b).cls = TransportClass.kcp ∧ a.message.data ≠ [] then 0 else s.waitDuration }
  have hask : Touched b s s₁ := { Touched.refl b s with loop := rfl }
  unfold beforeRead
  dsimp only
  split
  · exact hask.trans (touched_sslHandshake (s := s₁) a.handshake)
  · refine Touched.trans hask ?_
    change Touched b s₁ (s₁.receiveFrom b a)
    unfold receiveFrom
    dsimp only
    split
    · exact { Touched.refl b s₁ with }
    · exact .refl b s₁

/-- The service when `do_read` of `b` hands over to the framing. -/
def atRead (s : Service) (b : Block) (a : TransportAnswers) : Service :=
  if s.sock (s.built b).sock = none then s else s.beforeRead b a

theorem touched_atRead (a : TransportAnswers) : Touched b s (s.atRead b a) := by
  unfold atRead
  split
  · exact .refl b s
  · exact touched_beforeRead a

/-- How a turn of the loop of `process_transports` ends. -/
inductive TurnEnd (n : ℕ) (b : Block) (tail : ℕ) (s : Service) : Service → Prop
  | thrown : TurnEnd n b tail s { s with phase := .terminated }
  | dropped : TurnEnd n b tail s (s.dropTransport n b tail)
  | kept (h : s.closeAsked b = false) : TurnEnd n b tail s { s with phase := .transports (n + 1) }

theorem turnEnd_endTransport (n tail : ℕ) (ok : Bool) :
    ∃ s', Settled b s s' ∧ TurnEnd n b tail s' (s.endTransport n b tail ok) := by
  cases ok with
  | false => exact ⟨s, .refl b s, .dropped⟩
  | true =>
    unfold endTransport
    cases h : s.closeAsked b with
    | false => exact ⟨s, .refl b s, .kept h⟩
    | true =>
      refine ⟨_, .setIo ?_, .dropped⟩
      exact rfl

theorem settled_doRead {a : TransportAnswers} {s' : Service} {ok : Bool}
    (h : s.doRead b a = .ok (s', ok)) : Settled b (s.atRead b a) s' := by
  unfold doRead at h
  unfold atRead
  by_cases hsock : s.sock (s.built b).sock = none
  · rw [if_pos hsock] at h ⊢
    cases h
    exact .refl b s
  · rw [if_neg hsock] at h ⊢
    split at h
    · cases h
      exact .setIo rfl
    cases hread : (s.rx b).doRead s.options.forwardPacket
        (testbits (s.kind (s.built b).ctx) Ycm.tcp) (s.uparams (s.built b).ctx)
        (s.transportRead b a) with
    | error e => simp [hread, Except.map] at h
    | ok r =>
      simp only [hread, Except.map, Except.ok.injEq] at h
      have := settled_afterRead (b := b) (s := s.beforeRead b a) r
      rwa [h] at this

theorem atRead_of_error {a : TransportAnswers} {e : Thrown} (h : s.doRead b a = .error e) :
    s.atRead b a = s.beforeRead b a := by
  apply if_neg
  intro hsock
  simp [doRead, hsock] at h

/-- A turn reads, writes and ends. -/
theorem exists_turnEnd (n : ℕ) (a : TransportAnswers) :
    ∃ s', Settled b (s.atRead b a) s' ∧ TurnEnd n b a.tail s' (s.visitTransport n b a) := by
  unfold visitTransport
  match hread : s.doRead b a with
  | .error e =>
    rw [← atRead_of_error hread]
    exact ⟨_, .refl b _, .thrown⟩
  | .ok (s', false) =>
    obtain ⟨s'', hs, hend⟩ := turnEnd_endTransport (b := b) (s := s') n a.tail false
    exact ⟨s'', (settled_doRead hread).trans hs, hend⟩
  | .ok (s', true) =>
    obtain ⟨s'', hs, hend⟩ :=
      turnEnd_endTransport (b := b) (s := (s'.doWrite b a.send).1) n a.tail
        (s'.doWrite b a.send).2
    exact ⟨s'', ((settled_doRead hread).trans (settled_doWrite a.send)).trans hs, hend⟩

end Service

end Yasio
