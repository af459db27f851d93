import Yasio.Service.Stop

/-!
# What is said of a transport

The events of one transport, those that the callback has seen and those that still wait, in the
order in which they are or will be seen; the words that they may form; and what a turn of
`process_transports` adds to them.
-/

namespace Yasio

open Function (update)

/-! ## A receive half that has seen no bytes -/

/-- Nothing was received yet; a length that was decoded from no bytes waits for its frame. -/
structure Rx.Idle (u : UnpackParams) (rx : Rx) : Prop where
  offset : rx.offset = 0
  packet : rx.expectedPacket = []
  size : rx.expectedSize = -1 ∨ 0 < rx.expectedSize ∧ u.initialBytesToStrip = 0

/-- Without a byte of the frame there is no packet. -/
theorem Rx.Idle.unpack {u : UnpackParams} {rx : Rx} {size : Int} {strip : ℕ} {result : ReadResult}
    (h : rx.Idle u) (hsize : 0 < size) (hstrip : strip = u.initialBytesToStrip)
    (hresult : { rx with expectedSize := size }.unpack ⟨size, 0, strip⟩ = .ok result) :
    result.verdict = .pending ∧ result.rx.Idle u := by
  have havailable : UnpackCall.available ⟨size, 0, strip⟩ { rx with expectedSize := size } = 0 := by
    simp [UnpackCall.available, h.offset]
  have hlast : UnpackCall.last ⟨size, 0, strip⟩ { rx with expectedSize := size } = 0 := by
    rw [UnpackCall.last, havailable]
    exact min_eq_right hsize.le
  unfold Rx.unpack at hresult
  rw [hlast, havailable] at hresult
  split at hresult
  · next hle =>
    have hzero : strip = 0 := by simpa using hle
    rw [if_neg (by simpa using hsize)] at hresult
    obtain rfl := Except.ok.inj hresult
    refine ⟨rfl, rfl, ?_, .inr ⟨hsize, hstrip ▸ hzero⟩⟩
    simp [h.packet]
  · cases hresult

/-- A read that gives no bytes keeps it so. -/
theorem Rx.Idle.doRead {u : UnpackParams} {rx : Rx} {forward tcp : Bool} {result : ReadResult}
    (h : rx.Idle u) (hresult : rx.doRead forward tcp u (.fail 11) = .ok result) :
    ((∃ error, result.verdict = .closed error) ∨ result.verdict = .pending) ∧
      result.rx.Idle u := by
  have hstore : rx.store [] = rx := by simp [Rx.store]
  unfold Rx.doRead Rx.process at hresult
  rw [show (RawRead.fail 11).data = [] from rfl, hstore,
    show callRead tcp (.fail 11) = (0, 0) from rfl] at hresult
  rw [if_pos le_rfl] at hresult
  split at hresult
  · obtain rfl := Except.ok.inj hresult
    exact ⟨.inr rfl, h⟩
  · rw [show (0 : Int).toNat = 0 from rfl] at hresult
    unfold Rx.plan at hresult
    dsimp only at hresult
    split at hresult
    · split at hresult
      · next hlength =>
        split at hresult
        · obtain rfl := Except.ok.inj hresult
          exact ⟨.inl ⟨_, rfl⟩, h⟩
        · exact (h.unpack hlength rfl hresult).imp_left .inr
      · split at hresult
        · obtain rfl := Except.ok.inj hresult
          exact ⟨.inr rfl, h.offset, h.packet, h.size⟩
        · obtain rfl := Except.ok.inj hresult
          exact ⟨.inl ⟨_, rfl⟩, h⟩
    · next hne =>
      obtain ⟨hsize, hstrip⟩ := h.size.resolve_left hne
      rw [h.packet, hstrip] at hresult
      have hwant : rx.expectedSize - (([] : List UInt8).length + 0 : ℕ) = rx.expectedSize := by simp
      rw [hwant] at hresult
      exact (h.unpack hsize hstrip.symm hresult).imp_left .inr

/-! ## Conversations -/

/-- What one connection may say: nothing yet, or `YEK_ON_OPEN` with status 0, packets, and at most
one `YEK_ON_CLOSE` at the end. -/
inductive Conversation : List Event → Prop
  | silent : Conversation []
  | going {first : Event} {packets : List Event} (hopen : first.kind = .onOpen)
      (hstatus : first.status = 0) (hpackets : ∀ e ∈ packets, e.kind = .onPacket) :
      Conversation (first :: packets)
  | closed {first last : Event} {packets : List Event} (hopen : first.kind = .onOpen)
      (hstatus : first.status = 0) (hpackets : ∀ e ∈ packets, e.kind = .onPacket)
      (hclose : last.kind = .onClose) : Conversation (first :: (packets ++ [last]))

/-- The conversation has begun and has not ended. -/
def Going (w : List Event) : Prop :=
  ∃ first packets, w = first :: packets ∧ first.kind = .onOpen ∧ first.status = 0 ∧
    ∀ e ∈ packets, e.kind = .onPacket

theorem Going.conversation {w : List Event} (h : Going w) : Conversation w := by
  obtain ⟨first, packets, rfl, hopen, hstatus, hpackets⟩ := h
  exact .going hopen hstatus hpackets

theorem Going.of_open {e : Event} (hopen : e.kind = .onOpen) (hstatus : e.status = 0) :
    Going [e] :=
  ⟨e, [], rfl, hopen, hstatus, nofun⟩

theorem Going.append {w packets : List Event} (h : Going w)
    (hpackets : ∀ e ∈ packets, e.kind = .onPacket) : Going (w ++ packets) := by
  obtain ⟨first, packets', rfl, hopen, hstatus, hpackets'⟩ := h
  refine ⟨first, packets' ++ packets, rfl, hopen, hstatus, fun e he => ?_⟩
  exact (List.mem_append.1 he).elim (hpackets' e) (hpackets e)

theorem Going.close {w : List Event} (h : Going w) {e : Event} (hclose : e.kind = .onClose) :
    Conversation (w ++ [e]) := by
  obtain ⟨first, packets, rfl, hopen, hstatus, hpackets⟩ := h
  exact .closed hopen hstatus hpackets hclose

theorem Conversation.cut {w w' : List Event} (h : Conversation w) (hw : w' <+: w) :
    Conversation w' := by
  have hcut : ∀ {first : Event} {packets rest : List Event}, first.kind = .onOpen →
      first.status = 0 → (∀ e ∈ packets, e.kind = .onPacket) → rest <+: packets →
      Conversation (first :: rest) := fun hopen hstatus hpackets hrest =>
    .going hopen hstatus fun e he => hpackets e (hrest.subset he)
  cases w' with
  | nil => exact .silent
  | cons e rest =>
    cases h with
    | silent => cases List.prefix_nil.1 hw
    | going hopen hstatus hpackets =>
      obtain ⟨rfl, hrest⟩ := List.cons_prefix_cons.1 hw
      exact hcut hopen hstatus hpackets hrest
    | closed hopen hstatus hpackets hclose =>
      obtain ⟨rfl, hrest⟩ := List.cons_prefix_cons.1 hw
      rcases List.prefix_concat_iff.1 hrest with rfl | hrest
      · exact .closed hopen hstatus hpackets hclose
      · exact hcut hopen hstatus hpackets hrest

/-! ## The events of one transport -/

/-- The event is of the transport in the block `b` with this number. -/
def Event.isOf (b : Block) (id : ℕ) (e : Event) : Bool := e.transport = some b && e.sourceId = id

theorem Event.isOf_iff {b : Block} {id : ℕ} {e : Event} :
    e.isOf b id = true ↔ e.transport = some b ∧ e.sourceId = id := by
  simp [isOf]

namespace Service

variable (s : Service) (b : Block) (id : ℕ)

/-- The events of a transport that the callback has seen, in order. -/
def told : List Event := (s.seen.map Seen.event).filter (Event.isOf b id)

/-- The events of a transport that wait in the two halves of the queue. -/
def untold : List Event := s.waiting.filter (Event.isOf b id)

/-- All that has been said of a transport. -/
def word : List Event := s.told b id ++ s.untold b id

/-- The events that say something new of each transport, in this order. -/
def Says (s t : Service) (es : List Event) : Prop :=
  ∀ b id, t.word b id = s.word b id ++ es.filter (Event.isOf b id)

variable {s b id} {t u : Service} {es es' : List Event}

theorem Says.trans (h : s.Says t es) (h' : t.Says u es') : s.Says u (es ++ es') := fun b id => by
  rw [h', h, List.filter_append, List.append_assoc]

/-- An event that is handed over only moves on. -/
theorem says_of_all (h : t.seen.map Seen.event ++ t.waiting = s.seen.map Seen.event ++ s.waiting) :
    s.Says t [] := fun b id => by
  rw [List.filter_nil, List.append_nil, word, word, told, told, untold, untold,
    ← List.filter_append, ← List.filter_append, h]

theorem says_of_same (hseen : t.seen = s.seen) (hwaiting : t.waiting = s.waiting) :
    s.Says t [] :=
  says_of_all (by rw [hseen, hwaiting])

theorem says_of_queue (hseen : t.seen = s.seen) (hdeal : t.deal = s.deal)
    (hqueue : t.queue = s.queue ++ es) : s.Says t es := fun b id => by
  rw [word, word, told, told, untold, untold, waiting, waiting, hseen, hdeal, hqueue,
    ← List.append_assoc, List.filter_append, List.append_assoc]

theorem says_fireEvents (es : List Event) : s.Says (s.fireEvents es) es :=
  says_of_queue rfl rfl rfl

/-- A packet that is forwarded is the next thing said if nothing waits. -/
theorem says_forwardPacket {view : List UInt8} (h : s.untold b (s.built b).id = []) :
    s.Says (s.forwardPacket b view) [s.transportEvent b .onPacket 0 view] := fun b' id => by
  have hwaits : (s.forwardPacket b view).untold b' id = s.untold b' id := rfl
  have htold : (s.forwardPacket b view).told b' id =
      s.told b' id ++ [s.transportEvent b .onPacket 0 view].filter (Event.isOf b' id) := by
    simp [told, forwardPacket]
  rw [word, word, hwaits, htold]
  by_cases hof : (s.transportEvent b .onPacket 0 view).isOf b' id = true
  · obtain ⟨hblock, hid⟩ := Event.isOf_iff.1 hof
    obtain rfl : b = b' := Option.some.inj hblock
    obtain rfl : (s.built b).id = id := hid
    rw [h, List.append_nil, List.append_nil]
  · rw [List.filter_cons_of_neg hof, List.filter_nil, List.append_nil, List.append_nil]

/-- Events without a transport say nothing. -/
theorem filter_isOf_eq_nil (h : ∀ e ∈ es, e.transport = none) :
    es.filter (Event.isOf b id) = [] := by
  apply List.filter_eq_nil_iff.2
  intro e he
  simp [Event.isOf, h e he]

theorem Says.of_channel (h : s.Says t es) (hes : ∀ e ∈ es, e.transport = none) : s.Says t [] :=
  fun b id => by rw [h b id, filter_isOf_eq_nil hes, List.filter_nil]

end Service

/-! ## A turn of process_transports -/

namespace Service

/-- The handshake of an SSL transport is under way. -/
def handshaking (s : Service) (b : Block) : Prop :=
  (s.built b).cls = .ssl ∧ (s.io b).state ≠ .opened

instance (s : Service) (b : Block) : Decidable (s.handshaking b) :=
  inferInstanceAs (Decidable (_ ∧ _))

/-- The announcement that a handshake is complete. -/
def announcement (s : Service) (b : Block) (a : TransportAnswers) : List Event :=
  if s.handshaking b ∧ a.handshake = .complete then [s.transportEvent b .onOpen 0] else []

/-- The packet that a turn of the transport takes from its stream. -/
def readPacket (s : Service) (b : Block) (a : TransportAnswers) : Option (List UInt8) :=
  if s.sock (s.built b).sock = none then none
  else
    let u := s.uparams (s.built b).ctx
    let tcp := testbits (s.kind (s.built b).ctx) Ycm.tcp
    match (s.rx b).doRead s.options.forwardPacket tcp u (s.transportRead b a) with
    | .ok result =>
      match result.verdict with
      | .packet p | .view p => some p
      | _ => none
    | .error _ => none

/-- What a part of the turn of `b` leaves as it is. -/
structure Beside (b : Block) (s t : Service) : Prop where
  pool : t.toPool = s.toPool
  io : ∀ b', b' ≠ b → t.io b' = s.io b'
  rx : ∀ b', b' ≠ b → t.rx b' = s.rx b'
  uparams : t.uparams = s.uparams

variable {s t u : Service} {b : Block} {a : TransportAnswers}

theorem Beside.refl (b : Block) (s : Service) : Beside b s s :=
  ⟨rfl, fun _ _ => rfl, fun _ _ => rfl, rfl⟩

theorem Beside.trans (h : Beside b s t) (h' : Beside b t u) : Beside b s u where
  pool := h'.pool.trans h.pool
  io b' hb := (h'.io b' hb).trans (h.io b' hb)
  rx b' hb := (h'.rx b' hb).trans (h.rx b' hb)
  uparams := h'.uparams.trans h.uparams

theorem Beside.of_touched (h : Touched b s t) (hrx : t.rx = s.rx) : Beside b s t where
  pool := h.pool
  io := h.io
  rx b' _ := congrFun hrx b'
  uparams := congrArg Channels.uparams h.channels

/-- What comes before the framing: the handshake may end, and a failed one is told of the
channel. -/
theorem says_beforeRead (s : Service) (b : Block) (a : TransportAnswers) :
    s.Says (s.beforeRead b a) (s.announcement b a) ∧ (s.beforeRead b a).rx = s.rx ∧
      ((s.beforeRead b a).io b).state =
        (if s.handshaking b ∧ a.handshake = .complete then .opened else (s.io b).state) := by
  let s₁ : Service :=
    { s.ask (s.built b).sock { read := true, error := true } with
      waitDuration :=
        if (s.built b).cls = TransportClass.kcp ∧ a.message.data ≠ [] then 0 else s.waitDuration }
  have hask : s.Says s₁ [] := says_of_same rfl rfl
  have hbefore : s.beforeRead b a =
      if s.handshaking b then s₁.sslHandshake b a.handshake else s₁.receiveFrom b a := rfl
  unfold announcement
  rw [hbefore]
  by_cases hssl : s.handshaking b
  · rw [if_pos hssl]
    cases a.handshake with
    | complete =>
      rw [if_pos ⟨hssl, rfl⟩, if_pos ⟨hssl, rfl⟩]
      refine ⟨says_of_queue rfl rfl rfl, rfl, ?_⟩
      change (update s.io b { s.io b with state := .opened } b).state = .opened
      rw [Function.update_self]
    | pending =>
      rw [if_neg (by simp), if_neg (by simp)]
      exact ⟨hask, rfl, rfl⟩
    | failed =>
      rw [if_neg (by simp), if_neg (by simp)]
      refine ⟨hask.trans (Says.of_channel (says_fireEvents _) fun e he => ?_), rfl, rfl⟩
      split at he
      · rw [List.mem_singleton.1 he]
        rfl
      · cases he
  · rw [if_neg hssl, if_neg (fun h => hssl h.1), if_neg (fun h => hssl h.1)]
    unfold receiveFrom
    dsimp only
    split
    · exact ⟨says_of_same rfl rfl, rfl, rfl⟩
    · exact ⟨hask, rfl, rfl⟩

/-- The packets of `do_read`, which are told at once when they are forwarded. -/
def cut (s : Service) (b : Block) (result : ReadResult) : List Event :=
  match result.verdict with
  | .packet p | .view p => [s.transportEvent b .onPacket 0 p]
  | _ => []

theorem says_afterRead (result : ReadResult)
    (huntold : ∀ v, result.verdict = .view v → s.untold b (s.built b).id = []) :
    s.Says (s.afterRead b result).1 (s.cut b result) ∧
      ((s.afterRead b result).1.io b).state = (s.io b).state ∧
      (s.afterRead b result).1.rx b = result.rx ∧ Beside b s (s.afterRead b result).1 := by
  have hbeside := (settled_afterRead (s := s) (b := b) result)
  have hstate := hbeside.state b
  have hrx : (s.afterRead b result).1.rx = update s.rx b result.rx := by
    unfold afterRead
    cases result.verdict <;> rfl
  refine ⟨?_, hstate, by rw [hrx, Function.update_self], ?_⟩
  · unfold afterRead cut
    cases hverdict : result.verdict with
    | closed error | pending => exact says_of_same rfl rfl
    | packet p => exact says_of_queue rfl rfl rfl
    | view v =>
      exact says_forwardPacket (s := { s with
        rx := update s.rx b result.rx
        waitDuration := if result.busy then 0 else s.waitDuration }) (huntold v hverdict)
  · refine ⟨hbeside.pool, hbeside.io, fun b' hb => ?_, congrArg Channels.uparams hbeside.channels⟩
    rw [hrx, Function.update_of_ne hb]

end Service

/-- Only a forwarding service hands out views. -/
theorem forward_of_view {rx : Rx} {u : UnpackParams} {forward tcp : Bool} {r : RawRead}
    {result : ReadResult} {v : List UInt8} (h : rx.doRead forward tcp u r = .ok result)
    (hview : result.verdict = .view v) : forward = true := by
  by_contra hforward
  have hunpack : ∀ (rx : Rx) (call : UnpackCall), rx.unpack call ≠ .ok result := by
    intro rx call heq
    unfold Rx.unpack at heq
    split at heq
    · dsimp only at heq
      split at heq
      · obtain rfl := Except.ok.inj heq
        cases hview
      · obtain rfl := Except.ok.inj heq
        cases hview
    · cases heq
  unfold Rx.doRead Rx.process at h
  split at h
  · unfold Rx.act at h
    split at h
    · obtain rfl := Except.ok.inj h
      cases hview
    · obtain rfl := Except.ok.inj h
      cases hview
    · exact hunpack _ _ h
  · obtain rfl := Except.ok.inj h
    cases hview

namespace Service

variable {s t u : Service} {b : Block} {a : TransportAnswers}

theorem waiting_beforeRead (h : ¬ s.handshaking b) : (s.beforeRead b a).waiting = s.waiting := by
  unfold beforeRead
  dsimp only
  split
  · next hssl => exact absurd hssl h
  · unfold receiveFrom
    dsimp only
    split <;> rfl

/-- A part of the turn of `b` in which nothing is said and nothing is received. -/
structure Mute (b : Block) (s t : Service) : Prop where
  word : s.Says t []
  beside : Beside b s t
  rx : t.rx b = s.rx b
  state : (t.io b).state = (s.io b).state

theorem Mute.refl (b : Block) (s : Service) : Mute b s s :=
  ⟨says_of_same rfl rfl, .refl b s, rfl, rfl⟩

theorem Mute.trans (h : Mute b s t) (h' : Mute b t u) : Mute b s u where
  word := h.word.trans h'.word
  beside := h.beside.trans h'.beside
  rx := h'.rx.trans h.rx
  state := h'.state.trans h.state

theorem Mute.setError (error : Int) : Mute b s (s.setIo b { s.io b with error }) where
  word := says_of_same rfl rfl
  beside := ⟨rfl, fun _ hb => Function.update_of_ne hb _ _, fun _ _ => rfl, rfl⟩
  rx := rfl
  state := by simp [setIo]

theorem Mute.of_settled (h : Settled b s t) (hseen : t.seen = s.seen)
    (hwaiting : t.waiting = s.waiting) (hrx : t.rx = s.rx) : Mute b s t where
  word := says_of_same hseen hwaiting
  beside := .of_touched h.toTouched hrx
  rx := congrFun hrx b
  state := h.state b

theorem mute_doWrite (s : Service) (b : Block) (send : RawSend) :
    Mute b s (s.doWrite b send).1 := by
  have hwrite : ∀ (t : Service) (pending : List SendOp) (error : Int),
      (t.afterWrite b pending error).seen = t.seen ∧
        (t.afterWrite b pending error).waiting = t.waiting ∧
          (t.afterWrite b pending error).rx = t.rx := by
    intro t pending error
    unfold afterWrite
    dsimp only
    split
    · split <;> exact ⟨rfl, rfl, rfl⟩
    · split <;> exact ⟨rfl, rfl, rfl⟩
  have hall : (s.doWrite b send).1.seen = s.seen ∧ (s.doWrite b send).1.waiting = s.waiting ∧
      (s.doWrite b send).1.rx = s.rx := by
    unfold doWrite
    dsimp only
    split
    · exact ⟨rfl, rfl, rfl⟩
    · split
      · exact hwrite s [] 0
      · split
        · exact ⟨rfl, rfl, rfl⟩
        · next left error hcall =>
          obtain ⟨hseen, hwaiting, hrx⟩ := hwrite (s.recordSent b _ send) (left.toList ++ _) error
          refine ⟨hseen.trans ?_, hwaiting.trans ?_, hrx.trans ?_⟩ <;> cases send <;> rfl
  exact .of_settled (settled_doWrite send) hall.1 hall.2.1 hall.2.2

theorem mute_endTransport (s : Service) (n : ℕ) (b : Block) (tail : ℕ) (ok : Bool) :
    ∃ t, Mute b s t ∧ TurnEnd n b tail t (s.endTransport n b tail ok) := by
  unfold endTransport
  split
  · split
    · exact ⟨_, .setError _, .dropped⟩
    · next hasked => exact ⟨s, .refl b s, .kept (by simpa using hasked)⟩
  · exact ⟨s, .refl b s, .dropped⟩

/-! ### The turn as a whole -/

/-- What a turn of `b` says before it ends in the state `t`: the handshake may be announced, and
then there is no packet yet; otherwise it is the packet that was read. -/
structure Read (b : Block) (a : TransportAnswers) (s t : Service) (es : List Event) : Prop where
  word : s.Says t es
  beside : Beside b s t
  spoken : es = ((s.readPacket b a).map fun p => s.transportEvent b .onPacket 0 p).toList ∧
      (t.io b).state = (s.io b).state ∧
      (s.handshaking b → s.readPacket b a = none ∧ (t.rx b).Idle (s.uparams (s.built b).ctx)) ∨
    s.handshaking b ∧ s.readPacket b a = none ∧ es = [s.transportEvent b .onOpen 0] ∧
      (t.io b).state = .opened

theorem Read.mute {es : List Event} (h : Read b a s t es) (h' : Mute b t u) : Read b a s u es where
  word := by simpa using h.word.trans h'.word
  beside := h.beside.trans h'.beside
  spoken := by rw [h'.state, h'.rx]; exact h.spoken

theorem transportRead_of_handshaking (hssl : s.handshaking b) :
    s.transportRead b a = .fail 11 := by
  unfold transportRead
  rw [hssl.1]
  exact if_neg hssl.2

/-- Before its handshake is complete a transport reads nothing. -/
theorem readPacket_of_handshaking (hssl : s.handshaking b)
    (hidle : (s.rx b).Idle (s.uparams (s.built b).ctx)) : s.readPacket b a = none := by
  unfold readPacket
  rw [transportRead_of_handshaking hssl]
  split
  · rfl
  · dsimp only
    split
    · next result hresult =>
      obtain ⟨⟨error, hverdict⟩ | hverdict, -⟩ := hidle.doRead hresult <;> rw [hverdict]
    · rfl

/-- The turn up to the framing. -/
theorem read_beforeRead (hidle : s.handshaking b → (s.rx b).Idle (s.uparams (s.built b).ctx))
    (hpacket : ¬ s.handshaking b → s.readPacket b a = none) :
    Read b a s (s.beforeRead b a) (s.announcement b a) := by
  obtain ⟨hword, hrx, hstate⟩ := s.says_beforeRead b a
  have hnone : s.readPacket b a = none := by
    by_cases hssl : s.handshaking b
    · exact readPacket_of_handshaking hssl (hidle hssl)
    · exact hpacket hssl
  refine ⟨hword, .of_touched (touched_beforeRead a) hrx, ?_⟩
  rw [hstate, hrx, hnone]
  unfold announcement
  split
  · next h => exact .inr ⟨h.1, rfl, rfl, rfl⟩
  · exact .inl ⟨rfl, rfl, fun hssl => ⟨rfl, hidle hssl⟩⟩

/-- The framing takes the packet from the bytes of the turn. -/
theorem read_afterRead {result : ReadResult}
    (hidle : s.handshaking b → (s.rx b).Idle (s.uparams (s.built b).ctx))
    (huntold : s.options.forwardPacket = true → s.readPacket b a ≠ none →
      s.untold b (s.built b).id = [])
    (hsock : s.sock (s.built b).sock ≠ none)
    (hresult : (s.rx b).doRead s.options.forwardPacket
      (testbits (s.kind (s.built b).ctx) Ycm.tcp) (s.uparams (s.built b).ctx)
      (s.transportRead b a) = .ok result) :
    ∃ es, Read b a s ((s.beforeRead b a).afterRead b result).1 es := by
  have hpacket : s.readPacket b a =
      match result.verdict with
      | .packet p | .view p => some p
      | _ => none := by
    unfold readPacket
    rw [if_neg hsock]
    dsimp only
    rw [hresult]
  have hbefore := read_beforeRead (s := s) (a := a) hidle
  have hbuilt : (s.beforeRead b a).built = s.built :=
    congrArg Pool.built (touched_beforeRead (s := s) (b := b) a).pool
  by_cases hssl : s.handshaking b
  · -- Nothing was received, and the handshake may be announced.
    rw [transportRead_of_handshaking hssl] at hresult
    obtain ⟨hverdict, hrest⟩ := (hidle hssl).doRead hresult
    have hcut : (s.beforeRead b a).cut b result = [] := by
      unfold cut
      obtain ⟨error, hverdict⟩ | hverdict := hverdict <;> rw [hverdict]
    have hview : ∀ v, result.verdict ≠ .view v := by
      intro v hv
      obtain ⟨error, hverdict⟩ | hverdict := hverdict <;> cases hverdict.symm.trans hv
    obtain ⟨hword, hstate, hrx, hbeside⟩ :=
      (s.beforeRead b a).says_afterRead result fun v hv => absurd hv (hview v)
    have hread := hbefore fun hne => absurd hssl hne
    rw [hcut] at hword
    refine ⟨_, by simpa using hread.word.trans hword, hread.beside.trans hbeside, ?_⟩
    rw [hstate, hrx]
    refine hread.spoken.imp_left fun h => ⟨h.1, h.2.1, fun _ => ⟨(h.2.2 hssl).1, hrest⟩⟩
  · obtain ⟨hbword, hbrx, hbstate⟩ := s.says_beforeRead b a
    have hannounce : s.announcement b a = [] := if_neg fun h => hssl h.1
    have hsame : (s.beforeRead b a).untold b (s.built b).id = s.untold b (s.built b).id := by
      unfold untold
      rw [waiting_beforeRead hssl]
    obtain ⟨hword, hstate, hrx, hbeside⟩ := (s.beforeRead b a).says_afterRead result (by
      intro v hv
      rw [hbuilt, hsame]
      exact huntold (forward_of_view hresult hv) (by rw [hpacket, hv]; exact nofun))
    rw [hannounce] at hbword
    refine ⟨_, by simpa using hbword.trans hword,
      (Beside.of_touched (touched_beforeRead a) hbrx).trans hbeside, .inl ⟨?_, ?_, ?_⟩⟩
    · have hevent : ∀ p, (s.beforeRead b a).transportEvent b .onPacket 0 p =
          s.transportEvent b .onPacket 0 p := by
        intro p
        unfold transportEvent
        rw [hbuilt]
      rw [hpacket]
      unfold cut
      cases result.verdict with
      | closed error | pending => rfl
      | packet p | view p => exact congrArg (fun e => [e]) (hevent p)
    · rw [hstate, hbstate, if_neg fun h => hssl h.1]
    · exact fun h => absurd h hssl

theorem read_doRead {ok : Bool}
    (hidle : s.handshaking b → (s.rx b).Idle (s.uparams (s.built b).ctx))
    (huntold : s.options.forwardPacket = true → s.readPacket b a ≠ none →
      s.untold b (s.built b).id = [])
    (h : s.doRead b a = .ok (t, ok)) : ∃ es, Read b a s t es := by
  unfold doRead at h
  dsimp only at h
  split at h
  · next hsock =>
    obtain ⟨rfl, -⟩ := Prod.mk.inj (Except.ok.inj h)
    have hnone : s.readPacket b a = none := if_pos hsock
    exact ⟨[], says_of_same rfl rfl, .refl b s,
      .inl ⟨by rw [hnone]; rfl, rfl, fun hssl => ⟨hnone, hidle hssl⟩⟩⟩
  · next hsock =>
    split at h
    · next hfailed =>
      obtain ⟨rfl, -⟩ := Prod.mk.inj (Except.ok.inj h)
      have hread := read_beforeRead (a := a) hidle fun hssl => absurd ⟨hfailed.1, hfailed.2.1⟩ hssl
      exact ⟨_, hread.mute (.setError _)⟩
    · cases hresult : (s.rx b).doRead s.options.forwardPacket
          (testbits (s.kind (s.built b).ctx) Ycm.tcp) (s.uparams (s.built b).ctx)
          (s.transportRead b a) with
      | error e => simp [hresult, Except.map] at h
      | ok result =>
        simp only [hresult, Except.map, Except.ok.injEq] at h
        obtain ⟨es, hread⟩ := read_afterRead hidle huntold hsock hresult
        rw [h] at hread
        exact ⟨es, hread⟩

theorem readPacket_of_error {e : Thrown} (h : s.doRead b a = .error e) :
    s.readPacket b a = none := by
  unfold doRead at h
  dsimp only at h
  split at h
  · cases h
  · next hsock =>
    split at h
    · cases h
    · unfold readPacket
      rw [if_neg hsock]
      dsimp only
      split
      · next result hresult =>
        rw [hresult] at h
        cases h
      · rfl

theorem exists_read (n : ℕ)
    (hidle : s.handshaking b → (s.rx b).Idle (s.uparams (s.built b).ctx))
    (huntold : s.options.forwardPacket = true → s.readPacket b a ≠ none →
      s.untold b (s.built b).id = []) :
    ∃ t es, Read b a s t es ∧ TurnEnd n b a.tail t (s.visitTransport n b a) := by
  unfold visitTransport
  match hread : s.doRead b a with
  | .error e =>
    exact ⟨_, _, read_beforeRead hidle fun _ => readPacket_of_error hread, .thrown⟩
  | .ok (t, false) =>
    obtain ⟨es, ht⟩ := read_doRead hidle huntold hread
    obtain ⟨u, hmute, hturn⟩ := t.mute_endTransport n b a.tail false
    exact ⟨u, es, ht.mute hmute, hturn⟩
  | .ok (t, true) =>
    obtain ⟨es, ht⟩ := read_doRead hidle huntold hread
    obtain ⟨u, hmute, hturn⟩ := (t.doWrite b a.send).1.mute_endTransport n b a.tail
      (t.doWrite b a.send).2
    exact ⟨u, es, (ht.mute (t.mute_doWrite b a.send)).mute hmute, hturn⟩

end Service

end Yasio
