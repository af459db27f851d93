import Yasio.Service.Conversations
import Yasio.Service.Delivery

/-!
# The order of the events of a transport

`YEK_ON_OPEN` and `YEK_ON_CLOSE` go through the queue, and so do packets unless they are forwarded.
Under `WordsKept` the callback sees of each transport one conversation, whose packets come in the
order in which they were taken from the stream.
-/

namespace Yasio

open Function (update)

/-! ## The parts of a turn of process_channels -/

section

variable {inetPton : Host → Option Ip} {i : ℕ} {s t : Service}

theorem Part.rest (h : Part inetPton i s t) :
    t.uparams = s.uparams ∧ t.options.forwardPacket = s.options.forwardPacket := by
  cases h with
  | resolve now =>
    apply Service.doResolve_induction (P := fun t =>
      t.uparams = s.uparams ∧ t.options.forwardPacket = s.options.forwardPacket)
    · exact ⟨rfl, rfl⟩
    · intro t ht
      rw [← ht.1, ← ht.2]
      unfold Service.updateDnsStatus
      split <;> exact ⟨rfl, rfl⟩
    · exact fun t ht => ht
    · exact fun t ht => ht
    · exact fun t ht => ht
  | _ => exact ⟨rfl, rfl⟩

theorem Quiet.rest (h : Quiet inetPton i s t) :
    t.uparams = s.uparams ∧ t.options.forwardPacket = s.options.forwardPacket := by
  induction h with
  | refl => exact ⟨rfl, rfl⟩
  | tail _ hpart ih => exact ⟨hpart.rest.1.trans ih.1, hpart.rest.2.trans ih.2⟩

end

namespace Service

/-- The number that the next transport gets. -/
def nextId (s : Service) : ℕ := (s.objectId + 1) % 2 ^ 32

variable {inetPton : Host → Option Ip} {i : ℕ} {s t : Service} {b : Block}

theorem says_of_quiet (h : Quiet inetPton i s t) : s.Says t [] := by
  obtain ⟨es, hqueue, -, hes⟩ := h.frame.fires
  exact (says_of_queue h.frame.seen (Fires.deal_eq h.frame.events) hqueue).of_channel
    fun e he => (hes e he).2

theorem untold_of_quiet (h : Quiet inetPton i s t) (b : Block) (id : ℕ) :
    t.untold b id = s.untold b id := by
  obtain ⟨es, hqueue, -, hes⟩ := h.frame.fires
  unfold untold waiting
  rw [Fires.deal_eq h.frame.events, hqueue, ← List.append_assoc, List.filter_append,
    filter_isOf_eq_nil fun e he => (hes e he).2, List.append_nil]

/-- The event that announces the transport made from `s` to `t`, unless the handshake is still to
come. -/
def openEvents (s : Service) (i : ℕ) (t : Service) : List Event :=
  if testbits (s.kind i) Ycm.ssl then [] else [t.transportEvent s.freshBlock .onOpen 0]

/-- A transport is made for channel `i` in the fresh block and announced. -/
structure Joins (i : ℕ) (s t : Service) : Prop where
  word : s.Says t (s.openEvents i t)
  transports : t.transports = s.transports ++ [s.freshBlock]
  built : ∀ b, b ≠ s.freshBlock → t.built b = s.built b
  cls : (t.built s.freshBlock).cls = .ofKind (s.kind i)
  ctx : (t.built s.freshBlock).ctx = i
  id : (t.built s.freshBlock).id = s.nextId
  io : ∀ b, b ≠ s.freshBlock → t.io b = s.io b
  state : (t.io s.freshBlock).state =
    if TransportClass.ofKind (s.kind i) = .ssl then .connecting else .opened
  rx : ∀ b, b ≠ s.freshBlock → t.rx b = s.rx b
  idle : ∀ u, (t.rx s.freshBlock).Idle u
  uparams : t.uparams = s.uparams
  options : t.options = s.options
  objectId : t.objectId = s.nextId

theorem rest_handleConnectSucceed (s : Service) (b : Block) (ok : Bool) :
    (s.handleConnectSucceed b ok).rx = s.rx ∧ (s.handleConnectSucceed b ok).uparams = s.uparams ∧
      (s.handleConnectSucceed b ok).options = s.options := by
  have hremote : ∀ (t : Service) (peer : Endpoint),
      (t.configureRemote b peer ok).rx = t.rx ∧ (t.configureRemote b peer ok).uparams = t.uparams ∧
        (t.configureRemote b peer ok).options = t.options := by
    intro t peer
    obtain ⟨udp, sockPeer, heq, -⟩ := t.exists_configureRemote b peer ok
    rw [heq]
    exact ⟨rfl, rfl, rfl⟩
  unfold handleConnectSucceed
  dsimp only
  split
  · split
    · exact hremote _ _
    · exact ⟨rfl, rfl, rfl⟩
  · exact ⟨rfl, rfl, rfl⟩

/-- A transport that was allocated, prepared and activated. -/
theorem joins_activeTransport {k : SockId} {interval : ℕ}
    (h : Prepared i s.freshBlock (s.allocateTransport i k interval) t)
    (hrx : t.rx = (s.allocateTransport i k interval).rx) (huparams : t.uparams = s.uparams)
    (hoptions : t.options = s.options) :
    Joins i s (t.activeTransport s.freshBlock) := by
  have hbuilt : t.built = (s.toPool.allocate (s.newBuilt i k interval)).built :=
    congrArg Pool.built h.pool
  have hfresh : t.built s.freshBlock =
      { s.newBuilt i k interval with id := s.nextId } := by
    rw [hbuilt, Pool.built_allocate_freshBlock]
    rfl
  have hkind : t.kind = s.kind := h.kind
  have hseen : t.seen = s.seen := congrArg History.seen h.history
  have hdeal : t.deal = s.deal := Fires.deal_eq h.events
  have hctx : (t.built s.freshBlock).ctx = i := by rw [hfresh]; rfl
  refine
    { word := ?_, transports := ?_, built := fun b hb => ?_, cls := ?_, ctx := hctx, id := ?_
      io := fun b hb => ?_, state := ?_, rx := fun b hb => ?_, idle := fun u => ?_
      uparams := huparams, options := hoptions, objectId := congrArg Pool.objectId h.pool }
  · have hsay : s.Says (t.activeTransport s.freshBlock)
        (if testbits (t.kind (t.built s.freshBlock).ctx) Ycm.ssl then []
          else [t.transportEvent s.freshBlock .onOpen 0]) :=
      says_of_queue hseen hdeal (congrArg (· ++ _) h.queue)
    rwa [hctx, hkind] at hsay
  · have htransports : t.transports = s.transports :=
      (congrArg Pool.transports h.pool).trans (Pool.transports_allocate _)
    exact congrArg (· ++ [s.freshBlock]) htransports
  · exact (congrFun hbuilt b).trans (Pool.built_allocate_of_ne _ hb)
  · exact congrArg Built.cls hfresh
  · exact congrArg Built.id hfresh
  · exact (congrFun h.io b).trans (Function.update_of_ne hb _ _)
  · change (t.io s.freshBlock).state = _
    rw [h.io]
    simp [allocateTransport]
  · exact (congrFun hrx b).trans (Function.update_of_ne hb _ _)
  · change (t.rx s.freshBlock).Idle u
    rw [hrx]
    change (update s.rx s.freshBlock _ s.freshBlock).Idle u
    rw [Function.update_self]
    exact ⟨rfl, rfl, .inl rfl⟩

theorem joins_establish (s : Service) (i : ℕ) (k : SockId) (interval : ℕ) (ok : Bool) :
    Joins i s (s.establish i k interval ok) := by
  obtain ⟨t, hprepared, -, -, heq⟩ := s.exists_establish (i := i) k interval ok
  have hrest := (s.allocateTransport i k interval).rest_handleConnectSucceed s.freshBlock ok
  -- What the preparation leaves can be read off the transport once it is activated.
  have hact : (s.allocateTransport i k interval).handleConnectSucceed s.freshBlock ok =
      t.activeTransport s.freshBlock := heq
  rw [hact] at hrest
  rw [heq]
  exact joins_activeTransport hprepared hrest.1 hrest.2.1 hrest.2.2

theorem joins_acceptPeer (s : Service) (i : ℕ) (peer : Endpoint) (fd : Fd) (a : ChannelAnswers) :
    Joins i s (s.acceptPeer i peer fd a) := by
  let s₁ := (s.newSock fd .unspec).allocateTransport i s.nextSock a.interval
  obtain ⟨t, hprepared, -, -, heq⟩ := s.exists_acceptPeer (i := i) peer fd a
  have hrest : t.rx = s₁.rx ∧ t.uparams = s.uparams ∧ t.options = s.options := by
    have hall : (s.acceptPeer i peer fd a).rx = s₁.rx ∧
        (s.acceptPeer i peer fd a).uparams = s.uparams ∧
          (s.acceptPeer i peer fd a).options = s.options := by
      obtain ⟨udp, sockPeer, hremote, -⟩ :=
        s₁.exists_configureRemote s.freshBlock peer a.dgramConnect
      unfold acceptPeer
      dsimp only
      rw [show ((s.newSock fd .unspec).allocateTransport i s.nextSock a.interval).configureRemote
        s.freshBlock peer a.dgramConnect = { s₁ with udp, sockPeer } from hremote]
      split
      · exact ⟨rfl, rfl, rfl⟩
      · exact rest_handleConnectSucceed { s₁ with udp, sockPeer } s.freshBlock true
    rw [heq] at hall
    exact hall
  have hjoins : Joins i (s.newSock fd .unspec) (t.activeTransport s.freshBlock) :=
    joins_activeTransport hprepared hrest.1 hrest.2.1 hrest.2.2
  rw [heq]
  exact { hjoins with }

end Service

/-! ## What may be said next -/

namespace Service

variable {inetPton : Host → Option Ip} {i : ℕ} {s t : Service} {b : Block}

/-- A live transport has announced itself and is open, or its handshake is under way and it has
neither said nor received anything. -/
def Talks (s : Service) (b : Block) : Prop :=
  (s.io b).state = .opened ∧ Going (s.word b (s.built b).id) ∨
    s.handshaking b ∧ (s.rx b).Idle (s.uparams (s.built b).ctx) ∧ s.word b (s.built b).id = []

/-- The invariant of the events of the transports. -/
structure Speaking (s : Service) : Prop where
  talks : ∀ b ∈ s.transports, s.Talks b
  words : ∀ b id, Conversation (s.word b id)

theorem Talks.conversation (h : s.Talks b) : Conversation (s.word b (s.built b).id) := by
  obtain ⟨-, hgoing⟩ | ⟨-, -, hnil⟩ := h
  · exact hgoing.conversation
  · rw [hnil]
    exact .silent

theorem Talks.idle (h : s.Talks b) (hssl : s.handshaking b) :
    (s.rx b).Idle (s.uparams (s.built b).ctx) := by
  obtain ⟨hopen, -⟩ | ⟨-, hidle, -⟩ := h
  · exact absurd hopen hssl.2
  · exact hidle

/-- A transport of which nothing is said and that is left alone talks on. -/
theorem Talks.of_same (h : s.Talks b) (hbuilt : t.built b = s.built b)
    (hstate : (t.io b).state = (s.io b).state) (hrx : t.rx b = s.rx b)
    (huparams : t.uparams = s.uparams)
    (hword : t.word b (s.built b).id = s.word b (s.built b).id) : t.Talks b := by
  unfold Talks handshaking at h ⊢
  rw [hbuilt, hstate, hrx, huparams, hword]
  exact h

theorem Says.word_eq (h : s.Says t []) (b : Block) (id : ℕ) : t.word b id = s.word b id := by
  rw [h b id, List.filter_nil, List.append_nil]

theorem isOf_transportEvent (kind : EventKind) (status : Int) (p : List UInt8) :
    (s.transportEvent b kind status p).isOf b (s.built b).id = true :=
  Event.isOf_iff.2 ⟨rfl, rfl⟩

/-- Something is said of the transport `id` in `b`, and the others are left alone. -/
structure Spoken (b : Block) (id : ℕ) (es : List Event) (s t : Service) : Prop where
  word : s.Says t es
  own : ∀ e ∈ es, e.isOf b id = true
  transports : ∀ b' ∈ t.transports, b' ≠ b → b' ∈ s.transports
  built : ∀ b', b' ≠ b → t.built b' = s.built b'
  state : ∀ b', b' ≠ b → (t.io b').state = (s.io b').state
  rx : ∀ b', b' ≠ b → t.rx b' = s.rx b'
  uparams : t.uparams = s.uparams

theorem Spoken.word_own {id : ℕ} {es : List Event} (h : Spoken b id es s t) :
    t.word b id = s.word b id ++ es := by
  rw [h.word, List.filter_eq_self.2 h.own]

theorem Spoken.word_of_ne {id : ℕ} {es : List Event} (h : Spoken b id es s t) {b' : Block}
    {id' : ℕ} (hne : ¬ (b' = b ∧ id' = id)) : t.word b' id' = s.word b' id' := by
  have hnil : es.filter (Event.isOf b' id') = [] := by
    apply List.filter_eq_nil_iff.2
    intro e he hof
    obtain ⟨hb, hid⟩ := Event.isOf_iff.1 (h.own e he)
    obtain ⟨hb', hid'⟩ := Event.isOf_iff.1 hof
    exact hne ⟨Option.some.inj (hb'.symm.trans hb), hid'.symm.trans hid⟩
  rw [h.word, hnil, List.append_nil]

/-- Only the transport that is spoken of needs a look. -/
theorem Speaking.spoken {id : ℕ} {es : List Event} (h : s.Speaking) (hspoken : Spoken b id es s t)
    (htalks : b ∈ t.transports → t.Talks b) (hword : Conversation (t.word b id)) :
    t.Speaking := by
  refine ⟨fun b' hb' => ?_, fun b' id' => ?_⟩
  · rcases eq_or_ne b' b with rfl | hne
    · exact htalks hb'
    · exact (h.talks b' (hspoken.transports b' hb' hne)).of_same (hspoken.built b' hne)
        (hspoken.state b' hne) (hspoken.rx b' hne) hspoken.uparams
        (hspoken.word_of_ne fun heq => hne heq.1)
  · by_cases hsame : b' = b ∧ id' = id
    · obtain ⟨rfl, rfl⟩ := hsame
      exact hword
    · rw [hspoken.word_of_ne hsame]
      exact h.words b' id'

/-! ### The turn of a transport -/

theorem Read.toSpoken {a : TransportAnswers} {es : List Event} (hread : Read b a s t es) :
    Spoken b (s.built b).id es s t where
  word := hread.word
  own e he := by
    obtain ⟨hes, -⟩ | ⟨-, -, hes, -⟩ := hread.spoken
    · obtain ⟨p, -, rfl⟩ :
          ∃ p, s.readPacket b a = some p ∧ s.transportEvent b .onPacket 0 p = e := by
        simpa [hes, Option.map_eq_some_iff] using he
      exact isOf_transportEvent _ _ _
    · rw [hes, List.mem_singleton] at he
      rw [he]
      exact isOf_transportEvent _ _ _
  transports b' hb' _ :=
    (show t.transports = s.transports from congrArg Pool.transports hread.beside.pool) ▸ hb'
  built b' _ := congrFun (congrArg Pool.built hread.beside.pool) b'
  state b' hne := congrArg IoBase.state (hread.beside.io b' hne)
  rx := hread.beside.rx
  uparams := hread.beside.uparams

theorem Talks.read {a : TransportAnswers} {es : List Event} (h : s.Talks b)
    (hread : Read b a s t es) : t.Talks b := by
  have hbuilt : t.built b = s.built b := congrFun (congrArg Pool.built hread.beside.pool) b
  unfold Talks handshaking
  rw [hbuilt, hread.beside.uparams, hread.toSpoken.word_own]
  obtain ⟨hes, hstate, hssl⟩ | ⟨hssl, -, hes, hstate⟩ := hread.spoken
  · obtain ⟨hopen, hgoing⟩ | ⟨hhand, -, hnil⟩ := h
    · refine .inl ⟨hstate.trans hopen, hgoing.append fun e he => ?_⟩
      obtain ⟨p, -, rfl⟩ :
          ∃ p, s.readPacket b a = some p ∧ s.transportEvent b .onPacket 0 p = e := by
        simpa [hes, Option.map_eq_some_iff] using he
      rfl
    · obtain ⟨hnone, hidle⟩ := hssl hhand
      refine .inr ⟨⟨hhand.1, hstate ▸ hhand.2⟩, hidle, ?_⟩
      rw [hnil, hes, hnone]
      rfl
  · obtain ⟨hopen, -⟩ | ⟨-, -, hnil⟩ := h
    · exact absurd hopen hssl.2
    · rw [hnil, hes]
      exact .inl ⟨hstate, .of_open rfl rfl⟩

/-- The turn of `b` up to its end. -/
theorem Speaking.read {a : TransportAnswers} {es : List Event} (h : s.Speaking)
    (hb : b ∈ s.transports) (hread : Read b a s t es) : t.Speaking := by
  have hbuilt : t.built b = s.built b := congrFun (congrArg Pool.built hread.beside.pool) b
  have htalks := (h.talks b hb).read hread
  exact h.spoken hread.toSpoken (fun _ => htalks) (hbuilt ▸ htalks.conversation)

theorem rest_dropTransport (s : Service) (n : ℕ) (b : Block) (tail : ℕ) :
    (s.dropTransport n b tail).rx = s.rx ∧ (s.dropTransport n b tail).uparams = s.uparams ∧
      (s.dropTransport n b tail).io = update s.io b ((s.io b).cleanup true) := by
  unfold dropTransport handleClose
  dsimp only
  split <;> exact ⟨rfl, rfl, rfl⟩

theorem spoken_dropTransport (hp : s.toPool.Sound) {n : ℕ} (hb : s.transports[n]? = some b)
    (tail : ℕ) : b ∉ (s.dropTransport n b tail).transports ∧
      Spoken b (s.built b).id (s.closeEvents b) s (s.dropTransport n b tail) := by
  obtain ⟨hrx, huparams, hio⟩ := s.rest_dropTransport n b tail
  obtain ⟨chan, io, sockets, heq, -⟩ := s.exists_dropTransport n b tail
  have hmem : ∀ b' ∈ (s.dropTransport n b tail).transports, b' ∈ s.transports ∧ b' ≠ b := by
    rw [heq]
    exact fun b' => (Pool.mem_release hp hb).1
  have hword : s.Says (s.dropTransport n b tail) (s.closeEvents b) := by
    rw [heq]
    exact says_of_queue rfl rfl rfl
  have hbuilt : (s.dropTransport n b tail).built = s.built := by rw [heq]; rfl
  refine ⟨fun hb' => (hmem b hb').2 rfl, hword, fun e he => ?_, fun b' hb' _ => (hmem b' hb').1,
    fun b' _ => congrFun hbuilt b', fun b' hne => ?_, fun b' _ => congrFun hrx b', huparams⟩
  · unfold closeEvents at he
    split at he
    · rw [List.mem_singleton.1 he]
      exact isOf_transportEvent _ _ _
    · cases he
  · rw [hio, Function.update_of_ne hne]

/-- The loss of an open connection is the last that is said of it. -/
theorem Speaking.dropTransport (h : s.Speaking) (hp : s.toPool.Sound) {n : ℕ}
    (hb : s.transports[n]? = some b) (tail : ℕ) : (s.dropTransport n b tail).Speaking := by
  obtain ⟨hgone, hspoken⟩ := spoken_dropTransport hp hb tail
  refine h.spoken hspoken (fun hb' => absurd hb' hgone) ?_
  rw [hspoken.word_own]
  unfold closeEvents
  obtain ⟨hopen, hgoing⟩ | ⟨hssl, -, hnil⟩ := h.talks b (List.mem_of_getElem? hb)
  · rw [if_pos hopen]
    exact hgoing.close rfl
  · rw [if_neg hssl.2, hnil]
    exact .silent

end Service

/-! ### The turn of a channel -/

/-- The packets among some events. -/
def packets (es : List Event) : List Event := es.filter fun e => e.kind = .onPacket

@[simp] theorem packets_append (es es' : List Event) :
    packets (es ++ es') = packets es ++ packets es' :=
  List.filter_append ..

namespace Service

variable {inetPton : Host → Option Ip} {i : ℕ} {s t : Service} {b : Block} {a : ChannelAnswers}

theorem nextId_ne (s : Service) : s.nextId ≠ s.objectId := by
  unfold nextId
  omega

/-- A step of which nothing is said and that leaves the live transports alone. -/
theorem Speaking.of_same (h : s.Speaking) (hword : s.Says t [])
    (htransports : ∀ b ∈ t.transports, b ∈ s.transports) (hbuilt : t.built = s.built)
    (hstate : ∀ b, (t.io b).state = (s.io b).state) (hrx : t.rx = s.rx)
    (huparams : t.uparams = s.uparams) : t.Speaking where
  talks b hb := (h.talks b (htransports b hb)).of_same (congrFun hbuilt b) (hstate b)
    (congrFun hrx b) huparams (hword.word_eq _ _)
  words b id := by
    rw [hword.word_eq]
    exact h.words b id

theorem Speaking.quiet (h : s.Speaking) (hq : Quiet inetPton i s t) : t.Speaking := by
  have hcontents := hq.frame.contents
  refine h.of_same (says_of_quiet hq) (fun b hb => ?_) (congrArg Pool.built hq.frame.pool)
    (fun b => ?_) (congrArg Contents.rx hcontents) hq.rest.1
  · exact (show t.transports = s.transports from congrArg Pool.transports hq.frame.pool) ▸ hb
  · rw [show t.io = s.io from congrArg Contents.io hcontents]

/-- The fresh block and its number have not been heard of, and a kind with SSL has TCP. -/
def Welcome (s : Service) (i : ℕ) : Prop :=
  s.word s.freshBlock s.nextId = [] ∧
    (testbits (s.kind i) Ycm.ssl = true → testbits (s.kind i) Ycm.tcp = true)

instance (s : Service) (i : ℕ) : Decidable (s.Welcome i) := inferInstanceAs (Decidable (_ ∧ _))

theorem Joins.toSpoken (h : Joins i s t) :
    Spoken s.freshBlock s.nextId (s.openEvents i t) s t where
  word := h.word
  own e he := by
    unfold openEvents at he
    split at he
    · cases he
    · rw [List.mem_singleton.1 he, ← h.id]
      exact isOf_transportEvent _ _ _
  transports b hb hne := by
    rw [h.transports, List.mem_append, List.mem_singleton] at hb
    exact hb.resolve_right hne
  built := h.built
  state b hne := congrArg IoBase.state (h.io b hne)
  rx := h.rx
  uparams := h.uparams

theorem Joins.talks (h : Joins i s t) (hnew : s.Welcome i) : t.Talks s.freshBlock := by
  unfold Talks handshaking
  rw [h.id, h.toSpoken.word_own, hnew.1, List.nil_append, h.state, h.cls]
  unfold openEvents
  by_cases hssl : testbits (s.kind i) Ycm.ssl = true
  · have hcls : TransportClass.ofKind (s.kind i) = .ssl := by
      rw [TransportClass.ofKind, if_pos (hnew.2 hssl), if_pos hssl]
    rw [hcls, if_pos rfl, if_pos hssl]
    exact .inr ⟨⟨rfl, nofun⟩, h.idle _, rfl⟩
  · rw [if_neg (TransportClass.ofKind_ne_ssl ((Bool.not_eq_true _).mp hssl)), if_neg hssl]
    exact .inl ⟨rfl, .of_open rfl rfl⟩

theorem Speaking.join (h : s.Speaking) (hjoins : Joins i s t) (hnew : s.Welcome i) :
    t.Speaking := by
  have htalks := hjoins.talks hnew
  exact h.spoken hjoins.toSpoken (fun _ => htalks) (hjoins.id ▸ htalks.conversation)

/-- A datagram may be handed to this transport: it is alive and open, and with forwarding nothing
of it waits. -/
def Hears (s : Service) (b : Block) : Prop :=
  b ∈ s.transports ∧ (s.io b).state = .opened ∧
    (s.options.forwardPacket = true → s.untold b (s.built b).id = [])

instance (s : Service) (b : Block) : Decidable (s.Hears b) := inferInstanceAs (Decidable (_ ∧ _))

/-- The packet that a datagram becomes. -/
def datagramEvent (s : Service) (b : Block) (data : List UInt8) : Option Event :=
  if (s.built b).cls = .kcp then none else some (s.transportEvent b .onPacket 0 data)

theorem packets_datagramEvent (s : Service) (b : Block) (data : List UInt8) :
    packets (s.datagramEvent b data).toList = (s.datagramEvent b data).toList := by
  unfold datagramEvent
  split <;> rfl

theorem says_handleInput {data : List UInt8} {error : Option ℕ}
    (hb : (s.built b).cls ≠ .kcp → s.Hears b) :
    s.Says (s.handleInput b data error) (s.datagramEvent b data).toList := by
  unfold handleInput datagramEvent
  split
  · next hcls =>
    rw [if_pos hcls]
    cases error <;> exact says_of_same rfl rfl
  · next hcls =>
    rw [if_neg hcls]
    split
    · next hforward => exact says_forwardPacket ((hb hcls).2.2 hforward)
    · exact says_of_queue rfl rfl rfl

theorem rest_handleInput (s : Service) (b : Block) (data : List UInt8) (error : Option ℕ) :
    (s.handleInput b data error).rx = s.rx ∧
      (s.handleInput b data error).uparams = s.uparams := by
  unfold handleInput
  split
  · split <;> exact ⟨rfl, rfl⟩
  · split <;> exact ⟨rfl, rfl⟩

theorem spoken_handleInput {data : List UInt8} {error : Option ℕ}
    (hb : (s.built b).cls ≠ .kcp → s.Hears b) :
    Spoken b (s.built b).id (s.datagramEvent b data).toList s (s.handleInput b data error) := by
  have hreceived := received_handleInput (i := 0) (s := s) b data error
  obtain ⟨hrx, huparams⟩ := s.rest_handleInput b data error
  have htransports : (s.handleInput b data error).transports = s.transports :=
    congrArg Pool.transports hreceived.pool
  refine ⟨says_handleInput hb, fun e he => ?_, fun b' hb' _ => htransports ▸ hb',
    fun b' _ => congrFun (congrArg Pool.built hreceived.pool) b', fun b' _ => hreceived.io b',
    fun b' _ => congrFun hrx b', huparams⟩
  unfold datagramEvent at he
  split at he
  · cases he
  · rw [List.mem_singleton.1 he]
    exact isOf_transportEvent _ _ _

theorem Speaking.handleInput (h : s.Speaking) {data : List UInt8} {error : Option ℕ}
    (hb : (s.built b).cls ≠ .kcp → s.Hears b) : (s.handleInput b data error).Speaking := by
  have hspoken : Spoken b _ _ s (s.handleInput b data error) := spoken_handleInput hb
  have hreceived := received_handleInput (i := 0) (s := s) b data error
  have hbuilt : (s.handleInput b data error).built = s.built :=
    congrArg Pool.built hreceived.pool
  by_cases hcls : (s.built b).cls = .kcp
  · have hword := hspoken.word
    unfold datagramEvent at hword
    rw [if_pos hcls] at hword
    obtain ⟨hrx, huparams⟩ := s.rest_handleInput b data error
    have htransports : (s.handleInput b data error).transports = s.transports :=
      congrArg Pool.transports hreceived.pool
    exact h.of_same hword (fun b' hb' => htransports ▸ hb') hbuilt hreceived.io hrx huparams
  · obtain ⟨hmem, hopen, -⟩ := hb hcls
    have htalks : (s.handleInput b data error).Talks b := by
      unfold Talks
      rw [hbuilt, hspoken.word_own]
      unfold datagramEvent
      rw [if_neg hcls]
      obtain ⟨-, hgoing⟩ | ⟨hssl, -⟩ := h.talks b hmem
      · refine .inl ⟨(hreceived.io b).trans hopen, hgoing.append fun e he => ?_⟩
        rw [List.mem_singleton.1 he]
        rfl
      · exact absurd hopen hssl.2
    exact h.spoken hspoken (fun _ => htalks) (hbuilt ▸ htalks.conversation)

end Service

namespace Service

variable {inetPton : Host → Option Ip} {n i : ℕ} {s t : Service} {a : ChannelAnswers}

/-- A step of `process_channels` allocates a transport. -/
def allocates (inetPton : Host → Option Ip) (s : Service) (a : ChannelAnswers) : Bool :=
  (s.effect inetPton (.channel a)).objectId ≠ s.objectId

/-- The packet that a turn of channel `i` takes from the socket of the channel. -/
def heard (inetPton : Host → Option Ip) (s : Service) (i : ℕ) (a : ChannelAnswers) :
    Option Event :=
  if s.takesDatagram i a then
    match s.transportMap.find a.peer with
    | some b => s.datagramEvent b a.datagram.data
    | none =>
      if s.allocates inetPton a ∧ TransportClass.ofKind (s.kind i) ≠ .kcp then
        some
          { kind := .onPacket
            channel := i
            sourceId := s.nextId
            transport := s.freshBlock
            packet := a.datagram.data }
      else none
  else none

/-- The turn of channel `i` makes a transport only where it is new, none with forwarding for a
datagram unless it is for KCP, and hands a datagram only to a transport that hears it. -/
structure MayTurn (inetPton : Host → Option Ip) (s : Service) (i : ℕ) (a : ChannelAnswers) :
    Prop where
  welcome : s.allocates inetPton a = true → s.Welcome i
  first : s.takesDatagram i a = true → s.options.forwardPacket = true →
    s.allocates inetPton a = true → TransportClass.ofKind (s.kind i) = .kcp
  hears : s.takesDatagram i a = true → ∀ b ∈ s.transportMap.find a.peer,
    (s.built b).cls ≠ .kcp → s.Hears b

instance (inetPton : Host → Option Ip) (s : Service) (i : ℕ) (a : ChannelAnswers) :
    Decidable (s.MayTurn inetPton i a) :=
  decidable_of_iff
    ((s.allocates inetPton a = true → s.Welcome i) ∧
      (s.takesDatagram i a = true → s.options.forwardPacket = true →
        s.allocates inetPton a = true → TransportClass.ofKind (s.kind i) = .kcp) ∧
      (s.takesDatagram i a = true → ∀ b ∈ s.transportMap.find a.peer,
        (s.built b).cls ≠ .kcp → s.Hears b))
    ⟨fun h => ⟨h.1, h.2.1, h.2.2⟩, fun h => ⟨h.welcome, h.first, h.hears⟩⟩

/-- What a step says, the packet that it takes from a stream, and that the words stay in order. -/
structure Tells (s t : Service) (p : Option Event) : Prop where
  word : ∃ es, s.Says t es ∧ packets es = p.toList
  speaking : t.Speaking

theorem Tells.quiet {u : Service} {p : Option Event} (h : Tells s t p) (hword : t.Says u [])
    (hspeaking : u.Speaking) : Tells s u p := by
  obtain ⟨es, hsay, hes⟩ := h.word
  exact ⟨⟨es, by simpa using hsay.trans hword, hes⟩, hspeaking⟩

theorem Welcome.of_quiet (h : s.Welcome i) (hq : Quiet inetPton i s t) : t.Welcome i := by
  have hpool := hq.frame.pool
  have hid : t.nextId = s.nextId := congrArg (fun p : Pool => (p.objectId + 1) % 2 ^ 32) hpool
  unfold Welcome
  rw [(says_of_quiet hq).word_eq, hq.frame.kind, hid,
    show t.freshBlock = s.freshBlock from congrArg Pool.freshBlock hpool]
  exact h

theorem packets_openEvents (s : Service) (i : ℕ) (t : Service) :
    packets (s.openEvents i t) = [] := by
  unfold openEvents
  split <;> rfl

/-- A turn in which the channel takes no datagram. -/
theorem Speaking.channelTurn (h : s.Speaking) (hturn : ChannelTurn inetPton i a s t)
    (htakes : s.takesDatagram i a = false)
    (hnew : t.objectId ≠ s.objectId → s.Welcome i) : Tells s t none := by
  -- The socket of an accepted connection is new, which says nothing and touches no transport.
  have hjoin : ∀ {s₁ u : Service}, Quiet inetPton i s s₁ → Joins i s₁ u → s.Welcome i →
      Tells s u none := by
    intro s₁ u hq hjoins hwelcome
    refine ⟨⟨_, (says_of_quiet hq).trans hjoins.word, packets_openEvents _ _ _⟩, ?_⟩
    exact (h.quiet hq).join hjoins (hwelcome.of_quiet hq)
  have hid : ∀ {s₁ u : Service}, Quiet inetPton i s s₁ → Joins i s₁ u →
      u.objectId ≠ s.objectId := by
    intro s₁ u hq hjoins
    rw [hjoins.objectId, ← show s₁.objectId = s.objectId from congrArg Pool.objectId hq.frame.pool]
    exact s₁.nextId_ne
  cases hturn with
  | quiet hq => exact ⟨⟨[], says_of_quiet hq, rfl⟩, h.quiet hq⟩
  | @connect s₁ _ hq ok hq' =>
    have hjoins := s₁.joins_establish i i a.interval ok
    have hobject := congrArg Pool.objectId hq'.frame.pool
    have htells := hjoin hq hjoins (hnew (hobject ▸ hid hq hjoins))
    exact htells.quiet (says_of_quiet hq') (htells.speaking.quiet hq')
  | @accept s₁ hq fd hfd hkind =>
    have hjoins : Joins i s₁ _ :=
      { (s₁.newSock fd a.acceptPeer).joins_establish i s₁.nextSock a.interval true with }
    exact hjoin hq hjoins (hnew (hid hq hjoins))
  | lost hq htakes' | datagram hq htakes' | newPeer hq htakes' => cases htakes.symm.trans htakes'

/-- A turn in which the channel takes a datagram. -/
theorem exists_datagramTurn (inetPton : Host → Option Ip) (n : ℕ)
    (htakes : s.takesDatagram i a = true) :
    ∃ s₁, Quiet inetPton i s s₁ ∧
      (s.visitChannel inetPton n i a =
          { s₁.acceptDatagram i a.datagram.data a with
            channelOps := (s₁.acceptDatagram i a.datagram.data a).channelOps.eraseIdx n } ∨
        s.visitChannel inetPton n i a =
          { s₁.acceptDatagram i a.datagram.data a with phase := .channels (n + 1) }) := by
  obtain ⟨hclient, hserver, htcp, hstate, hready, herror, hdata⟩ := takesDatagram_iff.1 htakes
  have hmasks : Quiet inetPton i s (s.takeMasks i a) := quiet_takeMasks
  have hask : Quiet inetPton i s ((s.takeMasks i a).ask i { read := true }) :=
    hmasks.tail (.ask _ _)
  have hturn : (s.takeMasks i a).doAcceptCompletion i a =
      ((s.takeMasks i a).ask i { read := true }).acceptDatagram i a.datagram.data a := by
    have hkind : ((s.takeMasks i a).ask i { read := true }).kind = s.kind := hask.frame.kind
    unfold doAcceptCompletion
    dsimp only
    rw [if_pos hstate, if_pos ⟨hready, herror⟩, hkind, htcp, if_neg Bool.false_ne_true,
      if_pos hdata]
  refine ⟨_, hask, ?_⟩
  unfold visitChannel
  dsimp only
  rw [hclient, if_neg Bool.false_ne_true, hserver, if_pos rfl, hturn]
  split
  · exact .inl rfl
  · exact .inr rfl

theorem Speaking.deliver (h : s.Speaking) (i : ℕ) (peer : Endpoint) (b : Block) :
    (s.deliver i peer b).Speaking := ⟨h.talks, h.words⟩

theorem Hears.of_quiet {b : Block} (h : s.Hears b) (hq : Quiet inetPton i s t) : t.Hears b := by
  have hio : t.io = s.io := congrArg Contents.io hq.frame.contents
  unfold Hears
  rw [show t.transports = s.transports from congrArg Pool.transports hq.frame.pool, hio,
    hq.rest.2, untold_of_quiet hq, show t.built = s.built from congrArg Pool.built hq.frame.pool]
  exact h

/-- The first datagram of a new peer follows the announcement of its transport. -/
theorem Speaking.firstDatagram {u : Service} (h : s.Speaking) (hjoins : Joins i s u)
    (hnew : s.Welcome i) (hudp : testbits (s.kind i) Ycm.tcp = false)
    (hfirst : s.options.forwardPacket = true → TransportClass.ofKind (s.kind i) = .kcp)
    (data : List UInt8) (error : Option ℕ) :
    Tells s (u.handleInput s.freshBlock data error) (u.datagramEvent s.freshBlock data) := by
  have hu := h.join hjoins hnew
  have hhears : (u.built s.freshBlock).cls ≠ .kcp → u.Hears s.freshBlock := by
    intro hcls
    rw [hjoins.cls] at hcls
    have hssl : testbits (s.kind i) Ycm.ssl = false := by
      by_contra hssl
      cases hudp.symm.trans (hnew.2 (eq_true_of_ne_false hssl))
    refine ⟨?_, ?_, fun hforward => ?_⟩
    · rw [hjoins.transports]
      exact List.mem_append_right _ (List.mem_singleton.2 rfl)
    · rw [hjoins.state, if_neg (TransportClass.ofKind_ne_ssl hssl)]
    · rw [hjoins.options] at hforward
      exact absurd (hfirst hforward) hcls
  refine ⟨⟨_, hjoins.word.trans (says_handleInput hhears), ?_⟩, hu.handleInput hhears⟩
  rw [packets_append, packets_openEvents, List.nil_append, packets_datagramEvent]

/-- A datagram goes to a transport that is known, to a new one, or is dropped. -/
theorem acceptDatagram_cases (s : Service) (i : ℕ) (data : List UInt8) (a : ChannelAnswers) :
    (∃ b, s.transportMap.find a.peer = some b ∧
      s.acceptDatagram i data a = (s.deliver i a.peer b).handleInput b data a.input) ∨
    s.transportMap.find a.peer = none ∧
      ((∃ delivered, s.acceptDatagram i data a = { s with delivered }) ∨
        ∃ fd, s.acceptDatagram i data a =
          ((s.acceptPeer i a.peer fd a).deliver i a.peer s.freshBlock).handleInput s.freshBlock
            data a.input) := by
  unfold acceptDatagram doDgramAccept
  cases hfind : s.transportMap.find a.peer with
  | some b => exact .inl ⟨b, rfl, rfl⟩
  | none =>
    refine .inr ⟨rfl, ?_⟩
    cases hfd : s.newFd a.dgramSocket with
    | error e => exact .inl ⟨_, rfl⟩
    | ok fd =>
      cases hbind : a.dgramBind with
      | some e => exact .inl ⟨_, rfl⟩
      | none => exact .inr ⟨fd, rfl⟩

theorem Speaking.acceptDatagram {s₁ : Service} (h : s.Speaking) (hq : Quiet inetPton i s s₁)
    (htakes : s.takesDatagram i a = true)
    (halloc : s.allocates inetPton a =
      decide ((s₁.acceptDatagram i a.datagram.data a).objectId ≠ s.objectId))
    (hmay : s.MayTurn inetPton i a) :
    Tells s (s₁.acceptDatagram i a.datagram.data a) (s.heard inetPton i a) := by
  have hpool := hq.frame.pool
  have hbuilt : s₁.built = s.built := congrArg Pool.built hpool
  have hfresh : s₁.freshBlock = s.freshBlock := congrArg Pool.freshBlock hpool
  have hobject : s₁.objectId = s.objectId := congrArg Pool.objectId hpool
  have hkind : s₁.kind = s.kind := hq.frame.kind
  have hquiet := says_of_quiet hq
  have h₁ := h.quiet hq
  unfold heard
  rw [if_pos htakes, ← show s₁.transportMap = s.transportMap from congrArg Pool.transportMap hpool]
  obtain ⟨b, hfind, heq⟩ | ⟨hfind, ⟨delivered, heq⟩ | ⟨fd, heq⟩⟩ :=
    s₁.acceptDatagram_cases i a.datagram.data a
  · rw [hfind, heq]
    have hhears : ((s₁.deliver i a.peer b).built b).cls ≠ .kcp →
        (s₁.deliver i a.peer b).Hears b := by
      intro hcls
      have hs := hmay.hears htakes b (by rw [← hpool]; exact hfind) (by rwa [← hbuilt])
      exact show s₁.Hears b from hs.of_quiet hq
    have hevent : (s₁.deliver i a.peer b).datagramEvent b a.datagram.data =
        s.datagramEvent b a.datagram.data := by
      unfold datagramEvent transportEvent
      rw [show (s₁.deliver i a.peer b).built = s.built from hbuilt]
    refine ⟨⟨_, hquiet.trans (says_handleInput hhears), ?_⟩, (h₁.deliver _ _ _).handleInput hhears⟩
    rw [hevent, List.nil_append, packets_datagramEvent]
  · have hnone : s.allocates inetPton a = false := by
      rw [halloc, heq]
      simpa using hobject
    rw [hfind, hnone, heq]
    exact ⟨⟨[], hquiet, rfl⟩, h₁.talks, h₁.words⟩
  · have hjoins : Joins i s₁ ((s₁.acceptPeer i a.peer fd a).deliver i a.peer s₁.freshBlock) :=
      { s₁.joins_acceptPeer i a.peer fd a with }
    have hnew : s.allocates inetPton a = true := by
      rw [halloc, heq, decide_eq_true_eq, ← hobject]
      have hid := (received_handleInput (i := i)
        (s := (s₁.acceptPeer i a.peer fd a).deliver i a.peer s₁.freshBlock)
        s₁.freshBlock a.datagram.data a.input).pool
      rw [show _ = _ from congrArg Pool.objectId hid, hjoins.objectId]
      exact s₁.nextId_ne
    have htcp : testbits (s₁.kind i) Ycm.tcp = false := by
      rw [hkind]
      exact (takesDatagram_iff.1 htakes).2.2.1
    have htells := h₁.firstDatagram hjoins ((hmay.welcome hnew).of_quiet hq) htcp
      (fun hforward => by
        rw [hq.rest.2] at hforward
        rw [hkind]
        exact hmay.first htakes hforward hnew) a.datagram.data a.input
    rw [hfind, heq]
    dsimp only
    obtain ⟨es, hsay, hes⟩ := htells.word
    refine ⟨⟨_, hquiet.trans hsay, ?_⟩, htells.speaking⟩
    have hid : s₁.nextId = s.nextId := congrArg (fun n => (n + 1) % 2 ^ 32) hobject
    rw [List.nil_append, hes]
    unfold datagramEvent transportEvent
    rw [hjoins.cls, hjoins.ctx, hjoins.id, hkind, hid, hfresh]
    by_cases hkcp : TransportClass.ofKind (s.kind i) = .kcp
    · rw [if_pos hkcp, if_neg fun h => h.2 hkcp]
    · rw [if_neg hkcp, if_pos ⟨hnew, hkcp⟩]

theorem Tells.visitChannel (h : s.Speaking)
    (halloc : s.allocates inetPton a =
      decide ((s.visitChannel inetPton n i a).objectId ≠ s.objectId))
    (hmay : s.MayTurn inetPton i a) :
    Tells s (s.visitChannel inetPton n i a) (s.heard inetPton i a) := by
  cases htakes : s.takesDatagram i a with
  | false =>
    obtain ⟨t, hturn, ht⟩ := s.exists_channelTurn inetPton n i a
    have hobject : (s.visitChannel inetPton n i a).objectId = t.objectId := by
      rcases ht with ht | ht <;> rw [ht]
    have hnone : s.heard inetPton i a = none := by
      unfold heard
      rw [htakes, if_neg Bool.false_ne_true]
    have htells : Tells s t none := h.channelTurn hturn htakes fun hne =>
      hmay.welcome (by rw [halloc, hobject]; exact decide_eq_true hne)
    rw [hnone]
    rcases ht with ht | ht <;> rw [ht]
    · exact ⟨htells.word, htells.speaking.talks, htells.speaking.words⟩
    · exact ⟨htells.word, htells.speaking.talks, htells.speaking.words⟩
  | true =>
    obtain ⟨s₁, hq, ht⟩ := s.exists_datagramTurn inetPton n htakes
    have hobject : (s.visitChannel inetPton n i a).objectId =
        (s₁.acceptDatagram i a.datagram.data a).objectId := by
      rcases ht with ht | ht <;> rw [ht]
    have htells := h.acceptDatagram hq htakes (hobject ▸ halloc) hmay
    rcases ht with ht | ht <;> rw [ht]
    · exact ⟨htells.word, htells.speaking.talks, htells.speaking.words⟩
    · exact ⟨htells.word, htells.speaking.talks, htells.speaking.words⟩

end Service

/-! ## Steps and runs -/

namespace Service

variable {inetPton : Host → Option Ip} {s : Service} {b : Block}

theorem Tells.visitTransport (h : s.Speaking) (hp : s.toPool.Sound) {n : ℕ} {a : TransportAnswers}
    (hb : s.transports[n]? = some b)
    (huntold : s.options.forwardPacket = true → s.readPacket b a ≠ none →
      s.untold b (s.built b).id = []) :
    Tells s (s.visitTransport n b a)
      ((s.readPacket b a).map fun p => s.transportEvent b .onPacket 0 p) := by
  have hmem := List.mem_of_getElem? hb
  obtain ⟨t, es, hread, hend⟩ := s.exists_read n (fun hssl => (h.talks b hmem).idle hssl) huntold
  have hes : packets es =
      ((s.readPacket b a).map fun p => s.transportEvent b .onPacket 0 p).toList := by
    obtain ⟨hes, -⟩ | ⟨-, hnone, hes, -⟩ := hread.spoken
    · rw [hes]
      cases s.readPacket b a <;> rfl
    · rw [hes, hnone]
      rfl
  have ht : Tells s t _ := ⟨⟨es, hread.word, hes⟩, h.read hmem hread⟩
  generalize s.visitTransport n b a = u at hend
  cases hend with
  | thrown | kept => exact ⟨ht.word, ht.speaking.talks, ht.speaking.words⟩
  | dropped =>
    have htransports : t.transports = s.transports :=
      congrArg Pool.transports hread.beside.pool
    refine ⟨⟨es ++ t.closeEvents b, ?_, ?_⟩,
      ht.speaking.dropTransport (hread.beside.pool ▸ hp) (htransports ▸ hb) a.tail⟩
    · obtain ⟨chan, io, sockets, heq, -⟩ := t.exists_dropTransport n b a.tail
      refine hread.word.trans ?_
      rw [heq]
      exact says_of_queue rfl rfl rfl
    · rw [packets_append, hes]
      unfold closeEvents
      split
      · exact List.append_nil _
      · exact List.append_nil _

/-- The packet that a step takes from a stream or a datagram. -/
def produces (inetPton : Host → Option Ip) (s : Service) : Action → Option Event
  | .transport a =>
    s.transportTurn.bind fun x =>
      (s.readPacket x.2 a).map fun p => s.transportEvent x.2 .onPacket 0 p
  | .channel a => s.channelTurn.bind fun i => s.heard inetPton i a
  | _ => none

end Service

/-- With forwarding, no packet of a transport is read while an event of it waits; and the turns of
the channels are those of `MayTurn`. -/
def WordsKept (inetPton : Host → Option Ip) (s : Service) : Action → Prop
  | .transport a =>
    ∀ x ∈ s.transportTurn, s.options.forwardPacket = true →
      s.untold x.2 (s.built x.2).id ≠ [] → s.readPacket x.2 a = none
  | .channel a => ∀ i ∈ s.channelTurn, s.MayTurn inetPton i a
  | _ => True

instance (inetPton : Host → Option Ip) (s : Service) (a : Action) :
    Decidable (WordsKept inetPton s a) := by
  unfold WordsKept
  induction a using Action.casesOn <;> infer_instance

/-- The packets that a run takes from the streams, in this order. -/
def produced (inetPton : Host → Option Ip) : List Action → Service → List Event
  | [], _ => []
  | a :: as, s =>
    (s.produces inetPton a).toList ++ (step inetPton a s).elim [] (produced inetPton as)

namespace Service

variable {inetPton : Host → Option Ip} {s : Service} {b : Block}

theorem transportTurn_eq {n : ℕ} (hn : s.phase = .transports n) :
    s.transportTurn = s.transports[n]?.map fun b => (n, b) := by
  unfold transportTurn
  rw [hn]

theorem channelTurn_eq {n : ℕ} (hn : s.phase = .channels n) : s.channelTurn = s.channelOps[n]? := by
  unfold channelTurn
  rw [hn]

theorem Speaking.effect (h : s.Speaking) (horderly : s.Orderly) {a : Action}
    (henabled : s.enabled a = true) (hcond : WordsKept inetPton s a) :
    Tells s (s.effect inetPton a) (s.produces inetPton a) := by
  -- A step of which no transport says anything.
  have hsame : ∀ {t : Service}, t.seen = s.seen → t.waiting = s.waiting →
      t.transports = s.transports → t.built = s.built →
      (∀ b, (t.io b).state = (s.io b).state) → t.rx = s.rx → t.uparams = s.uparams →
      Tells s t none := by
    intro t hseen hwaiting htransports hbuilt hstate hrx huparams
    have hsay : s.Says t [] := says_of_same hseen hwaiting
    exact ⟨⟨[], hsay, rfl⟩,
      h.of_same hsay (fun b hb => htransports ▸ hb) hbuilt hstate hrx huparams⟩
  cases a with
  | transport a =>
    obtain ⟨n, hn, ⟨hnone, heq⟩ | ⟨b, hb, heq⟩⟩ := transport_cases inetPton henabled
    · rw [heq, produces, transportTurn_eq hn, hnone]
      exact hsame rfl rfl rfl rfl (fun _ => rfl) rfl rfl
    · rw [heq, produces, transportTurn_eq hn, hb]
      refine .visitTransport h horderly.sound hb fun hforward hpacket => ?_
      by_contra hwaits
      exact hpacket (hcond _ (mem_transportTurn hn hb) hforward hwaits)
  | channel a =>
    obtain ⟨n, hn, ⟨hnone, heq⟩ | ⟨i, hi, heq⟩⟩ := channel_cases inetPton henabled
    · rw [heq, produces, channelTurn_eq hn, hnone]
      exact hsame rfl rfl rfl rfl (fun _ => rfl) rfl rfl
    · have halloc : s.allocates inetPton a =
          decide ((s.visitChannel inetPton n i a).objectId ≠ s.objectId) := by
        unfold allocates
        rw [heq]
      rw [heq, produces, channelTurn_eq hn, hi]
      exact .visitChannel h halloc (hcond _ (mem_channelTurn hn hi))
  | timer again =>
    obtain ⟨n, hn, heq⟩ := timer_cases inetPton henabled
    obtain ⟨i, t, phase, ht, -, heq'⟩ := s.exists_processTimer inetPton n again
    have hsay : s.Says t [] := says_of_quiet ht
    rw [heq, heq']
    exact ⟨⟨[], fun b id => hsay b id, rfl⟩, (h.quiet ht).talks, (h.quiet ht).words⟩
  | nextEvent =>
    cases hdeal : s.deal with
    | nil => simp [enabled, hdeal] at henabled
    | cons e rest =>
      have hsay : s.Says (s.effect inetPton .nextEvent) [] := by
        apply says_of_all
        simp [Service.effect, waiting, hdeal]
      exact ⟨⟨[], hsay, rfl⟩,
        h.of_same hsay (fun b hb => hb) rfl (fun _ => rfl) rfl rfl⟩
  | beginDispatch count =>
    exact hsame rfl (deal_beginDispatch count) rfl rfl (fun _ => rfl) rfl rfl
  | join =>
    obtain ⟨events, heq, hdeal, -⟩ := s.exists_join
    dsimp only [Service.effect]
    rw [heq]
    exact hsame rfl hdeal rfl rfl (fun _ => rfl) rfl rfl
  | closeTransport b =>
    refine hsame rfl rfl rfl rfl (fun b' => ?_) rfl rfl
    rcases eq_or_ne b' b with rfl | hne
    · simp [Service.effect, setIo]
    · simp [Service.effect, setIo, hne]
  | udpConnect b ok =>
    obtain ⟨udp, sockPeer, heq, -⟩ := s.exists_udpConnect b ok
    dsimp only [Service.effect]
    rw [heq]
    exact hsame rfl rfl rfl rfl (fun _ => rfl) rfl rfl
  | cancelTimer n =>
    obtain ⟨timers, heq⟩ := s.exists_cancelTimer (.user n)
    dsimp only [Service.effect]
    rw [heq]
    exact hsame rfl rfl rfl rfl (fun _ => rfl) rfl rfl
  | finishStop =>
    obtain ⟨io, sockets, heq⟩ := s.exists_clearTransports
    dsimp only [Service.effect, finishStop]
    rw [heq]
    exact ⟨⟨[], says_of_same rfl rfl, rfl⟩, fun b hb => absurd hb List.not_mem_nil, h.words⟩
  | answer n result => cases result <;> exact hsame rfl rfl rfl rfl (fun _ => rfl) rfl rfl
  | _ => exact hsame rfl rfl rfl rfl (fun _ => rfl) rfl rfl

theorem packets_filter (es : List Event) (b : Block) (id : ℕ) :
    packets (es.filter (Event.isOf b id)) = (packets es).filter (Event.isOf b id) :=
  List.filter_comm ..

/-- What a run says of each transport. -/
theorem Speaking.run {as : List Action} {s' : Service} (h : s.Speaking) (horderly : s.Orderly)
    (hcond : Machine.Meets (step inetPton) (WordsKept inetPton) as s)
    (hrun : Machine.run (step inetPton) as s = some s') :
    s'.Speaking ∧ ∀ b id, packets (s'.word b id) =
      packets (s.word b id) ++ (produced inetPton as s).filter (Event.isOf b id) := by
  induction as generalizing s with
  | nil =>
    obtain rfl : s = s' := by simpa using hrun
    exact ⟨h, fun b id => by simp [produced]⟩
  | cons a as ih =>
    obtain ⟨t, ht, hrun⟩ := Machine.run_cons.1 hrun
    obtain ⟨ha, hcond⟩ := Machine.meets_cons.1 hcond
    obtain ⟨henabled, heffect⟩ := step_eq_some.1 ht
    obtain ⟨⟨es, hsay, hes⟩, hspeaking⟩ := h.effect horderly henabled ha
    rw [heffect] at hsay hspeaking
    obtain ⟨hs', hwords⟩ := ih hspeaking (heffect ▸ horderly.effect henabled) (hcond t ht) hrun
    refine ⟨hs', fun b id => ?_⟩
    rw [hwords, hsay, packets_append, packets_filter, hes, produced, ht, Option.elim_some,
      List.filter_append, List.append_assoc]

end Service

/-- The events of each transport that the callback sees are one conversation, and its packets are
seen in the order in which they were taken from the stream. -/
theorem conversations_of_run {inetPton : Host → Option Ip} {channelCount : ℕ} {options : Options}
    {uparams : ℕ → UnpackParams} {as : List Action} {s : Service}
    (hrun : Machine.run (step inetPton) as (.fresh channelCount options uparams) = some s)
    (hcond : Machine.Meets (step inetPton) (WordsKept inetPton) as
      (.fresh channelCount options uparams)) (b : Block) (id : ℕ) :
    Conversation (s.told b id) ∧
      packets (s.told b id) <+:
        (produced inetPton as (.fresh channelCount options uparams)).filter (Event.isOf b id) := by
  have hfresh : (Service.fresh channelCount options uparams).Speaking :=
    ⟨nofun, fun _ _ => .silent⟩
  obtain ⟨hspeaking, hwords⟩ :=
    hfresh.run (Service.orderly_fresh channelCount options uparams) hcond hrun
  have htold : s.told b id <+: s.word b id := List.prefix_append _ _
  refine ⟨(hspeaking.words b id).cut htold, ?_⟩
  have hpackets : packets (s.told b id) <+: packets (s.word b id) := htold.filter _
  rw [hwords b id] at hpackets
  exact hpackets

/-- The first event of the queue is dispatched. -/
def dispatchFirst : List Action := [.beginDispatch 1, .nextEvent, .endEvent, .endDispatch]

/-- A KCP server that forwards: the transport of the first peer is announced before its first
packet comes, and the user closes it. -/
def forwardKcp : List Action :=
  [.start, .openKind 0 Yck.kcpServer] ++ openUdpServer.drop 2 ++ acceptFirst (.in4 1 80) ++
    dispatchFirst ++
    [.frame 3, .poll (some fun _ => {}), .transport { message := .bytes [7, 8] }, .transport {},
      .channel {}, .channel {}, .timer none, .endEvents, .closeTransport 0, .frame 4, .transport {},
      .transport {}, .channel {}, .channel {}, .timer none, .endEvents] ++ dispatchFirst

theorem conversations_of_run_forwardKcp :
    ∃ s, Machine.run (step fun _ => none) forwardKcp
        (.fresh 1 { noDispatch := true, forwardPacket := true } fun _ => {}) = some s ∧
      (s.told 0 2).map Event.kind = [.onOpen, .onPacket, .onClose] ∧
      Conversation (s.told 0 2) ∧
      packets (s.told 0 2) <+: (produced (fun _ => none) forwardKcp
        (.fresh 1 { noDispatch := true, forwardPacket := true } fun _ => {})).filter
          (Event.isOf 0 2) := by
  obtain ⟨s, hrun, hkinds⟩ := Machine.exists_of_any (step fun _ => none) forwardKcp
    (.fresh 1 { noDispatch := true, forwardPacket := true } fun _ => {})
    (fun s => (s.told 0 2).map Event.kind = [.onOpen, .onPacket, .onClose]) (by decide +kernel)
  exact ⟨s, hrun, hkinds, conversations_of_run hrun (by decide +kernel) 0 2⟩

/-- The first datagram of a new peer is forwarded while the open event of its transport waits. -/
theorem not_conversation_of_forwarded :
    ∃ s, Machine.run (step fun _ => none) (openUdpServer ++ acceptFirst (.in4 1 80))
        (.fresh 1 { noDispatch := true, forwardPacket := true } fun _ => {}) = some s ∧
      ¬ Conversation (s.told 0 2) := by
  obtain ⟨s, hrun, hkinds⟩ := Machine.exists_of_any (step fun _ => none)
    (openUdpServer ++ acceptFirst (.in4 1 80))
    (.fresh 1 { noDispatch := true, forwardPacket := true } fun _ => {})
    (fun s => (s.told 0 2).map Event.kind = [.onPacket]) (by decide +kernel)
  refine ⟨s, hrun, fun h => ?_⟩
  generalize s.told 0 2 = w at h hkinds
  cases h with
  | silent => cases hkinds
  | going hopen | closed hopen => cases hopen.symm.trans (List.cons.inj hkinds).1

end Yasio
