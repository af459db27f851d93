import Yasio.Service.Step

/-!
# The destinations of a UDP client

`io_transport_udp::write`, `write_to`, `connect` and `disconnect` on the transport of a UDP client,
`do_write`, which sends the operation at the head of the queue, and the read, which makes the sender
of a datagram the peer of an unconnected transport.  The constructor, `connect` and `disconnect`
call `set_primitives`, so that `write_cb_` sends to the peer of the socket just when `connected_` is
set.
-/

namespace Yasio

/-- An `io_send_op`, or an `io_sendto_op` with its destination, and the destination that was in
force when it was queued. -/
structure Datagram where
  data : List UInt8
  offset : ℕ := 0
  destination : Option Endpoint
  inForce : Endpoint
  deriving DecidableEq, Repr

/-- A call of `send` or `sendto`: where it sends, none for a `sendto` without a destination, and
the destination that was in force. -/
structure Performed where
  target : Option Endpoint
  inForce : Endpoint
  deriving DecidableEq, Repr

/-- The transport, the peer of its socket, and the calls so far. -/
structure UdpClient extends Udp where
  sockPeer : Endpoint := .unspec
  queue : List Datagram := []
  performed : List Performed := []
  deriving DecidableEq, Repr

namespace UdpClient

variable (t : UdpClient)

/-- `connect`; `remote` is the first of `remote_eps_`, and `ok` what `connect_n` answers. -/
def connect (remote : Endpoint) (ok : Bool) : UdpClient :=
  let peer := if t.peer = .unspec then remote else t.peer
  if t.connected || peer = .unspec then t
  else { t with connected := ok, peer, sockPeer := if ok then peer else t.sockPeer }

/-- `disconnect` -/
def disconnect : UdpClient := { t with connected := false, sockPeer := .unspec }

/-- `confgure_remote` on a new transport. -/
def fresh (remote : Endpoint) (mcast ok : Bool) : UdpClient :=
  let t : UdpClient := { peer := remote }
  if mcast then t else t.connect remote ok

/-- `ensure_destination` -/
def ensureDestination : Endpoint := if t.destination = .unspec then t.peer else t.destination

/-- `write` of a buffer that is not empty -/
def write (data : List UInt8) : UdpClient :=
  if t.connected then
    { t with queue := t.queue ++ [{ data, destination := none, inForce := t.peer }] }
  else
    { t with
      destination := t.ensureDestination
      queue := t.queue ++ [{ data, destination := some t.ensureDestination, inForce := t.peer }] }

/-- `write_to` -/
def writeTo (data : List UInt8) (dest : Endpoint) : UdpClient :=
  { t with queue := t.queue ++ [{ data, destination := some dest, inForce := dest }] }

/-- Where `write_cb_` sends this operation. -/
def target (op : Datagram) : Option Endpoint :=
  if t.connected then some t.sockPeer else op.destination

/-- A datagram is read. -/
def receive (sender : Endpoint) : UdpClient :=
  { t with peer := if t.connected then t.peer else sender }

/-- What `call_write` leaves of the operation; `send` is what the primitive answers. -/
def callWrite (op : Datagram) : RawSend → Option Datagram
  | .sent n =>
    if op.offset + n < op.data.length then some { op with offset := op.offset + n } else none
  | .zero _ => some op
  | .fail errno => if notSendError errno then some op else none

/-- `do_write` -/
def doWrite (send : RawSend) : UdpClient :=
  match t.queue with
  | [] => t
  | op :: rest =>
    { t with
      queue := (callWrite op send).toList ++ rest
      performed := t.performed ++ [⟨t.target op, op.inForce⟩] }

inductive Action
  | write (data : List UInt8)
  | writeTo (data : List UInt8) (dest : Endpoint)
  | connect (ok : Bool)
  | disconnect
  | doWrite (send : RawSend)
  | receive (sender : Endpoint)

/-- The step of a transport whose channel was resolved to `remote`; `io_service::write` refuses
empty buffers. -/
def step (remote : Endpoint) (a : Action) (t : UdpClient) : Option UdpClient :=
  match a with
  | .write data => if data = [] then none else some (t.write data)
  | .writeTo data dest => if data = [] then none else some (t.writeTo data dest)
  | .connect ok => some (t.connect remote ok)
  | .disconnect => some t.disconnect
  | .doWrite send => some (t.doWrite send)
  | .receive sender => some (t.receive sender)

/-- An operation that is sent was queued without a destination just if the transport is connected,
or with the peer as its destination. -/
def SentAsQueued (t : UdpClient) : Action → Prop
  | .doWrite _ => ∀ op ∈ t.queue.head?,
    if t.connected then op.destination = none ∨ op.destination = some t.peer
    else op.destination ≠ none
  | _ => True

instance (t : UdpClient) (a : Action) : Decidable (t.SentAsQueued a) := by
  unfold SentAsQueued
  split <;> infer_instance

/-- No datagram of another sender is read while a plain operation of the last connection waits, and
what an unconnected transport writes to is still its peer. -/
def PeerKept (t : UdpClient) : Action → Prop
  | .receive sender =>
    t.connected ∨ sender = t.peer ∨ ∀ op ∈ t.queue, op.destination ≠ none
  | .write _ => t.connected ∨ t.destination = .unspec ∨ t.destination = t.peer
  | _ => True

instance (t : UdpClient) (a : Action) : Decidable (t.PeerKept a) := by
  unfold PeerKept
  split <;> infer_instance

/-- The invariant.  The peer changes only while no operation waits that was queued for it without a
destination. -/
structure Addressed (t : UdpClient) : Prop where
  peer : t.connected = true → t.sockPeer = t.peer
  explicit : ∀ op ∈ t.queue, ∀ dest ∈ op.destination, op.inForce = dest
  implicit : ∀ op ∈ t.queue, op.destination = none → op.inForce = t.peer ∧ t.peer ≠ .unspec
  bound : t.connected = true → t.peer ≠ .unspec

variable {t}

theorem ensureDestination_eq (h : t.destination = .unspec ∨ t.destination = t.peer) :
    t.ensureDestination = t.peer := by
  unfold ensureDestination
  split
  · rfl
  · rename_i hdest
    exact h.resolve_left hdest

theorem Addressed.connect (h : t.Addressed) (remote : Endpoint) (ok : Bool) :
    (t.connect remote ok).Addressed := by
  unfold UdpClient.connect
  by_cases hpeer : t.peer = .unspec
  · -- the peer is set, and no operation relied on it
    have himplicit : ∀ op ∈ t.queue, op.destination ≠ none :=
      fun op hop hnone => (h.implicit op hop hnone).2 hpeer
    simp only [hpeer, ↓reduceIte]
    split
    · exact h
    · rename_i hnew
      refine ⟨fun hok => if_pos hok, h.explicit,
        fun op hop hnone => absurd hnone (himplicit op hop), fun _ hunspec => hnew ?_⟩
      simp [show remote = .unspec from hunspec]
  · simp only [hpeer, ↓reduceIte]
    split
    · exact h
    · exact ⟨fun hok => if_pos hok, h.explicit, h.implicit, fun _ => hpeer⟩

theorem Addressed.fresh (remote : Endpoint) (mcast ok : Bool) :
    (UdpClient.fresh remote mcast ok).Addressed := by
  have h : ({ peer := remote } : UdpClient).Addressed :=
    ⟨nofun, nofun, nofun, nofun⟩
  unfold UdpClient.fresh
  cases mcast with
  | true => exact h
  | false => exact h.connect remote ok

/-- What a queued operation says of its destination. -/
theorem Addressed.enqueue (h : t.Addressed) {op : Datagram}
    (hexplicit : ∀ dest ∈ op.destination, op.inForce = dest)
    (himplicit : op.destination = none → op.inForce = t.peer ∧ t.peer ≠ .unspec) :
    ({ t with queue := t.queue ++ [op] } : UdpClient).Addressed := by
  refine ⟨h.peer, ?_, ?_, h.bound⟩
  · intro op' hop'
    rcases List.mem_append.1 hop' with hop' | hop'
    · exact h.explicit op' hop'
    · rw [List.mem_singleton.1 hop']
      exact hexplicit
  · intro op' hop'
    rcases List.mem_append.1 hop' with hop' | hop'
    · exact h.implicit op' hop'
    · rw [List.mem_singleton.1 hop']
      exact himplicit

theorem Addressed.write (h : t.Addressed) {data : List UInt8} (hkept : t.PeerKept (.write data)) :
    (t.write data).Addressed := by
  unfold UdpClient.write
  split
  · rename_i hconnected
    exact h.enqueue nofun fun _ => ⟨rfl, h.bound hconnected⟩
  · rename_i hconnected
    rw [ensureDestination_eq (hkept.resolve_left hconnected)]
    have hpeer : ({ t with destination := t.peer } : UdpClient).Addressed :=
      ⟨h.peer, h.explicit, h.implicit, h.bound⟩
    apply hpeer.enqueue
    · intro dest hdest
      exact Option.some.inj hdest
    · intro hnone
      cases hnone

theorem Addressed.receive (h : t.Addressed) {sender : Endpoint}
    (hkept : t.PeerKept (.receive sender)) : (t.receive sender).Addressed := by
  unfold UdpClient.receive
  by_cases hconnected : t.connected = true
  · rw [if_pos hconnected]
    exact h
  · rw [if_neg hconnected]
    refine ⟨fun hon => absurd hon hconnected, h.explicit, ?_, fun hon => absurd hon hconnected⟩
    rcases hkept.resolve_left hconnected with rfl | hqueue
    · exact h.implicit
    · exact fun op hop hnone => absurd hnone (hqueue op hop)

theorem callWrite_eq {op op' : Datagram} {send : RawSend} (h : op' ∈ callWrite op send) :
    op'.destination = op.destination ∧ op'.inForce = op.inForce := by
  cases send with
  | sent n =>
    obtain ⟨-, rfl⟩ : op.offset + n < op.data.length ∧
        { op with offset := op.offset + n } = op' := by
      simpa [callWrite] using h
    exact ⟨rfl, rfl⟩
  | zero errno =>
    obtain rfl : op = op' := by simpa [callWrite] using h
    exact ⟨rfl, rfl⟩
  | fail errno =>
    obtain ⟨-, rfl⟩ : notSendError errno = true ∧ op = op' := by
      simpa [callWrite] using h
    exact ⟨rfl, rfl⟩

theorem Addressed.doWrite (h : t.Addressed) (send : RawSend) : (t.doWrite send).Addressed := by
  unfold UdpClient.doWrite
  cases hq : t.queue with
  | nil => exact h
  | cons op rest =>
    have hop : op ∈ t.queue := hq ▸ List.mem_cons_self
    have hrest : ∀ op' ∈ rest, op' ∈ t.queue := fun op' h => hq ▸ List.mem_cons_of_mem _ h
    refine ⟨h.peer, ?_, ?_, h.bound⟩
    · intro op' hop'
      rcases List.mem_append.1 hop' with hop' | hop'
      · obtain ⟨hdest, hforce⟩ := callWrite_eq (Option.mem_toList.1 hop')
        rw [hdest, hforce]
        exact h.explicit op hop
      · exact h.explicit op' (hrest op' hop')
    · intro op' hop'
      rcases List.mem_append.1 hop' with hop' | hop'
      · obtain ⟨hdest, hforce⟩ := callWrite_eq (Option.mem_toList.1 hop')
        rw [hdest, hforce]
        exact h.implicit op hop
      · exact h.implicit op' (hrest op' hop')

theorem Addressed.step {remote : Endpoint} {a : Action} {t' : UdpClient} (h : t.Addressed)
    (hkept : t.PeerKept a) (hstep : step remote a t = some t') : t'.Addressed := by
  cases a with
  | write data =>
    obtain ⟨-, rfl⟩ : data ≠ [] ∧ t.write data = t' := by simpa [UdpClient.step] using hstep
    exact h.write hkept
  | writeTo data dest =>
    obtain ⟨-, rfl⟩ : data ≠ [] ∧ t.writeTo data dest = t' := by
      simpa [UdpClient.step] using hstep
    refine h.enqueue (fun dest' hdest' => ?_) nofun
    exact Option.some.inj hdest'
  | connect ok =>
    cases hstep
    exact h.connect remote ok
  | disconnect =>
    cases hstep
    exact ⟨nofun, h.explicit, h.implicit, nofun⟩
  | doWrite send =>
    cases hstep
    exact h.doWrite send
  | receive sender =>
    cases hstep
    exact h.receive hkept

/-- All calls so far went to the destination that was in force. -/
def Preserved (t : UdpClient) : Prop := ∀ p ∈ t.performed, p.target = some p.inForce

/-- Where an operation of the queue goes. -/
theorem Addressed.target_iff (h : t.Addressed) {op : Datagram} (hop : op ∈ t.queue) :
    t.target op = some op.inForce ↔
      if t.connected then op.destination = none ∨ op.destination = some t.peer
      else op.destination ≠ none := by
  unfold target
  cases hconnected : t.connected with
  | true =>
    simp only [↓reduceIte, Option.some.injEq, h.peer hconnected]
    cases hdest : op.destination with
    | none => simp [(h.implicit op hop hdest).1]
    | some dest => simp [h.explicit op hop dest hdest, eq_comm]
  | false =>
    simp only [Bool.false_eq_true, ↓reduceIte]
    cases hdest : op.destination with
    | none => simp
    | some dest => simp [h.explicit op hop dest hdest]

theorem preserved_doWrite_iff (h : t.Addressed) (send : RawSend) :
    (t.doWrite send).Preserved ↔ t.Preserved ∧ t.SentAsQueued (.doWrite send) := by
  unfold Preserved UdpClient.doWrite SentAsQueued
  cases hq : t.queue with
  | nil => simp
  | cons op rest =>
    have htarget := h.target_iff (hq ▸ List.mem_cons_self : op ∈ t.queue)
    simp only [List.mem_append, List.mem_singleton, List.head?_cons, Option.mem_def,
      Option.some.injEq, forall_eq', ← htarget]
    constructor
    · intro hall
      exact ⟨fun p hp => hall p (.inl hp), hall _ (.inr rfl)⟩
    · rintro ⟨hold, hnew⟩ p (hp | rfl)
      · exact hold p hp
      · exact hnew

theorem performed_connect (remote : Endpoint) (ok : Bool) :
    (t.connect remote ok).performed = t.performed := by
  unfold UdpClient.connect
  dsimp only
  generalize (if t.peer = .unspec then remote else t.peer) = peer
  split <;> rfl

theorem preserved_step_iff {remote : Endpoint} {a : Action} {t' : UdpClient} (h : t.Addressed)
    (hstep : step remote a t = some t') : t'.Preserved ↔ t.Preserved ∧ t.SentAsQueued a := by
  cases a with
  | write data =>
    obtain ⟨-, rfl⟩ : data ≠ [] ∧ t.write data = t' := by simpa [UdpClient.step] using hstep
    unfold Preserved UdpClient.write SentAsQueued
    cases t.connected <;> simp
  | writeTo data dest =>
    obtain ⟨-, rfl⟩ : data ≠ [] ∧ t.writeTo data dest = t' := by
      simpa [UdpClient.step] using hstep
    exact (and_iff_left trivial).symm
  | connect ok =>
    cases hstep
    unfold Preserved
    rw [performed_connect]
    exact (and_iff_left trivial).symm
  | disconnect =>
    cases hstep
    exact (and_iff_left trivial).symm
  | doWrite send =>
    cases hstep
    exact preserved_doWrite_iff h send
  | receive sender =>
    cases hstep
    exact (and_iff_left trivial).symm

/-- In every order of writes, connects, disconnects, flushes and datagrams that come in on the
transport of a UDP client, as long as those that come in do not move the peer from what is to be
sent to it, all datagrams go to the destination that was in force when they were queued, and none
without one, exactly when no operation is sent in another mode than it was queued for. -/
theorem destinations_of_run {remote : Endpoint} {mcast ok : Bool} {as : List Action}
    {t : UdpClient} (hkept : Machine.Meets (step remote) PeerKept as (fresh remote mcast ok))
    (hrun : Machine.run (step remote) as (fresh remote mcast ok) = some t) :
    (∀ p ∈ t.performed, p.target = some p.inForce) ↔
      Machine.Meets (step remote) SentAsQueued as (fresh remote mcast ok) := by
  have hnone : (fresh remote mcast ok).performed = [] := by
    unfold fresh
    cases mcast with
    | true => rfl
    | false => exact performed_connect remote ok
  have hstart : (fresh remote mcast ok).Preserved := by
    intro p hp
    rw [hnone] at hp
    cases hp
  have h : t.Preserved ↔ (fresh remote mcast ok).Preserved ∧
      Machine.Meets (step remote) SentAsQueued as (fresh remote mcast ok) := by
    refine Machine.iff_meets_of_meets ?_ ?_ (Addressed.fresh remote mcast ok) hkept hrun
    · exact fun t a t' h hkept => h.step hkept
    · exact fun t a t' h _ => preserved_step_iff h
  exact h.trans (and_iff_right hstart)

/-- A plain write is sent before the transport is disconnected; a datagram of another peer comes in,
and a plain write and a `write_to` are sent after that. -/
theorem destinations_of_run_writeTo :
    ∃ t, Machine.run (step (.in4 7 80))
        [.write [1], .doWrite (.sent 1), .disconnect, .receive (.in4 9 99), .write [2],
          .writeTo [3] (.in4 8 90), .doWrite (.sent 1), .doWrite (.sent 1)]
        (fresh (.in4 7 80) false true) = some t ∧
      t.performed.length = 3 ∧ ∀ p ∈ t.performed, p.target = some p.inForce := by
  obtain ⟨t, hrun, hlength⟩ := Machine.exists_of_any (step (.in4 7 80))
    [.write [1], .doWrite (.sent 1), .disconnect, .receive (.in4 9 99), .write [2],
      .writeTo [3] (.in4 8 90), .doWrite (.sent 1), .doWrite (.sent 1)]
    (fresh (.in4 7 80) false true) (fun t => t.performed.length = 3) (by decide +kernel)
  exact ⟨t, hrun, hlength, (destinations_of_run (by decide +kernel) hrun).2 (by decide +kernel)⟩

/-- A plain write meets a disconnected transport; then a datagram for one peer goes to another. -/
theorem destinations_changed :
    ∃ t, Machine.run (step (.in4 7 80))
        [.write [1], .disconnect, .doWrite (.sent 1), .writeTo [2] (.in4 8 90), .connect true,
          .doWrite (.sent 1)] (fresh (.in4 7 80) false true) = some t ∧
      t.performed = [⟨none, .in4 7 80⟩, ⟨some (.in4 7 80), .in4 8 90⟩] :=
  Machine.exists_of_any _ _ _ _ (by decide +kernel)

/-- A datagram that comes in between moves the peer, and the plain write goes to its sender. -/
example : (Machine.run (step (.in4 7 80))
      [.write [1], .disconnect, .receive (.in4 9 99), .connect true, .doWrite (.sent 1)]
      (fresh (.in4 7 80) false true)).map UdpClient.performed =
    some [⟨some (.in4 9 99), .in4 7 80⟩] := by
  decide +kernel

/-! ## The transport in the service -/

/-- The transport `b` of the service is in this state. -/
structure Mirrors (s : Service) (b : Block) (t : UdpClient) : Prop where
  udp : s.udp b = t.toUdp
  sockPeer : s.sockPeer (s.built b).sock = t.sockPeer
  queue : (s.tx b).sendQueue.map (fun op => (op.data, op.offset, op.destination)) =
    t.queue.map fun op => (op.data, op.offset, op.destination)

namespace Mirrors

variable {s : Service} {b : Block} (h : Mirrors s b t)
include h

theorem udpConnect (ok : Bool) :
    Mirrors (s.udpConnect b ok) b
      (t.connect ((s.net (s.built b).ctx).remoteEps.head?.elim .unspec RemoteEp.ep) ok) := by
  unfold Service.udpConnect UdpClient.connect
  dsimp only
  rw [h.udp]
  generalize (if t.peer = .unspec then _ else t.peer) = peer
  split
  · exact h
  · cases ok <;> exact ⟨by simp, by simp [h.sockPeer], h.queue⟩

theorem udpDisconnect : Mirrors (s.udpDisconnect b) b t.disconnect := by
  refine ⟨?_, ?_, h.queue⟩
  · simp [Service.udpDisconnect, disconnect, h.udp]
  · simp [Service.udpDisconnect, disconnect]

theorem receiveFrom (hcls : (s.built b).cls.isUdp = true) {a : TransportAnswers}
    (hdata : a.raw.data ≠ [])
    (hready : s.ready (s.built b).sock { read := true, error := true } = true) :
    Mirrors (s.receiveFrom b a) b (t.receive a.peer) := by
  unfold Service.receiveFrom UdpClient.receive
  dsimp only
  rw [if_pos ⟨hcls, hdata, hready⟩]
  exact ⟨by simp [h.udp], h.sockPeer, h.queue⟩

theorem enqueue_write (hcls : (s.built b).cls.isUdp = true) (data : List UInt8)
    (origin : Option ℕ) :
    Mirrors (s.enqueue b (s.sendOp b data none origin) none) b (t.write data) := by
  unfold UdpClient.write
  cases hconnected : t.connected with
  | true =>
    refine ⟨?_, h.sockPeer, ?_⟩
    · simp [Service.enqueue, Service.sendOp, h.udp, ← hconnected]
    · simp [Service.enqueue, Service.sendOp, h.udp, hconnected, h.queue]
  | false =>
    refine ⟨?_, h.sockPeer, ?_⟩
    · simp [Service.enqueue, Service.sendOp, h.udp, hconnected, hcls, ensureDestination]
    · simp [Service.enqueue, Service.sendOp, h.udp, hconnected, hcls, ensureDestination, h.queue]

theorem enqueue_writeTo (data : List UInt8) (dest : Endpoint) (origin : Option ℕ) :
    Mirrors (s.enqueue b (s.sendOp b data (some dest) origin) (some dest)) b
      (t.writeTo data dest) := by
  refine ⟨?_, h.sockPeer, ?_⟩
  · simp [Service.enqueue, UdpClient.writeTo, h.udp]
  · simp [Service.enqueue, Service.sendOp, UdpClient.writeTo, h.queue]

omit h in
theorem afterWrite {t' : UdpClient} {pending : List SendOp} (hudp : s.udp b = t'.toUdp)
    (hpeer : s.sockPeer (s.built b).sock = t'.sockPeer)
    (hqueue : pending.map (fun op => (op.data, op.offset, op.destination)) =
      t'.queue.map fun op => (op.data, op.offset, op.destination)) (error : Int) :
    Mirrors (s.afterWrite b pending error) b t' := by
  unfold Service.afterWrite
  dsimp only
  split
  · split <;> exact ⟨hudp, hpeer, by simpa using hqueue⟩
  · split <;> exact ⟨hudp, hpeer, by simpa using hqueue⟩

theorem doWrite (hkind : testbits (s.kind (s.built b).ctx) Ycm.udp = true)
    (hopen : s.sock (s.built b).sock ≠ none) (send : RawSend) :
    Mirrors (s.doWrite b send).1 b (t.doWrite send) := by
  have hqueue := h.queue
  unfold Service.doWrite UdpClient.doWrite
  dsimp only
  rw [if_neg hopen, hkind]
  cases htx : (s.tx b).sendQueue with
  | nil =>
    cases hq : t.queue with
    | nil =>
      have hempty : ([] : List SendOp).map (fun op => (op.data, op.offset, op.destination)) =
          t.queue.map fun op => (op.data, op.offset, op.destination) := by
        rw [hq, List.map_nil, List.map_nil]
      exact afterWrite h.udp h.sockPeer hempty 0
    | cons op rest => simp [htx, hq] at hqueue
  | cons sop srest =>
    cases hq : t.queue with
    | nil => simp [htx, hq] at hqueue
    | cons op rest =>
      simp only [htx, hq, List.map_cons, List.cons.injEq, Prod.mk.injEq] at hqueue
      obtain ⟨⟨hdata, hoffset, hdest⟩, hrest⟩ := hqueue
      have hleft : ∃ left error, Service.callWrite true sop send = .ok (left, error) ∧
          left.map (fun op => (op.data, op.offset, op.destination)) =
            (callWrite op send).map fun op => (op.data, op.offset, op.destination) := by
        cases send with
        | sent n =>
          by_cases hpart : op.offset + n < op.data.length
          · exact ⟨some { sop with offset := sop.offset + n }, 0,
              by simp [Service.callWrite, hdata, hoffset, hpart],
              by simp [callWrite, hpart, hdata, hoffset, hdest]⟩
          · exact ⟨none, 0, by simp [Service.callWrite, hdata, hoffset, hpart],
              by simp [callWrite, hpart]⟩
        | zero errno =>
          exact ⟨some sop, errno, rfl, by simp [callWrite, hdata, hoffset, hdest]⟩
        | fail errno =>
          by_cases hretry : notSendError errno
          · exact ⟨some sop, errno, by simp [Service.callWrite, hretry],
              by simp [callWrite, hretry, hdata, hoffset, hdest]⟩
          · exact ⟨none, errno, by simp [Service.callWrite, hretry], by simp [callWrite, hretry]⟩
      obtain ⟨left, error, hcall, hmap⟩ := hleft
      simp only [hcall]
      have hsame : (s.recordSent b sop send).udp = s.udp ∧
          (s.recordSent b sop send).toPool = s.toPool ∧
          (s.recordSent b sop send).toSockets = s.toSockets := by
        cases send <;> exact ⟨rfl, rfl, rfl⟩
      obtain ⟨hu, hp, hs⟩ := hsame
      apply afterWrite
      · rw [hu]
        exact h.udp
      · rw [hp, hs]
        exact h.sockPeer
      · rw [List.map_append, List.map_append, hrest]
        congr 1
        cases left <;> cases hc : callWrite op send <;> simp_all

end Mirrors

end UdpClient

end Yasio
