import Yasio.FramingStream

/-!
# Reading through KCP

`io_transport_kcp::do_read` feeds what the socket gave to `ikcp_input` and asks `ikcp_recv` for a
message.  Its result is the number of bytes that `io_service::do_read` frames.
-/

namespace Yasio

/-- `ikcp_input`, `ikcp_peeksize` and `ikcp_recv` on a control block of type `K`. -/
structure Ikcp (K : Type*) where
  input : K → List UInt8 → Int × K
  peeksize : K → Int
  /-- the result, the bytes written at the buffer argument, and the control block -/
  recv : K → Int → Int × List UInt8 × K

/-- Asked for as many bytes as `ikcp_peeksize` announced, `ikcp_recv` writes and returns them. -/
structure Ikcp.Documented {K : Type*} (k : Ikcp K) : Prop where
  result_recv : ∀ s, 0 < k.peeksize s → (k.recv s (k.peeksize s)).1 = k.peeksize s
  length_recv : ∀ s, 0 < k.peeksize s →
    ((k.recv s (k.peeksize s)).2.1.length : Int) = k.peeksize s

/-- The read side of an `io_transport_kcp`, and every message that `ikcp_recv` gave it. -/
structure KcpTransport (K : Type*) where
  rx : Rx
  kcp : K
  expireTime : ℕ := 0
  handed : List (List UInt8) := []

/-- The transport after `do_read`, its result and `error`, and whether `wait_duration` was set to
zero. -/
structure KcpRead (K : Type*) where
  transport : KcpTransport K
  result : Int
  error : Int
  busy : Bool

namespace KcpTransport

variable {K : Type*} (k : Ikcp K)

/-- `io_transport_kcp::handle_input`: the transport, the result and `error`. -/
def handleInput (t : KcpTransport K) (buf : List UInt8) (error : Int) :
    KcpTransport K × Int × Int :=
  if (k.input t.kcp buf).1 = 0 then
    ({ t with kcp := (k.input t.kcp buf).2, expireTime := 0 }, buf.length, error)
  else ({ t with kcp := (k.input t.kcp buf).2 }, -1, Errc.invalidPacket)

/-- `ikcp_recv` to `buffer_.data() + offset_`; `buffer_` grows when it is too short. -/
def recv (t : KcpTransport K) (size : Int) : KcpTransport K :=
  { t with
    rx := t.rx.store (k.recv t.kcp size).2.1
    kcp := (k.recv t.kcp size).2.2
    handed := t.handed ++ [(k.recv t.kcp size).2.1] }

/-- `io_transport_kcp::do_read` behind `handle_input`. -/
def deliver (t : KcpTransport K) (n error : Int) : KcpRead K :=
  if error = 0 then
    if 0 < k.peeksize t.kcp then
      let n := (k.recv t.kcp (k.peeksize t.kcp)).1
      ⟨t.recv k (k.peeksize t.kcp), if n < 0 then 0 else n, error, 0 < n⟩
    -- Without a message the number of raw bytes is the result.
    else ⟨t, if n < 0 then 0 else n, error, 0 < n⟩
  else ⟨t, n, error, false⟩

/-- `io_transport_kcp::do_read`.  The result of `handle_input` is not used. -/
def doRead (t : KcpTransport K) (r : RawRead) : KcpRead K :=
  let n := (callRead false r).1
  let error := (callRead false r).2
  if 0 < n then
    (t.handleInput k r.data error).1.deliver k n (t.handleInput k r.data error).2.2
  else t.deliver k n error

/-! ## One call -/

/-- The control block when `ikcp_peeksize` is asked. -/
def block (t : KcpTransport K) (r : RawRead) : K :=
  if r.data = [] then t.kcp else (k.input t.kcp r.data).2

/-- `ikcp_input` refuses the bytes that came. -/
def Rejects (t : KcpTransport K) (r : RawRead) : Prop :=
  r.data ≠ [] ∧ (k.input t.kcp r.data).1 ≠ 0

/-- What a call of `do_read` promises. -/
structure Delivers (t : KcpTransport K) (r : RawRead) : Prop where
  /-- a positive result is the length of a message that was written at `offset_` -/
  message : 0 < (t.doRead k r).result → ∃ msg : List UInt8,
    (t.doRead k r).transport.handed = t.handed ++ [msg] ∧
      (t.doRead k r).transport.rx = t.rx.store msg ∧ (msg.length : Int) = (t.doRead k r).result
  idle : 0 ≤ (callRead false r).1 → ¬ t.Rejects k r → k.peeksize (t.block k r) < 0 →
    (t.doRead k r).result = 0
  failed : (callRead false r).1 < 0 → (t.doRead k r).result < 0 ∧ (t.doRead k r).error ≠ 0
  rejected : t.Rejects k r → (t.doRead k r).result < 0 ∧ (t.doRead k r).error ≠ 0

/-- The condition on a raw read: bytes that come are accepted and leave a message to hand up. -/
def Completes (t : KcpTransport K) (r : RawRead) : Prop :=
  r.data ≠ [] → ¬ t.Rejects k r ∧ 0 < k.peeksize (t.block k r)

end KcpTransport

/-- A failed `recv` leaves an error number. -/
def RawRead.Errno (r : RawRead) : Prop := r ≠ .fail 0

instance (r : RawRead) : Decidable r.Errno := inferInstanceAs (Decidable (_ ≠ _))

theorem callRead_pos_iff {tcp : Bool} {r : RawRead} : 0 < (callRead tcp r).1 ↔ r.data ≠ [] := by
  match r with
  | .bytes [] => cases tcp <;> simp [callRead, RawRead.data]
  | .bytes (b :: bs) =>
    simp [callRead, RawRead.data]
  | .fail errno =>
    simp only [callRead, RawRead.data]
    split_ifs <;> simp

theorem callRead_error {tcp : Bool} {r : RawRead} (hr : r.Errno) :
    (callRead tcp r).2 = 0 ↔ 0 ≤ (callRead tcp r).1 := by
  match r with
  | .bytes [] => cases tcp <;> simp [callRead, Errc.eof]
  | .bytes (b :: bs) =>
    simp [callRead]
    omega
  | .fail errno =>
    have hne : errno ≠ 0 := fun h => hr (by rw [h])
    simp only [callRead]
    split_ifs <;> simp [hne]

namespace KcpTransport

variable {K : Type*} {k : Ikcp K} {t : KcpTransport K} {r : RawRead}

theorem deliver_of_error {n error : Int} (h : error ≠ 0) :
    t.deliver k n error = ⟨t, n, error, false⟩ := by
  rw [deliver, if_neg h]

theorem deliver_of_peeksize_pos (hk : k.Documented) {n : Int} (h : 0 < k.peeksize t.kcp) :
    t.deliver k n 0 = ⟨t.recv k (k.peeksize t.kcp), k.peeksize t.kcp, 0, true⟩ := by
  have hres := hk.result_recv t.kcp h
  simp only [deliver, if_true, if_pos h, hres, decide_eq_true h]
  rw [if_neg (by omega)]

theorem deliver_of_peeksize_nonpos {n : Int} (h : ¬ 0 < k.peeksize t.kcp) (hn : 0 ≤ n) :
    t.deliver k n 0 = ⟨t, n, 0, 0 < n⟩ := by
  simp only [deliver, if_true, if_neg h]
  rw [if_neg (by omega)]

/-- The four ways through `do_read`. -/
theorem doRead_of_failed (hr : r.Errno) (h : (callRead false r).1 < 0) :
    t.doRead k r = ⟨t, (callRead false r).1, (callRead false r).2, false⟩ := by
  have he : (callRead false r).2 ≠ 0 := fun h' => by
    have := (callRead_error hr).1 h'
    omega
  rw [doRead, if_neg (by omega), deliver_of_error he]

theorem doRead_of_nil (hr : r.Errno) (h : 0 ≤ (callRead false r).1) (hd : r.data = []) :
    t.doRead k r = t.deliver k 0 0 := by
  have hn : ¬ 0 < (callRead false r).1 := fun h' => callRead_pos_iff.1 h' hd
  have h0 : (callRead false r).1 = 0 := by omega
  rw [doRead, if_neg hn, (callRead_error hr).2 h, h0]

theorem doRead_of_accepted (hr : r.Errno) (hd : r.data ≠ []) (h : ¬ t.Rejects k r) :
    t.doRead k r =
      { t with kcp := t.block k r, expireTime := 0 }.deliver k (callRead false r).1 0 := by
  have hn : 0 < (callRead false r).1 := callRead_pos_iff.2 hd
  have hin : (k.input t.kcp r.data).1 = 0 := not_not.1 fun h' => h ⟨hd, h'⟩
  rw [doRead, if_pos hn, (callRead_error hr).2 (by omega), handleInput, if_pos hin, block,
    if_neg hd]

theorem doRead_of_rejected (h : t.Rejects k r) :
    t.doRead k r =
      ⟨{ t with kcp := t.block k r }, (callRead false r).1, Errc.invalidPacket, false⟩ := by
  have hn : 0 < (callRead false r).1 := callRead_pos_iff.2 h.1
  have he : Errc.invalidPacket ≠ 0 := by decide
  rw [doRead, if_pos hn, handleInput, if_neg h.2, deliver_of_error he, block, if_neg h.1]

theorem deliver_message (hk : k.Documented) {n : Int} (h : 0 < k.peeksize t.kcp) :
    ∃ msg : List UInt8, (t.deliver k n 0).transport.handed = t.handed ++ [msg] ∧
      (t.deliver k n 0).transport.rx = t.rx.store msg ∧
      (msg.length : Int) = (t.deliver k n 0).result := by
  rw [deliver_of_peeksize_pos hk h]
  exact ⟨_, rfl, rfl, hk.length_recv t.kcp h⟩

theorem delivers_of_failed (hr : r.Errno) (hneg : (callRead false r).1 < 0)
    (hd : r.data = []) : t.Delivers k r := by
  have herr : (callRead false r).2 ≠ 0 := fun h => by
    have := (callRead_error hr).1 h
    omega
  have hread : t.doRead k r = ⟨t, (callRead false r).1, (callRead false r).2, false⟩ :=
    doRead_of_failed hr hneg
  refine ⟨fun h => ?_, fun h => absurd hneg (by omega), fun _ => ?_, fun h => absurd hd h.1⟩
  · rw [hread] at h
    exact absurd h (by simp only; omega)
  · rw [hread]
    exact ⟨hneg, herr⟩

theorem delivers_of_nil (hk : k.Documented) (hr : r.Errno) (hpos : 0 ≤ (callRead false r).1)
    (hd : r.data = []) : t.Delivers k r := by
  have hread : t.doRead k r = t.deliver k 0 0 := doRead_of_nil hr hpos hd
  have hblock : t.block k r = t.kcp := by rw [block, if_pos hd]
  refine ⟨fun h => ?_, fun _ _ h => ?_, fun h => absurd hpos (by omega), fun h => absurd hd h.1⟩
  · rw [hread] at h ⊢
    by_cases hp : 0 < k.peeksize t.kcp
    · exact deliver_message hk hp
    · rw [deliver_of_peeksize_nonpos hp (by omega)] at h
      exact absurd h (by simp)
  · rw [hread, deliver_of_peeksize_nonpos (by rw [← hblock]; omega) (by omega)]

theorem delivers_of_message (hk : k.Documented) (hr : r.Errno) (hd : r.data ≠ [])
    (hrej : ¬ t.Rejects k r) (hp : 0 < k.peeksize (t.block k r)) : t.Delivers k r := by
  have hn : 0 < (callRead false r).1 := callRead_pos_iff.2 hd
  refine ⟨fun _ => ?_, fun _ _ h => absurd hp (by omega), fun h => absurd hn (by omega),
    fun h => absurd h hrej⟩
  rw [doRead_of_accepted hr hd hrej]
  exact deliver_message hk hp

/-- The raw number of bytes is the result, though nothing was written. -/
theorem not_delivers_of_no_message (hr : r.Errno) (hd : r.data ≠ []) (hrej : ¬ t.Rejects k r)
    (hp : ¬ 0 < k.peeksize (t.block k r)) : ¬ t.Delivers k r := by
  intro h
  have hn : 0 < (callRead false r).1 := callRead_pos_iff.2 hd
  have hread := (doRead_of_accepted hr hd hrej).trans (deliver_of_peeksize_nonpos hp (by omega))
  obtain ⟨msg, hmsg, -, -⟩ := h.message (by rw [hread]; exact hn)
  rw [hread] at hmsg
  have hlen := congrArg List.length hmsg
  simp at hlen

theorem not_delivers_of_rejected (hrej : t.Rejects k r) : ¬ t.Delivers k r := by
  intro h
  have hn : 0 < (callRead false r).1 := callRead_pos_iff.2 hrej.1
  have hres := (h.rejected hrej).1
  rw [doRead_of_rejected hrej] at hres
  exact absurd hres (by simp only; omega)

/-- `do_read` keeps its promise exactly on the raw reads that bring nothing or a message. -/
theorem delivers_iff (hk : k.Documented) (hr : r.Errno) :
    t.Delivers k r ↔ t.Completes k r := by
  by_cases hd : r.data = []
  · refine ⟨fun _ h => absurd hd h, fun _ => ?_⟩
    rcases Int.lt_or_le (callRead false r).1 0 with hneg | hpos
    · exact delivers_of_failed hr hneg hd
    · exact delivers_of_nil hk hr hpos hd
  · by_cases hrej : t.Rejects k r
    · exact ⟨fun h => absurd h (not_delivers_of_rejected hrej), fun h => absurd hrej (h hd).1⟩
    · by_cases hp : 0 < k.peeksize (t.block k r)
      · exact ⟨fun _ _ => ⟨hrej, hp⟩, fun _ => delivers_of_message hk hr hd hrej hp⟩
      · exact ⟨fun h => absurd h (not_delivers_of_no_message hr hd hrej hp),
          fun h => absurd (h hd).2 hp⟩

end KcpTransport

/-! ## A KCP channel -/

/-- A connection over KCP: the worker's view of it, and the rest of the transport. -/
structure KcpConn (K : Type*) extends Conn where
  kcp : K
  expireTime : ℕ := 0
  handed : List (List UInt8) := []

namespace KcpConn

variable {K : Type*} (k : Ikcp K)

def transport (c : KcpConn K) : KcpTransport K :=
  { rx := c.rx, kcp := c.kcp, expireTime := c.expireTime, handed := c.handed }

/-- The connection can make this raw read: it is open and the bytes fit `rawbuf_`. -/
def Reads (c : KcpConn K) (r : RawRead) : Prop :=
  c.status = .opened ∧ r.Errno ∧ r.data.length ≤ maxRcvbuf

instance (c : KcpConn K) (r : RawRead) : Decidable (c.Reads r) :=
  inferInstanceAs (Decidable (_ ∧ _ ∧ _))

/-- The bytes that `io_service::do_read` frames after `transport->do_read`. -/
def framed (out : KcpRead K) : List UInt8 :=
  (out.transport.rx.buffer.drop out.transport.rx.offset).take out.result.toNat

/-- One `io_service::do_read`. -/
def step (forward : Bool) (u : UnpackParams) (r : RawRead) (c : KcpConn K) : Option (KcpConn K) :=
  if c.Reads r then
    let out := c.transport.doRead k r
    some
      { toConn := c.toConn.record (framed out)
          (out.transport.rx.process forward u out.result out.error)
        kcp := out.transport.kcp
        expireTime := out.transport.expireTime
        handed := out.transport.handed }
  else none

/-- The framed bytes are the messages that KCP handed up, in order. -/
structure Faithful (c : KcpConn K) : Prop where
  offset_le : c.rx.offset ≤ c.rx.buffer.length
  received : c.received = c.handed.flatten

end KcpConn

theorem Rx.unpack_offset_le {rx : Rx} {call : UnpackCall} {result : ReadResult}
    (hn : call.transferred + rx.offset ≤ rx.buffer.length) (h : rx.unpack call = .ok result) :
    result.rx.offset ≤ result.rx.buffer.length := by
  simp only [unpack] at h
  split_ifs at h with hs h0 hmove
  · have hlast : call.last rx = min call.want (call.available rx) := rfl
    have hav : call.available rx = (call.transferred + rx.offset : ℕ) := rfl
    cases h
    show (call.available rx - call.want).toNat ≤ (moveToHead rx.buffer _ _).length
    rw [length_moveToHead (by omega)]
    omega
  · cases h
    show (call.available rx - call.want).toNat ≤ rx.buffer.length
    omega
  · cases h
    exact Nat.zero_le _

/-- `io_service::do_read` leaves `offset_` inside the buffer. -/
theorem Rx.process_offset_le {forward : Bool} {u : UnpackParams} {rx : Rx} {n error : Int}
    {result : ReadResult} (hn : rx.offset + n.toNat ≤ rx.buffer.length)
    (h : rx.process forward u n error = .ok result) :
    result.rx.offset ≤ result.rx.buffer.length := by
  have hoff : rx.offset ≤ rx.buffer.length := by omega
  simp only [process] at h
  split_ifs at h with h0 hf h1
  · cases h
    exact hoff
  · cases h
    exact hoff
  · cases hplan : rx.plan u n.toNat with
    | reject =>
      rw [hplan] at h
      cases h
      exact hoff
    | more =>
      rw [hplan] at h
      cases h
      exact hn
    | unpack size call =>
      rw [hplan] at h
      have htrans : call.transferred = n.toNat := by
        simp only [plan] at hplan
        split_ifs at hplan <;> injection hplan with _ hcall <;> rw [← hcall]
      exact unpack_offset_le (by simpa [htrans, Nat.add_comm] using hn) h
  · cases h
    exact hoff

namespace KcpTransport

variable {K : Type*} {k : Ikcp K} {t : KcpTransport K} {r : RawRead}

/-- Under the condition a call hands up one message, or it changes nothing that is framed. -/
theorem doRead_of_completes (hk : k.Documented) (hr : r.Errno) (h : t.Completes k r) :
    (∃ msg : List UInt8, (t.doRead k r).transport.handed = t.handed ++ [msg] ∧
      (t.doRead k r).transport.rx = t.rx.store msg ∧
      (msg.length : Int) = (t.doRead k r).result) ∨
    ((t.doRead k r).transport.handed = t.handed ∧ (t.doRead k r).transport.rx = t.rx ∧
      (t.doRead k r).result ≤ 0) := by
  by_cases hd : r.data = []
  · rcases Int.lt_or_le (callRead false r).1 0 with hneg | hpos
    · rw [doRead_of_failed hr hneg]
      exact .inr ⟨rfl, rfl, hneg.le⟩
    · rw [doRead_of_nil hr hpos hd]
      by_cases hp : 0 < k.peeksize t.kcp
      · exact .inl (deliver_message hk hp)
      · rw [deliver_of_peeksize_nonpos hp (by omega)]
        exact .inr ⟨rfl, rfl, by simp⟩
  · obtain ⟨hrej, hp⟩ := h hd
    obtain ⟨msg, h1, h2, h3⟩ :=
      (delivers_of_message hk hr hd hrej hp).message (by
        rw [doRead_of_accepted hr hd hrej, deliver_of_peeksize_pos hk hp]
        exact hp)
    exact .inl ⟨msg, h1, h2, h3⟩

end KcpTransport

namespace Conn

theorem rx_record_ok (c : Conn) (bs : List UInt8) (result : ReadResult) :
    (c.record bs (.ok result)).rx = result.rx := by
  obtain ⟨rx, verdict, busy⟩ := result
  cases verdict <;> rfl

end Conn

theorem Rx.le_length_store {rx : Rx} (h : rx.offset ≤ rx.buffer.length) (bs : List UInt8) :
    rx.offset + bs.length ≤ (rx.store bs).buffer.length := by
  simp only [store, List.length_append, List.length_take, List.length_drop]
  omega

theorem Rx.drop_store {rx : Rx} (h : rx.offset ≤ rx.buffer.length) (bs : List UInt8) :
    ((rx.store bs).buffer.drop rx.offset).take bs.length = bs := by
  have hl : (rx.buffer.take rx.offset).length = rx.offset := by
    rw [List.length_take]
    omega
  simp only [store, List.append_assoc]
  rw [List.drop_left' hl, List.take_left']
  rfl

namespace KcpConn

variable {K : Type*} {k : Ikcp K} {forward : Bool} {u : UnpackParams}

/-- `KcpTransport.Delivers` of a raw read that can be made. -/
def Delivers (k : Ikcp K) (c : KcpConn K) (r : RawRead) : Prop :=
  c.Reads r → c.transport.Delivers k r

/-- `KcpTransport.Completes` of a raw read that can be made. -/
def Completes (k : Ikcp K) (c : KcpConn K) (r : RawRead) : Prop :=
  c.Reads r → c.transport.Completes k r

theorem Faithful.step (hk : k.Documented) {c c' : KcpConn K} {r : RawRead} (h : c.Faithful)
    (hcomp : c.Completes k r) (hstep : c.step k forward u r = some c') : c'.Faithful := by
  obtain ⟨hreads, rfl⟩ : c.Reads r ∧ _ := by
    simpa only [KcpConn.step, Option.ite_none_right_eq_some, Option.some.injEq] using hstep
  generalize hout : c.transport.doRead k r = out
  -- the bytes that are framed, and their place in the buffer
  have hframed : out.transport.handed.flatten = c.handed.flatten ++ framed out ∧
      out.transport.rx.offset + out.result.toNat ≤ out.transport.rx.buffer.length := by
    have hread := KcpTransport.doRead_of_completes hk hreads.2.1 (hcomp hreads)
    rw [hout] at hread
    rcases hread with ⟨msg, hhanded, hrx, hlen⟩ | ⟨hhanded, hrx, hle⟩
    · have hn : out.result.toNat = msg.length := by omega
      rw [framed, hhanded, hrx, hn]
      refine ⟨?_, Rx.le_length_store h.offset_le msg⟩
      rw [List.flatten_append, List.flatten_singleton]
      exact congrArg _ (Rx.drop_store h.offset_le msg).symm
    · have hn : out.result.toNat = 0 := by omega
      rw [framed, hhanded, hrx, hn, List.take_zero, List.append_nil]
      exact ⟨rfl, h.offset_le⟩
  constructor
  · show (c.toConn.record _ (out.transport.rx.process forward u out.result out.error)).rx.offset ≤ _
    cases hproc : out.transport.rx.process forward u out.result out.error with
    | error e => exact h.offset_le
    | ok result =>
      simp only [Conn.rx_record_ok]
      exact Rx.process_offset_le hframed.2 hproc
  · show (c.toConn.record _ _).received = out.transport.handed.flatten
    rw [Conn.received_record, hframed.1, h.received]

/-- A transport that was just built. -/
def fresh (buffer : List UInt8) (kcp : K) : KcpConn K := { toConn := Conn.fresh buffer, kcp }

end KcpConn

/-- **Reading through KCP.**  A call of `do_read` keeps its promise exactly if the bytes that came,
if any, were accepted and left a complete message; while all reads do so, the bytes framed are the
messages that `ikcp_recv` handed up, in order. -/
theorem kcp_doRead_iff {K : Type*} {k : Ikcp K} (hk : k.Documented) :
    (∀ (t : KcpTransport K) (r : RawRead), r.Errno → (t.Delivers k r ↔ t.Completes k r)) ∧
    ∀ (forward : Bool) (u : UnpackParams) (buffer : List UInt8) (kcp : K) (reads : List RawRead),
      (Machine.Meets (KcpConn.step k forward u) (KcpConn.Delivers k) reads
          (KcpConn.fresh buffer kcp) ↔
        Machine.Meets (KcpConn.step k forward u) (KcpConn.Completes k) reads
          (KcpConn.fresh buffer kcp)) ∧
      (Machine.Meets (KcpConn.step k forward u) (KcpConn.Completes k) reads
          (KcpConn.fresh buffer kcp) →
        ∀ c, Machine.run (KcpConn.step k forward u) reads (KcpConn.fresh buffer kcp) = some c →
          c.received = c.handed.flatten) := by
  refine ⟨fun t r hr => KcpTransport.delivers_iff hk hr, fun forward u buffer kcp reads => ⟨?_, ?_⟩⟩
  · have hiff : ∀ (c : KcpConn K) (r : RawRead), c.Delivers k r ↔ c.Completes k r :=
      fun c r => forall_congr' fun h => KcpTransport.delivers_iff hk h.2.1
    exact ⟨Machine.Meets.mono fun c r => (hiff c r).1, Machine.Meets.mono fun c r => (hiff c r).2⟩
  · intro hmeets c hrun
    have h : c.Faithful := Machine.invariant_of_meets
      (fun c r c' (h : c.Faithful) hc hstep => h.step hk hc hstep) ⟨Nat.zero_le _, rfl⟩ hmeets hrun
    exact h.received

/-- `ikcp` with the queue of its complete messages, on datagrams that carry no data: those too
short for a header are refused, and acknowledgements are accepted. -/
def ikcpOfMessages : Ikcp (List (List UInt8)) where
  input queue datagram := (if datagram.length < 24 then -1 else 0, queue)
  peeksize queue := queue.head?.elim (-1) fun msg => msg.length
  recv queue _ := queue.head?.elim (-1, [], queue) fun msg => (msg.length, msg, queue.tail)

theorem documented_ikcpOfMessages : ikcpOfMessages.Documented := by
  constructor <;> rintro (_ | ⟨msg, queue⟩) h
  · exact absurd h (by decide)
  · rfl
  · exact absurd h (by decide)
  · rfl

theorem kcp_doRead_iff_ikcpOfMessages :
    (KcpTransport.mk ⟨[], 0, -1, []⟩ [[1, 2, 3]] 0 []).Delivers ikcpOfMessages (.fail 11) :=
  ((kcp_doRead_iff documented_ikcpOfMessages).1 _ _ (by decide)).2 fun h => absurd rfl h

/-- An acknowledgement of 24 bytes, and three bytes that are no datagram of KCP, both count as
message bytes. -/
theorem kcp_doRead_counts_raw_bytes :
    ¬ (KcpTransport.mk ⟨List.replicate 64 0, 0, -1, []⟩ [] 0 []).Delivers ikcpOfMessages
      (.bytes ([0, 0, 0, 0, 82] ++ List.replicate 19 0)) ∧
    ¬ (KcpTransport.mk ⟨List.replicate 64 0, 0, -1, []⟩ [] 0 []).Delivers ikcpOfMessages
      (.bytes [1, 2, 3]) := by
  constructor
  · intro h
    obtain ⟨msg, hmsg, -, -⟩ := h.message (by decide)
    have hlen : ([] : List (List UInt8)) = [] ++ [msg] := hmsg
    simp at hlen
  · intro h
    exact absurd (h.rejected ⟨by decide, by decide⟩).1 (by decide)

end Yasio
