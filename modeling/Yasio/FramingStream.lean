import Yasio.Framing
import Yasio.Lib.Machine
import Yasio.Lib.Cutter
import Mathlib.Tactic.Ring

/-!
# A received stream is cut into the frames of the reference parser

`Conn` is a TCP connection whose bytes come in any chunks.  `reference` reads the same stream from
left to right.  The packets that the connection has fired are, at every moment, the first packets
of the reference.
-/

namespace Yasio

/-! ## The length field as a number -/

/-- The value of a length field in the selected byte order: unsigned, or a signed 32-bit number
when it has four bytes. -/
def fieldValue (u : UnpackParams) (field : List UInt8) : Int :=
  let v : ℕ := if u.noBswap then leNat field else leNat field.reverse
  if u.lengthFieldLength = 4 then toInt32 v else v

/-- The bytes of the length field of the frame at the head of the stream. -/
def fieldBytes (u : UnpackParams) (σ : List UInt8) : List UInt8 :=
  (σ.drop u.lengthFieldOffset.toNat).take u.lengthFieldLength

theorem toInt32_cases (x : Int) (h1 : -2 ^ 32 ≤ x) (h2 : x < 2 ^ 32) :
    toInt32 x = x ∧ -2 ^ 31 ≤ x ∧ x < 2 ^ 31 ∨ toInt32 x = x + 2 ^ 32 ∧ x < -2 ^ 31 ∨
      toInt32 x = x - 2 ^ 32 ∧ 2 ^ 31 ≤ x := by
  unfold toInt32
  rw [Int.bmod_eq_emod]
  split <;> omega

theorem leNat_lt (bs : List UInt8) : leNat bs < 256 ^ bs.length := by
  induction bs with
  | nil => simp [leNat]
  | cons b bs ih =>
    have hb := b.toNat_lt
    simp only [leNat, List.length_cons, pow_succ]
    omega

theorem leNat_cons_mod (b : UInt8) (bs : List UInt8) : leNat (b :: bs) % 256 = b.toNat := by
  have hb := b.toNat_lt
  simp only [leNat]
  omega

theorem leNat_cons_div (b : UInt8) (bs : List UInt8) : leNat (b :: bs) / 256 = leNat bs := by
  have hb := b.toNat_lt
  simp only [leNat]
  omega

theorem ntohl_leNat (a b c d : UInt8) : ntohl (leNat [a, b, c, d]) = leNat [d, c, b, a] := by
  have h2 : (2 : ℕ) ^ 16 = 256 * 256 := by norm_num
  have h3 : (2 : ℕ) ^ 24 = 256 * 256 * 256 := by norm_num
  have h1 : (2 : ℕ) ^ 8 = 256 := by norm_num
  simp only [ntohl, h1, h2, h3, ← Nat.div_div_eq_div_mul, leNat_cons_div, leNat_cons_mod]
  simp only [leNat]
  ring

/-- The zero bytes that `memcpy` leaves in the `int` become the low ones, which the shift drops. -/
theorem leNat_zero_cons_div (bs : List UInt8) (k : ℕ) :
    leNat (List.replicate k 0 ++ bs) / 2 ^ (k * 8) = leNat bs := by
  induction k with
  | zero => simp
  | succ k ih =>
    have h : (2 : ℕ) ^ ((k + 1) * 8) = 256 * 2 ^ (k * 8) := by
      rw [Nat.succ_mul, pow_add, Nat.mul_comm]; norm_num
    rw [List.replicate_succ, List.cons_append, h, ← Nat.div_div_eq_div_mul, leNat_cons_div, ih]

/-- Swapping the bytes of the zero-extended field and shifting them down reads the field in the
other byte order. -/
theorem networkToHost_leNat (field : List UInt8) (h1 : 1 ≤ field.length) (h4 : field.length ≤ 4) :
    networkToHost (leNat field) field.length = leNat field.reverse := by
  match field, h1, h4 with
  | [a], _, _ =>
    have h : leNat [a] = leNat [a, 0, 0, 0] := by simp [leNat]
    rw [h, networkToHost, ntohl_leNat]
    exact leNat_zero_cons_div [a] 3
  | [a, b], _, _ =>
    have h : leNat [a, b] = leNat [a, b, 0, 0] := by simp [leNat]
    rw [h, networkToHost, ntohl_leNat]
    exact leNat_zero_cons_div [b, a] 2
  | [a, b, c], _, _ =>
    have h : leNat [a, b, c] = leNat [a, b, c, 0] := by simp [leNat]
    rw [h, networkToHost, ntohl_leNat]
    exact leNat_zero_cons_div [c, b, a] 1
  | [a, b, c, d], _, _ =>
    rw [networkToHost, ntohl_leNat]
    rfl

/-- Parameters for a stream of frames with a length field: the header fits the receive buffer and
covers the prefix that is stripped. -/
structure UnpackParams.Framing (u : UnpackParams) : Prop where
  offset_nonneg : 0 ≤ u.lengthFieldOffset
  length_pos : 1 ≤ u.lengthFieldLength
  length_le : u.lengthFieldLength ≤ 4
  strip_le : u.initialBytesToStrip ≤ u.lengthFieldOffset + u.lengthFieldLength
  header_le : u.lengthFieldOffset + u.lengthFieldLength ≤ maxRcvbuf

/-- What the code makes of the bytes that it takes for the length field. -/
theorem decodeLen_of_field {u : UnpackParams} (hoff : 0 ≤ u.lengthFieldOffset)
    (h1 : 1 ≤ u.lengthFieldLength) (h4 : u.lengthFieldLength ≤ 4) {d : List UInt8} {n : ℕ}
    (hn : toInt32 (u.lengthFieldOffset + u.lengthFieldLength) ≤ n)
    (hl : (fieldBytes u d).length = u.lengthFieldLength) :
    decodeLen u d n =
      let len := toInt32 (fieldValue u (fieldBytes u d) + u.lengthAdjustment)
      if u.maxFrameLength < len then -1 else len := by
  have hsmall : leNat (fieldBytes u d).reverse < 256 ^ u.lengthFieldLength := by
    simpa [hl] using leNat_lt (fieldBytes u d).reverse
  have hsmall' : leNat (fieldBytes u d) < 256 ^ u.lengthFieldLength := by
    simpa [hl] using leNat_lt (fieldBytes u d)
  have hswap : networkToHost (leNat (fieldBytes u d)) u.lengthFieldLength =
      leNat (fieldBytes u d).reverse := by
    have h := networkToHost_leNat (fieldBytes u d) (by omega) (by omega)
    rwa [hl] at h
  -- a field of fewer than four bytes is the same number in an `int`
  have hval : toInt32 (if u.noBswap then leNat (fieldBytes u d)
      else networkToHost (leNat (fieldBytes u d)) u.lengthFieldLength : ℕ) =
      fieldValue u (fieldBytes u d) := by
    rw [hswap, fieldValue]
    split_ifs with hb h hb
    · rfl
    · have hp : 256 ^ u.lengthFieldLength ≤ 256 ^ 3 := Nat.pow_le_pow_right (by omega) (by omega)
      exact toInt32_eq_self (by omega) (by omega)
    · rfl
    · have hp : 256 ^ u.lengthFieldLength ≤ 256 ^ 3 := Nat.pow_le_pow_right (by omega) (by omega)
      exact toInt32_eq_self (by omega) (by omega)
  simp only [decodeLen, if_pos hoff, if_pos hn]
  rw [← hval, fieldBytes]
  split_ifs <;> simp_all

theorem length_fieldBytes {u : UnpackParams} (hoff : 0 ≤ u.lengthFieldOffset) {d : List UInt8}
    (hd : u.lengthFieldOffset + u.lengthFieldLength ≤ d.length) :
    (fieldBytes u d).length = u.lengthFieldLength := by
  simp only [fieldBytes, List.length_take, List.length_drop]
  omega

theorem UnpackParams.Framing.toInt32_header {u : UnpackParams} (hu : u.Framing) :
    toInt32 (u.lengthFieldOffset + u.lengthFieldLength) =
      u.lengthFieldOffset + u.lengthFieldLength := by
  obtain ⟨hoff, -, -, -, hheader⟩ := hu
  unfold maxRcvbuf at hheader
  exact toInt32_eq_self (by omega) (by omega)

/-- On a complete header the code decodes the field that the reference reads. -/
theorem decodeLen_eq {u : UnpackParams} (hu : u.Framing) {d : List UInt8} {n : ℕ}
    (hn : u.lengthFieldOffset + u.lengthFieldLength ≤ n) (hd : n ≤ d.length) :
    decodeLen u d n =
      let len := toInt32 (fieldValue u (fieldBytes u d) + u.lengthAdjustment)
      if u.maxFrameLength < len then -1 else len := by
  apply decodeLen_of_field hu.offset_nonneg hu.length_pos hu.length_le
  · rw [hu.toInt32_header]
    exact hn
  · exact length_fieldBytes hu.offset_nonneg (by omega)

/-! ## The reference parser -/

/-- The total length of the frame at the head of the stream, once its header is there. -/
def frameLength (u : UnpackParams) (σ : List UInt8) : Option Int :=
  if u.lengthFieldOffset + u.lengthFieldLength ≤ σ.length then
    some (fieldValue u (fieldBytes u σ) + u.lengthAdjustment)
  else none

/-- The frame at the head of the stream.  A frame of length zero has no place in a stream. -/
def referenceCut (u : UnpackParams) (σ : List UInt8) : Cut :=
  match frameLength u σ with
  | none => .wait
  | some L =>
    if L ≤ 0 ∨ u.maxFrameLength < L ∨ L < u.initialBytesToStrip then .fail
    else if (σ.length : Int) < L then .wait
    else .frame L.toNat

theorem referenceCut_eq_frame {u : UnpackParams} {σ : List UInt8} {n : ℕ} :
    referenceCut u σ = .frame n ↔
      frameLength u σ = some (n : Int) ∧ 0 < n ∧ (n : Int) ≤ u.maxFrameLength ∧
        u.initialBytesToStrip ≤ n ∧ n ≤ σ.length := by
  unfold referenceCut
  cases h : frameLength u σ with
  | none => simp
  | some L =>
    simp only [Option.some.injEq]
    split_ifs with h1 h2
    · simp only [false_iff]
      omega
    · simp only [false_iff]
      omega
    · simp only [Cut.frame.injEq]
      omega

/-- The parser that reads the stream from left to right. -/
def reference (u : UnpackParams) : Cutter UInt8 where
  cut := referenceCut u
  frame_pos h := (referenceCut_eq_frame.1 h).2.1
  frame_le h := (referenceCut_eq_frame.1 h).2.2.2.2

/-- The packets of a stream: each frame without its stripped prefix. -/
def referencePackets (u : UnpackParams) (σ : List UInt8) : List (List UInt8) :=
  ((reference u).frames σ).map (List.drop u.initialBytesToStrip)

/-! ## A connection -/

/-- The worker's view of a connection. -/
inductive Status
  | opened
  | closed (error : Int)
  | threw (e : Thrown)
  deriving DecidableEq, Repr

/-- A connection with what it has received and what it has handed up. -/
structure Conn where
  rx : Rx
  received : List UInt8 := []
  packets : List (List UInt8) := []
  views : List (List UInt8) := []
  status : Status := .opened
  deriving DecidableEq, Repr

namespace Conn

/-- A transport that was just built; its buffer may hold anything. -/
def fresh (buffer : List UInt8) : Conn := { rx := { buffer } }

/-- The connection after `do_read` came to a result. -/
def record (c : Conn) (bs : List UInt8) : Except Thrown ReadResult → Conn
  | .error e => { c with received := c.received ++ bs, status := .threw e }
  | .ok ⟨rx, .closed error, _⟩ =>
    { c with rx, received := c.received ++ bs, status := .closed error }
  | .ok ⟨rx, .pending, _⟩ => { c with rx, received := c.received ++ bs }
  | .ok ⟨rx, .packet p, _⟩ =>
    { c with rx, received := c.received ++ bs, packets := c.packets ++ [p] }
  | .ok ⟨rx, .view p, _⟩ => { c with rx, received := c.received ++ bs, views := c.views ++ [p] }

/-- The connection can make this read: it is open and the bytes fit behind `offset_`. -/
def Reads (c : Conn) (r : RawRead) : Prop :=
  c.status = .opened ∧ c.rx.offset + r.data.length ≤ c.rx.buffer.length

instance (c : Conn) (r : RawRead) : Decidable (c.Reads r) := inferInstanceAs (Decidable (_ ∧ _))

/-- One `do_read`. -/
def step (forward : Bool) (u : UnpackParams) (r : RawRead) (c : Conn) : Option Conn :=
  if c.Reads r then some (c.record r.data (c.rx.doRead forward true u r)) else none

end Conn

/-! ## What one call does to the buffer -/

namespace Rx

theorem length_store {rx : Rx} {bs : List UInt8} (h : rx.offset + bs.length ≤ rx.buffer.length) :
    (rx.store bs).buffer.length = rx.buffer.length := by
  simp only [store, List.length_append, List.length_take, List.length_drop]
  omega

/-- The new bytes lie right behind the ones that are held. -/
theorem take_store {rx : Rx} {bs : List UInt8} (h : rx.offset + bs.length ≤ rx.buffer.length) :
    (rx.store bs).buffer.take (rx.offset + bs.length) = rx.held ++ bs := by
  have ho : (rx.buffer.take rx.offset ++ bs).length = rx.offset + bs.length := by
    simp only [List.length_append, List.length_take]
    omega
  simp only [store, held]
  rw [List.take_append_of_le_length (by omega), List.take_of_length_le (by omega)]

theorem length_moveToHead {buffer : List UInt8} {want n : ℕ} (h : want + n ≤ buffer.length) :
    (moveToHead buffer want n).length = buffer.length := by
  simp only [moveToHead, List.length_append, List.length_take, List.length_drop]
  omega

theorem take_moveToHead {buffer : List UInt8} {want n : ℕ} (h : want + n ≤ buffer.length) :
    (moveToHead buffer want n).take n = (buffer.take (want + n)).drop want := by
  have hl : ((buffer.drop want).take n).length = n := by
    simp only [List.length_take, List.length_drop]
    omega
  rw [moveToHead, List.take_append_of_le_length (by omega), List.take_of_length_le (by omega),
    List.drop_take]
  congr 1
  omega

/-- `unpack` with the whole frame in the buffer `a`: the packet is finished and what lies behind
the frame moves to the head of the buffer. -/
theorem unpack_of_le {rx : Rx} {want n s : ℕ} {a : List UInt8}
    (ha : rx.buffer.take (n + rx.offset) = a) (hl : n + rx.offset ≤ rx.buffer.length)
    (hs : s ≤ want) (hw : want ≤ a.length) :
    ∃ rx' busy, rx.unpack ⟨want, n, s⟩ =
        .ok ⟨rx', .packet (rx.expectedPacket ++ (a.take want).drop s), busy⟩ ∧
      rx'.held = a.drop want ∧ rx'.offset + want = a.length ∧
      rx'.buffer.length = rx.buffer.length ∧ rx'.expectedSize = -1 ∧ rx'.expectedPacket = [] := by
  have hal : a.length = n + rx.offset := by rw [← ha, List.length_take]; omega
  have hlast : UnpackCall.last ⟨want, n, s⟩ rx = want := by
    simp only [UnpackCall.last, UnpackCall.available]
    omega
  have htake : rx.buffer.take want = a.take want := by
    rw [← ha, List.take_take, Nat.min_eq_left (by omega)]
  obtain ⟨k, hk⟩ : ∃ k : ℕ, n + rx.offset = want + k := ⟨n + rx.offset - want, by omega⟩
  have hoff : UnpackCall.available ⟨want, n, s⟩ rx - (want : Int) = k := by
    simp only [UnpackCall.available]
    omega
  simp only [unpack, hlast, hoff, Int.toNat_natCast, htake]
  rw [if_pos (by omega), if_pos (by omega)]
  refine ⟨_, _, rfl, ?_, ?_, ?_, rfl, rfl⟩
  · rcases Nat.eq_zero_or_pos k with rfl | hpos
    · have hd : a.drop want = [] := List.drop_eq_nil_of_le (by omega)
      simp [held, hd]
    · have hp : (0 : Int) < k := by omega
      simp only [held, if_pos hp]
      rw [take_moveToHead (by omega), ← hk, ha]
  · show k + want = a.length
    omega
  · split_ifs
    · exact length_moveToHead (by omega)
    · rfl

/-- `unpack` with a part of the frame in the buffer `a`: the buffer is used up. -/
theorem unpack_of_lt {rx : Rx} {want n strip : ℕ} {a : List UInt8}
    (ha : rx.buffer.take (n + rx.offset) = a) (hl : n + rx.offset ≤ rx.buffer.length)
    (hs : strip ≤ a.length) (hw : a.length < want) :
    rx.unpack ⟨want, n, strip⟩ =
      .ok ⟨{ rx with offset := 0, expectedPacket := rx.expectedPacket ++ a.drop strip },
        .pending, false⟩ := by
  have hal : a.length = n + rx.offset := by rw [← ha, List.length_take]; omega
  have hlast : UnpackCall.last ⟨want, n, strip⟩ rx = (n + rx.offset : ℕ) := by
    simp only [UnpackCall.last, UnpackCall.available]
    omega
  have hoff : ¬ (0 : Int) ≤ UnpackCall.available ⟨want, n, strip⟩ rx - (want : Int) := by
    simp only [UnpackCall.available]
    omega
  simp only [unpack, hlast, Int.toNat_natCast, ha]
  rw [if_pos (by omega), if_neg hoff]

end Rx

/-! ## The invariant -/

theorem fieldBytes_take_append {u : UnpackParams} (hu : u.Framing) {d τ : List UInt8} {m : ℕ}
    (hm : u.lengthFieldOffset + u.lengthFieldLength ≤ m) (hd : m ≤ d.length) :
    fieldBytes u (d.take m ++ τ) = fieldBytes u d := by
  have hoff := hu.offset_nonneg
  have hl : (d.take m).length = m := by simp only [List.length_take]; omega
  unfold fieldBytes
  rw [List.drop_append_of_le_length (by omega),
    List.take_append_of_le_length (by simp only [List.length_drop]; omega), List.drop_take,
    List.take_take, Nat.min_eq_left (by omega)]

/-- The header that the code sees is the header of the stream. -/
theorem frameLength_of_header {u : UnpackParams} (hu : u.Framing) {d τ : List UInt8} {m : ℕ}
    (hm : u.lengthFieldOffset + u.lengthFieldLength ≤ m) (hd : m ≤ d.length) :
    frameLength u (d.take m ++ τ) =
      some (fieldValue u (fieldBytes u d) + u.lengthAdjustment) := by
  have hl : (d.take m).length = m := by simp only [List.length_take]; omega
  rw [frameLength, fieldBytes_take_append hu hm hd, if_pos]
  simp only [List.length_append, hl]
  omega

/-- Nothing of the next frame has been consumed, or a part `rest` of it, whose length is known. -/
def Rx.At (u : UnpackParams) (rx : Rx) (rest future : List UInt8) : Prop :=
  (rx.expectedSize = -1 ∧ rest = [] ∧ rx.expectedPacket = []) ∨
  ∃ L : ℕ, rx.expectedSize = L ∧ rx.offset = 0 ∧ frameLength u (rest ++ future) = some (L : Int) ∧
    L ≤ u.maxFrameLength ∧ u.initialBytesToStrip ≤ rest.length ∧ rest.length < L ∧
    rx.expectedPacket = rest.drop u.initialBytesToStrip

namespace Conn

/-- An open connection that has received all of `σ` but `future`: the whole frames among the bytes
received, the consumed part `rest` of the next one, and the bytes held. -/
structure Aligned (u : UnpackParams) (σ future : List UInt8) (frames : List (List UInt8))
    (rest : List UInt8) (c : Conn) : Prop where
  received : c.received = frames.flatten ++ rest ++ c.rx.held
  packets : c.packets = frames.map (List.drop u.initialBytesToStrip)
  frames_eq : (reference u).frames σ =
    frames ++ (reference u).frames (rest ++ c.rx.held ++ future)
  starts_sub : ∀ τ ∈ (reference u).starts (rest ++ c.rx.held ++ future),
    τ ∈ (reference u).starts σ
  size : c.rx.buffer.length = maxRcvbuf
  free : c.rx.offset < maxRcvbuf
  at_rest : c.rx.At u rest future

/-- The reference, too, gives up, and has no packet that was not fired. -/
def Failed (u : UnpackParams) (σ : List UInt8) (c : Conn) : Prop :=
  c.packets = referencePackets u σ ∧ ∃ τ ∈ (reference u).starts σ, referenceCut u τ = .fail

/-- What holds of a connection that has received the stream `σ` except `future`. -/
def Follows (u : UnpackParams) (σ future : List UInt8) (c : Conn) : Prop :=
  match c.status with
  | .opened => ∃ frames rest, c.Aligned u σ future frames rest
  | .closed error =>
    c.packets <+: referencePackets u σ ∧ (error = Errc.invalidPacket → c.Failed u σ)
  | .threw _ => False

theorem Aligned.isPrefix {u : UnpackParams} {σ future : List UInt8} {frames : List (List UInt8)}
    {rest : List UInt8} {c : Conn} (h : c.Aligned u σ future frames rest) :
    c.packets <+: referencePackets u σ := by
  rw [h.packets, referencePackets, h.frames_eq, List.map_append]
  exact List.prefix_append _ _

/-- If no frame can follow, the packets fired are all packets of the reference. -/
theorem Aligned.failed {u : UnpackParams} {σ future : List UInt8} {frames : List (List UInt8)}
    {rest : List UInt8} {c : Conn} (h : c.Aligned u σ future frames rest)
    (hc : referenceCut u (rest ++ c.rx.held ++ future) = .fail) : c.Failed u σ := by
  have hnil : (reference u).frames (rest ++ c.rx.held ++ future) = [] :=
    Cutter.frames_of_fail hc
  refine ⟨?_, _, h.starts_sub _ (Cutter.self_mem_starts _), hc⟩
  rw [h.packets, referencePackets, h.frames_eq, hnil, List.append_nil]

theorem follows_of_aligned {u : UnpackParams} {σ future : List UInt8}
    {frames : List (List UInt8)} {rest : List UInt8} {c : Conn} (hopen : c.status = .opened)
    (h : c.Aligned u σ future frames rest) : c.Follows u σ future := by
  rw [Follows, hopen]
  exact ⟨_, _, h⟩

/-- A frame that is complete is handed up. -/
theorem Aligned.emit {u : UnpackParams} {σ bs future : List UInt8}
    {frames : List (List UInt8)} {rest : List UInt8} {c : Conn}
    (h : c.Aligned u σ (bs ++ future) frames rest) {L : ℕ}
    (hcut : referenceCut u (rest ++ c.rx.held ++ bs ++ future) = .frame L)
    (hL : L ≤ (rest ++ c.rx.held ++ bs).length) {rx : Rx}
    (hheld : rx.held = (rest ++ c.rx.held ++ bs).drop L) (hsize : rx.buffer.length = maxRcvbuf)
    (hfree : rx.offset < maxRcvbuf) (hexp : rx.expectedSize = -1) (hpkt : rx.expectedPacket = [])
    {p : List UInt8} (hp : p = ((rest ++ c.rx.held ++ bs).take L).drop u.initialBytesToStrip) :
    ({ c with rx, received := c.received ++ bs, packets := c.packets ++ [p] } : Conn).Aligned u σ
      future (frames ++ [(rest ++ c.rx.held ++ bs).take L]) [] := by
  have hassoc : rest ++ c.rx.held ++ (bs ++ future) = rest ++ c.rx.held ++ bs ++ future := by simp
  have htake : (rest ++ c.rx.held ++ bs ++ future).take L = (rest ++ c.rx.held ++ bs).take L :=
    List.take_append_of_le_length hL
  have hdrop : (rest ++ c.rx.held ++ bs ++ future).drop L =
      [] ++ rx.held ++ future := by
    rw [List.drop_append_of_le_length hL, hheld, List.nil_append]
  have hc : (reference u).cut (rest ++ c.rx.held ++ bs ++ future) = .frame L := hcut
  refine ⟨?_, ?_, ?_, ?_, hsize, hfree, .inl ⟨hexp, rfl, hpkt⟩⟩
  · show c.received ++ bs = _
    rw [h.received, hheld, List.flatten_append]
    simp only [List.append_assoc, List.flatten_singleton, List.nil_append, List.take_append_drop]
  · show c.packets ++ [p] = _
    rw [h.packets, hp, List.map_append, List.map_singleton]
  · rw [h.frames_eq, hassoc, Cutter.frames_of_frame hc, htake, hdrop]
    simp only [List.append_assoc, List.singleton_append]
  · intro τ hτ
    refine h.starts_sub τ ?_
    rw [hassoc, Cutter.starts_of_frame hc, hdrop]
    exact List.mem_cons_of_mem _ hτ

/-- No frame is completed: the new bytes go to the consumed part or to the bytes held. -/
theorem Aligned.keep {u : UnpackParams} {σ bs future : List UInt8}
    {frames : List (List UInt8)} {rest : List UInt8} {c : Conn}
    (h : c.Aligned u σ (bs ++ future) frames rest) {rx : Rx} (rest' : List UInt8)
    (hheld : rest' ++ rx.held = rest ++ c.rx.held ++ bs) (hsize : rx.buffer.length = maxRcvbuf)
    (hfree : rx.offset < maxRcvbuf) (hat : rx.At u rest' future) :
    ({ c with rx, received := c.received ++ bs } : Conn).Aligned u σ future frames rest' := by
  have hassoc : rest' ++ rx.held ++ future = rest ++ c.rx.held ++ (bs ++ future) := by
    rw [hheld]; simp
  refine ⟨?_, h.packets, ?_, ?_, hsize, hfree, hat⟩
  · show c.received ++ bs = frames.flatten ++ rest' ++ rx.held
    rw [h.received, List.append_assoc frames.flatten rest', hheld]
    simp
  · show (reference u).frames σ = frames ++ (reference u).frames (rest' ++ rx.held ++ future)
    rw [h.frames_eq, hassoc]
  · show ∀ τ ∈ (reference u).starts (rest' ++ rx.held ++ future), τ ∈ (reference u).starts σ
    rw [hassoc]
    exact h.starts_sub

end Conn

/-- With its header in the buffer, the code accepts a frame that the reference accepts. -/
theorem Rx.plan_of_header {u : UnpackParams} (hu : u.Framing) {rx : Rx} {n : ℕ} {L : Int}
    (hexp : rx.expectedSize = -1) (hn : rx.offset + n ≤ rx.buffer.length)
    (hh : u.lengthFieldOffset + u.lengthFieldLength ≤ (rx.offset + n : ℕ))
    (hL : L = fieldValue u (fieldBytes u rx.buffer) + u.lengthAdjustment)
    (hne : L ≠ 0) (hlo : -2 ^ 31 ≤ L) (hhi : L < 2 ^ 31) :
    rx.plan u n =
      if L ≤ 0 ∨ u.maxFrameLength < L ∨ L < u.initialBytesToStrip then .reject
      else .unpack L ⟨L, n, u.initialBytesToStrip⟩ := by
  have hdec : decodeLen u rx.buffer (rx.offset + n) =
      if u.maxFrameLength < L then -1 else L := by
    rw [decodeLen_eq hu hh hn, ← hL, toInt32_eq_self hlo hhi]
  simp only [plan, if_pos hexp, hdec]
  by_cases hmax : u.maxFrameLength < L
  · simp [hmax]
  · by_cases hpos : 0 < L
    · simp only [if_neg hmax, if_pos hpos]
      by_cases hs : L < u.initialBytesToStrip
      · simp [hs]
      · simp only [if_neg hs]
        rw [if_neg (by omega)]
    · simp only [if_neg hmax, if_neg hpos, if_neg hne]
      rw [if_pos (by omega)]

theorem Rx.plan_of_no_header {u : UnpackParams} (hu : u.Framing) {rx : Rx} {n : ℕ}
    (hexp : rx.expectedSize = -1)
    (hh : ¬ u.lengthFieldOffset + u.lengthFieldLength ≤ (rx.offset + n : ℕ)) :
    rx.plan u n = .more := by
  have hdec : decodeLen u rx.buffer (rx.offset + n) = 0 := by
    simp only [decodeLen, if_pos hu.offset_nonneg, hu.toInt32_header, if_neg hh]
  simp [plan, hexp, hdec]

namespace Conn

/-- `unpack` for the frame of length `L` whose part `rest` is already consumed: it hands up the
packet, or it consumes all that is held. -/
theorem Aligned.unpack {u : UnpackParams} {σ bs future : List UInt8}
    {frames : List (List UInt8)} {rest : List UInt8} {c : Conn}
    (h : c.Aligned u σ (bs ++ future) frames rest) (hopen : c.status = .opened)
    (hfit : c.rx.offset + bs.length ≤ c.rx.buffer.length) (strip : ℕ) {L : ℕ}
    (hL : frameLength u (rest ++ (c.rx.held ++ bs) ++ future) = some (L : Int))
    (hmax : L ≤ u.maxFrameLength) (hrest : rest.length < L) (hstrip : u.initialBytesToStrip ≤ L)
    (hcover : u.initialBytesToStrip ≤ (rest ++ (c.rx.held ++ bs)).length)
    (hs : strip ≤ (c.rx.held ++ bs).length) (hsL : strip + rest.length ≤ L)
    (hpkt : ∀ t, c.rx.expectedPacket ++ t.drop strip = (rest ++ t).drop u.initialBytesToStrip) :
    (c.record bs
      (({ c.rx.store bs with expectedSize := L } : Rx).unpack
        ⟨L - rest.length, bs.length, strip⟩)).Follows u σ future := by
  obtain ⟨want, rfl⟩ : ∃ want, L = rest.length + want := ⟨L - rest.length, by omega⟩
  have hwant : ((rest.length + want : ℕ) : Int) - (rest.length : Int) = want := by omega
  have hsize : (c.rx.store bs).buffer.length = maxRcvbuf := (Rx.length_store hfit).trans h.size
  have hlen : (c.rx.held ++ bs).length = c.rx.offset + bs.length := by
    simp only [List.length_append, Rx.held, List.length_take]
    omega
  have hassoc : rest ++ c.rx.held ++ bs = rest ++ (c.rx.held ++ bs) := List.append_assoc ..
  rw [hwant]
  generalize hrx : ({ c.rx.store bs with expectedSize := ((rest.length + want : ℕ) : Int) } : Rx)
    = rx
  have hbuf : rx.buffer = (c.rx.store bs).buffer := by rw [← hrx]
  have hoff : rx.offset = c.rx.offset := by rw [← hrx]; rfl
  have hpk : rx.expectedPacket = c.rx.expectedPacket := by rw [← hrx]; rfl
  have hex : rx.expectedSize = ((rest.length + want : ℕ) : Int) := by rw [← hrx]
  have ha : rx.buffer.take (bs.length + rx.offset) = c.rx.held ++ bs := by
    rw [hbuf, hoff, Nat.add_comm]
    exact Rx.take_store hfit
  have hle : bs.length + rx.offset ≤ rx.buffer.length := by
    rw [hbuf, hoff, Rx.length_store hfit, Nat.add_comm]
    exact hfit
  rcases Nat.lt_or_ge (c.rx.held ++ bs).length want with hlt | hge
  · rw [Rx.unpack_of_lt ha hle hs hlt]
    refine follows_of_aligned hopen (h.keep (rest ++ (c.rx.held ++ bs)) ?_ ?_ ?_
      (.inr ⟨rest.length + want, ?_⟩))
    · simp [Rx.held]
    · show rx.buffer.length = _
      rw [hbuf, hsize]
    · show 0 < maxRcvbuf
      decide
    · refine ⟨hex, rfl, hL, hmax, hcover, ?_, ?_⟩
      · rw [List.length_append]
        omega
      · show rx.expectedPacket ++ _ = _
        rw [hpk, hpkt]
  · obtain ⟨rx', busy, hun, hheld, hoff', hlen', hexp', hpkt'⟩ :=
      Rx.unpack_of_le (s := strip) ha hle (by omega) hge
    rw [hun]
    have htake : (rest ++ (c.rx.held ++ bs)).take (rest.length + want) =
        rest ++ (c.rx.held ++ bs).take want := List.take_length_add_append _
    refine follows_of_aligned hopen
      (h.emit (L := rest.length + want) ?_ ?_ ?_ ?_ ?_ hexp' hpkt' ?_)
    · rw [hassoc]
      refine referenceCut_eq_frame.2 ⟨hL, by omega, hmax, hstrip, ?_⟩
      simp only [List.length_append] at hge ⊢
      omega
    · rw [hassoc, List.length_append]
      omega
    · rw [hassoc, hheld, List.drop_length_add_append]
    · rw [hlen', hbuf, hsize]
    · have := h.size
      have := h.free
      omega
    · rw [hassoc, htake, hpk, hpkt]

/-- A read between two frames: the header is decoded as soon as it is there. -/
theorem Aligned.process_between {u : UnpackParams} (hu : u.Framing) {σ bs future : List UInt8}
    (hok : ∀ τ ∈ (reference u).starts σ, ∀ L, frameLength u τ = some L →
      L ≠ 0 ∧ -2 ^ 31 ≤ L ∧ L < 2 ^ 31)
    {frames : List (List UInt8)} {c : Conn} (h : c.Aligned u σ (bs ++ future) frames [])
    (hopen : c.status = .opened) (hfit : c.rx.offset + bs.length ≤ c.rx.buffer.length)
    (hexp : c.rx.expectedSize = -1) (hpkt : c.rx.expectedPacket = []) :
    (c.record bs ((c.rx.store bs).process false u bs.length 0)).Follows u σ future := by
  have hsize : (c.rx.store bs).buffer.length = c.rx.buffer.length := Rx.length_store hfit
  have ha : (c.rx.store bs).buffer.take (c.rx.offset + bs.length) = c.rx.held ++ bs :=
    Rx.take_store hfit
  have hlen : (c.rx.held ++ bs).length = c.rx.offset + bs.length := by
    rw [← ha, List.length_take, hsize]
    omega
  have hassoc : [] ++ c.rx.held ++ (bs ++ future) = c.rx.held ++ bs ++ future := by simp
  simp only [Rx.process, Int.toNat_natCast, Int.natCast_nonneg, if_true, Bool.false_eq_true,
    if_false]
  by_cases hh : u.lengthFieldOffset + u.lengthFieldLength ≤ (c.rx.offset + bs.length : ℕ)
  · -- the header is complete, and it is the header of the stream
    obtain ⟨L, hLdef⟩ : ∃ L, L = fieldValue u (fieldBytes u (c.rx.store bs).buffer) +
      u.lengthAdjustment := ⟨_, rfl⟩
    have hL : frameLength u (c.rx.held ++ bs ++ future) = some L := by
      rw [← ha, hLdef]
      exact frameLength_of_header hu hh (by omega)
    obtain ⟨hne, hlo, hhi⟩ := hok _
      (h.starts_sub _ (hassoc ▸ Cutter.self_mem_starts (c := reference u) _)) L hL
    have hplan : (c.rx.store bs).plan u bs.length = _ :=
      Rx.plan_of_header hu hexp (hfit.trans hsize.ge) hh hLdef hne hlo hhi
    rw [hplan]
    by_cases hbad : L ≤ 0 ∨ u.maxFrameLength < L ∨ L < u.initialBytesToStrip
    · rw [if_pos hbad]
      refine ⟨h.isPrefix, fun _ => h.failed ?_⟩
      simp only [hassoc, referenceCut, hL, if_pos hbad]
    · rw [if_neg hbad]
      obtain ⟨n, rfl⟩ : ∃ n : ℕ, L = n := ⟨L.toNat, by omega⟩
      have hs := hu.strip_le
      have hgoal := h.unpack hopen hfit u.initialBytesToStrip (L := n) hL (by omega)
        (by simp only [List.length_nil]; omega) (by omega)
        (by simp only [List.nil_append]; omega) (by omega) (by simp only [List.length_nil]; omega)
        (by simp [hpkt])
      simpa [Rx.act] using hgoal
  · -- the header is not complete, so there is room behind what is held
    have hplan : (c.rx.store bs).plan u bs.length = .more := Rx.plan_of_no_header hu hexp hh
    rw [hplan]
    have hh' := hu.header_le
    refine follows_of_aligned hopen
      (h.keep [] ?_ (hsize.trans h.size) ?_ (.inl ⟨hexp, rfl, hpkt⟩))
    · show [] ++ (c.rx.store bs).buffer.take (c.rx.offset + bs.length) = _
      rw [ha]
      rfl
    · show c.rx.offset + bs.length < maxRcvbuf
      omega

/-- A read inside a frame whose header has been decoded. -/
theorem Aligned.process_within {u : UnpackParams} {σ bs future : List UInt8}
    {frames : List (List UInt8)} {rest : List UInt8} {c : Conn}
    (h : c.Aligned u σ (bs ++ future) frames rest) (hopen : c.status = .opened)
    (hfit : c.rx.offset + bs.length ≤ c.rx.buffer.length) {L : ℕ}
    (hexp : c.rx.expectedSize = L) (hoff : c.rx.offset = 0)
    (hL : frameLength u (rest ++ (bs ++ future)) = some (L : Int))
    (hmax : L ≤ u.maxFrameLength) (hstrip : u.initialBytesToStrip ≤ rest.length)
    (hrest : rest.length < L) (hpkt : c.rx.expectedPacket = rest.drop u.initialBytesToStrip) :
    (c.record bs ((c.rx.store bs).process false u bs.length 0)).Follows u σ future := by
  have hheld : c.rx.held = [] := by simp [Rx.held, hoff]
  have hlen : c.rx.expectedPacket.length + u.initialBytesToStrip = rest.length := by
    rw [hpkt, List.length_drop]
    omega
  have hplan : (c.rx.store bs).plan u bs.length = .unpack L ⟨L - rest.length, bs.length, 0⟩ := by
    show (if c.rx.expectedSize = -1 then _ else Plan.unpack c.rx.expectedSize
      ⟨c.rx.expectedSize - (c.rx.expectedPacket.length + u.initialBytesToStrip : ℕ), _, 0⟩) = _
    rw [hexp, if_neg (by omega), hlen]
  have hgoal := h.unpack hopen hfit 0 (L := L) (by rw [hheld]; simpa using hL) hmax hrest
    (by omega) (by simp only [List.length_append]; omega) (Nat.zero_le _) (by omega)
    (fun t => by rw [hpkt, List.drop_append_of_le_length hstrip]; rfl)
  simpa [Rx.process, Rx.act, hplan] using hgoal

/-- The bytes of one read. -/
theorem Aligned.process {u : UnpackParams} (hu : u.Framing) {σ bs future : List UInt8}
    (hok : ∀ τ ∈ (reference u).starts σ, ∀ L, frameLength u τ = some L →
      L ≠ 0 ∧ -2 ^ 31 ≤ L ∧ L < 2 ^ 31)
    {frames : List (List UInt8)} {rest : List UInt8} {c : Conn}
    (h : c.Aligned u σ (bs ++ future) frames rest) (hopen : c.status = .opened)
    (hfit : c.rx.offset + bs.length ≤ c.rx.buffer.length) :
    (c.record bs ((c.rx.store bs).process false u bs.length 0)).Follows u σ future := by
  rcases h.at_rest with ⟨hexp, rfl, hpkt⟩ | ⟨L, hexp, hoff, hL, hmax, hstrip, hrest, hpkt⟩
  · exact h.process_between hu hok hopen hfit hexp hpkt
  · exact h.process_within hopen hfit hexp hoff hL hmax hstrip hrest hpkt

/-- A read that ends the connection fires nothing. -/
theorem Aligned.closed {u : UnpackParams} {σ future bs : List UInt8}
    {frames : List (List UInt8)} {rest : List UInt8} {c : Conn} {rx : Rx} {error : Int}
    {busy : Bool} (h : c.Aligned u σ future frames rest) (he : error ≠ Errc.invalidPacket) :
    (c.record bs (.ok ⟨rx, .closed error, busy⟩)).Follows u σ future :=
  ⟨h.isPrefix, fun h' => absurd h' he⟩

theorem received_record (c : Conn) (bs : List UInt8) (result : Except Thrown ReadResult) :
    (c.record bs result).received = c.received ++ bs := by
  unfold record
  split <;> rfl

theorem step_eq_some {forward : Bool} {u : UnpackParams} {r : RawRead} {c c' : Conn} :
    c.step forward u r = some c' ↔
      c.Reads r ∧ c.record r.data (c.rx.doRead forward true u r) = c' := by
  simp [step]

/-- One `do_read` that takes `r.data` off the stream. -/
theorem Follows.step {u : UnpackParams} (hu : u.Framing) {σ future : List UInt8}
    (hok : ∀ τ ∈ (reference u).starts σ, ∀ L, frameLength u τ = some L →
      L ≠ 0 ∧ -2 ^ 31 ≤ L ∧ L < 2 ^ 31)
    {r : RawRead} {c c' : Conn} (h : c.Follows u σ (r.data ++ future))
    (hstep : c.step false u r = some c') : c'.Follows u σ future := by
  obtain ⟨⟨hopen, hfit⟩, rfl⟩ := step_eq_some.1 hstep
  rw [Follows, hopen] at h
  obtain ⟨frames, rest, h⟩ := h
  match r with
  | .bytes [] => exact h.closed (by decide)
  | .bytes (b :: bs) => exact h.process hu hok hopen hfit
  | .fail errno =>
    have hgoal := h.process hu hok hopen hfit
    by_cases hw : notRecvError errno
    · have hcall : callRead true (.fail errno) = (0, 0) := by simp [callRead, hw]
      rw [Rx.doRead, hcall]
      exact hgoal
    · have hr : c.rx.doRead false true u (.fail errno) =
          .ok { rx := c.rx.store [], verdict := .closed errno } := by
        simp [Rx.doRead, callRead, hw, Rx.process, RawRead.data]
      rw [hr]
      refine h.closed ?_
      show (errno : Int) ≠ -27
      omega

/-- A connection whose reads are handed up as they come. -/
def Forwards (c : Conn) : Prop :=
  c.packets = [] ∧ c.rx.offset = 0 ∧ c.views.flatten = c.received ∧ ∀ e, c.status ≠ .threw e ∧
    c.status ≠ .closed Errc.invalidPacket

theorem Forwards.step {u : UnpackParams} {r : RawRead} {c c' : Conn} (h : c.Forwards)
    (hstep : c.step true u r = some c') : c'.Forwards := by
  obtain ⟨⟨hopen, hfit⟩, rfl⟩ := step_eq_some.1 hstep
  obtain ⟨hpkt, hoff, hviews, hst⟩ := h
  match r with
  | .bytes [] =>
    refine ⟨hpkt, hoff, ?_, fun e => ⟨nofun, ?_⟩⟩
    · show c.views.flatten = c.received ++ []
      rw [hviews, List.append_nil]
    · show Status.closed Errc.eof ≠ _
      decide
  | .bytes (b :: bs) =>
    have hview : (c.rx.store (b :: bs)).buffer.take (b :: bs).length = b :: bs := by
      have ht : (c.rx.store (b :: bs)).buffer.take (c.rx.offset + (b :: bs).length) =
          c.rx.held ++ (b :: bs) := Rx.take_store hfit
      rw [hoff, Nat.zero_add] at ht
      rw [ht, Rx.held, hoff, List.take_zero, List.nil_append]
    have hr : c.rx.doRead true true u (.bytes (b :: bs)) =
        .ok { rx := c.rx.store (b :: bs), verdict := .view (b :: bs) } := by
      have hn : (0 : Int) ≤ (b :: bs).length ∧ (0 : Int) < (b :: bs).length := by
        simp only [List.length_cons]
        omega
      simp only [Rx.doRead, callRead, RawRead.data, Rx.process, if_pos hn.1, if_pos hn.2,
        Int.toNat_natCast, hview, if_true]
    rw [hr]
    refine ⟨hpkt, hoff, ?_, hst⟩
    show (c.views ++ [b :: bs]).flatten = c.received ++ (b :: bs)
    rw [List.flatten_append, hviews, List.flatten_singleton]
  | .fail errno =>
    by_cases hw : notRecvError errno
    · have hr : c.rx.doRead true true u (.fail errno) =
          .ok { rx := c.rx.store [], verdict := .pending } := by
        simp [Rx.doRead, callRead, hw, Rx.process, RawRead.data]
      rw [hr]
      refine ⟨hpkt, hoff, ?_, hst⟩
      show c.views.flatten = c.received ++ []
      rw [hviews, List.append_nil]
    · have hr : c.rx.doRead true true u (.fail errno) =
          .ok { rx := c.rx.store [], verdict := .closed errno } := by
        simp [Rx.doRead, callRead, hw, Rx.process, RawRead.data]
      rw [hr]
      refine ⟨hpkt, hoff, ?_, fun e => ⟨nofun, ?_⟩⟩
      · show c.views.flatten = c.received ++ []
        rw [hviews, List.append_nil]
      · show Status.closed (errno : Int) ≠ .closed (-27)
        intro h
        have h' : (errno : Int) = -27 := by injection h
        omega

theorem aligned_fresh {u : UnpackParams} {σ buffer : List UInt8}
    (hbuf : buffer.length = maxRcvbuf) : (fresh buffer).Aligned u σ σ [] [] := by
  refine ⟨rfl, rfl, rfl, fun τ h => h, hbuf, ?_, .inl ⟨rfl, rfl, rfl⟩⟩
  show 0 < maxRcvbuf
  decide

/-- Every run of reads follows the reference on every stream that begins with what was read. -/
theorem follows_of_run {u : UnpackParams} (hu : u.Framing) {σ : List UInt8}
    (hok : ∀ τ ∈ (reference u).starts σ, ∀ L, frameLength u τ = some L →
      L ≠ 0 ∧ -2 ^ 31 ≤ L ∧ L < 2 ^ 31)
    {buffer : List UInt8} (hbuf : buffer.length = maxRcvbuf) {reads : List RawRead} {c : Conn}
    (hrun : Machine.run (Conn.step false u) reads (fresh buffer) = some c) :
    ∀ future, c.received ++ future = σ → c.Follows u σ future := by
  refine Machine.invariant_of_run
    (I := fun c => ∀ future, c.received ++ future = σ → c.Follows u σ future) ?_ ?_ hrun
  · intro c r c' h hstep future hσ
    refine (h (r.data ++ future) ?_).step hu hok hstep
    obtain ⟨-, rfl⟩ := step_eq_some.1 hstep
    rw [← hσ, received_record, List.append_assoc]
  · rintro future rfl
    exact follows_of_aligned rfl (aligned_fresh hbuf)

end Conn

/-- **Framing of a received stream.**  However the kernel cuts the stream into reads, the packets
that `do_read` fires are the first packets of the reference, an invalid packet ends the connection
only where the reference fails, and no received byte is lost, repeated or moved. -/
theorem doRead_frames (forward : Bool) {u : UnpackParams} (hu : u.Framing) {σ : List UInt8}
    (hok : ∀ τ ∈ (reference u).starts σ, ∀ L, frameLength u τ = some L →
      L ≠ 0 ∧ -2 ^ 31 ≤ L ∧ L < 2 ^ 31)
    {buffer : List UInt8} (hbuf : buffer.length = maxRcvbuf) {reads : List RawRead} {c : Conn}
    (hrun : Machine.run (Conn.step forward u) reads (Conn.fresh buffer) = some c)
    (hσ : c.received <+: σ) :
    c.packets <+: referencePackets u σ ∧
    (∀ e, c.status ≠ .threw e) ∧
    (c.status = .closed Errc.invalidPacket → c.Failed u σ) ∧
    (forward = false → c.status = .opened → ∃ (frames : List (List UInt8)) (rest : List UInt8),
      c.received = frames.flatten ++ rest ++ c.rx.held ∧
      frames <+: (reference u).frames σ ∧
      c.packets = frames.map (List.drop u.initialBytesToStrip) ∧
      c.rx.expectedPacket = rest.drop u.initialBytesToStrip) ∧
    (forward = true → c.views.flatten = c.received) := by
  obtain ⟨future, hfut⟩ := hσ
  cases forward with
  | true =>
    have h : c.Forwards := Machine.invariant_of_run
      (fun c r c' h hstep => Conn.Forwards.step h hstep)
      ⟨rfl, rfl, rfl, fun e => by simp [Conn.fresh]⟩ hrun
    obtain ⟨hpkt, -, hviews, hst⟩ := h
    exact ⟨hpkt ▸ List.nil_prefix, fun e => (hst e).1,
      fun h => absurd h (hst .outOfRange).2, nofun, fun _ => hviews⟩
  | false =>
    have h := Conn.follows_of_run hu hok hbuf hrun future hfut
    rw [Conn.Follows] at h
    cases hst : c.status with
    | threw e => rw [hst] at h; exact h.elim
    | closed error =>
      rw [hst] at h
      exact ⟨h.1, nofun, fun h' => h.2 (by injection h'), nofun, nofun⟩
    | opened =>
      rw [hst] at h
      obtain ⟨frames, rest, h⟩ := h
      refine ⟨h.isPrefix, nofun, nofun, fun _ _ => ⟨frames, rest, h.received, ?_, h.packets, ?_⟩,
        nofun⟩
      · rw [h.frames_eq]
        exact List.prefix_append _ _
      rcases h.at_rest with ⟨-, rfl, hpkt⟩ | ⟨L, -, -, -, -, -, -, hpkt⟩
      · rw [hpkt, List.drop_nil]
      · exact hpkt

/-- Two bytes of length in network order that count the bytes behind them. -/
def twoByteLength : UnpackParams :=
  (({} : UnpackParams).setUnpackParams 100 0 2 2).setUnpackStrip 2

theorem framing_twoByteLength : twoByteLength.Framing := by
  constructor <;> decide

/-- A connection after one frame and the first byte of the next. -/
def oneFrame : Conn :=
  (Conn.fresh (List.replicate maxRcvbuf 0)).record [0, 1, 7, 0]
    ((Conn.fresh (List.replicate maxRcvbuf 0)).rx.doRead false true twoByteLength
      (.bytes [0, 1, 7, 0]))

theorem doRead_frames_oneFrame :
    oneFrame.packets = [[7]] ∧
      oneFrame.packets <+: referencePackets twoByteLength [0, 1, 7, 0, 1, 8] := by
  have hlen : ∀ τ ∈ (reference twoByteLength).starts [0, 1, 7, 0, 1, 8],
      frameLength twoByteLength τ = none ∨ frameLength twoByteLength τ = some 3 := by decide
  have hok : ∀ τ ∈ (reference twoByteLength).starts [0, 1, 7, 0, 1, 8], ∀ L,
      frameLength twoByteLength τ = some L → L ≠ 0 ∧ -2 ^ 31 ≤ L ∧ L < 2 ^ 31 := by
    intro τ hτ L hL
    rcases hlen τ hτ with h | h
    · rw [h] at hL
      exact absurd hL nofun
    · obtain rfl : 3 = L := by simpa [h] using hL
      decide
  have hrun : Machine.run (Conn.step false twoByteLength) [.bytes [0, 1, 7, 0]]
      (Conn.fresh (List.replicate maxRcvbuf 0)) = some oneFrame := by
    refine Machine.run_cons.2 ⟨_, Conn.step_eq_some.2 ⟨⟨rfl, ?_⟩, rfl⟩, rfl⟩
    show 0 + 4 ≤ (List.replicate maxRcvbuf (0 : UInt8)).length
    rw [List.length_replicate]
    decide
  have hσ : oneFrame.received <+: [0, 1, 7, 0, 1, 8] := ⟨[1, 8], by decide +kernel⟩
  exact ⟨by decide +kernel, (doRead_frames false framing_twoByteLength hok (by simp) hrun hσ).1⟩

end Yasio
