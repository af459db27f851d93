import Yasio.SevenBits
import Yasio.StreamBounds

/-!
# Reading back what was written

The bytes of a write, and what the matching read makes of them.
-/

namespace Yasio

open Throwing (exec exec_bind_ok Holds)

/-! ## Numbers as bytes -/

@[simp] theorem length_leBytes (n v : ℕ) : (leBytes n v).length = n := by
  induction n generalizing v with
  | zero => rfl
  | succ n ih => simp [leBytes, ih]

theorem take_leBytes {k n : ℕ} (h : k ≤ n) (v : ℕ) : (leBytes n v).take k = leBytes k v := by
  induction k generalizing n v with
  | zero => simp [leBytes]
  | succ k ih =>
    cases n with
    | zero => omega
    | succ n => simp [leBytes, ih (Nat.le_of_succ_le_succ h)]

theorem leNat_leBytes (n v : ℕ) : leNat (leBytes n v) = v % 256 ^ n := by
  induction n generalizing v with
  | zero => simp [leBytes, leNat, Nat.mod_one]
  | succ n ih =>
    have hbyte : (UInt8.ofNat v).toNat = v % 256 := UInt8.toNat_ofNat'
    rw [leBytes, leNat, ih, hbyte, pow_succ', Nat.mod_mul]

theorem leBytes_leNat (bs : List UInt8) : leBytes bs.length (leNat bs) = bs := by
  induction bs with
  | nil => rfl
  | cons b bs ih =>
    have hhead : UInt8.ofNat (leNat (b :: bs)) = b := by
      apply UInt8.toNat_inj.1
      rw [UInt8.toNat_ofNat']
      exact leNat_cons_mod b bs
    rw [List.length_cons, leBytes, hhead, leNat_cons_div, ih]

theorem ntohs_leNat (a b : UInt8) : ntohs (leNat [a, b]) = leNat [b, a] := by
  have h1 : (2 : ℕ) ^ 8 = 256 := by norm_num
  simp only [ntohs, h1, leNat_cons_div, leNat_cons_mod]
  simp only [leNat]
  ring

theorem ntohll_leNat (a b c d e f g h : UInt8) :
    ntohll (leNat [a, b, c, d, e, f, g, h]) = leNat [h, g, f, e, d, c, b, a] := by
  have h1 : (2 : ℕ) ^ 8 = 256 := by norm_num
  have h2 : (2 : ℕ) ^ 16 = 256 * 256 := by norm_num
  have h3 : (2 : ℕ) ^ 24 = 256 * 256 * 256 := by norm_num
  have h4 : (2 : ℕ) ^ 32 = 256 * 256 * 256 * 256 := by norm_num
  have h5 : (2 : ℕ) ^ 40 = 256 * 256 * 256 * 256 * 256 := by norm_num
  have h6 : (2 : ℕ) ^ 48 = 256 * 256 * 256 * 256 * 256 * 256 := by norm_num
  have h7 : (2 : ℕ) ^ 56 = 256 * 256 * 256 * 256 * 256 * 256 * 256 := by norm_num
  simp only [ntohll, h1, h2, h3, h4, h5, h6, h7, ← Nat.div_div_eq_div_mul, leNat_cons_div,
    leNat_cons_mod]
  simp only [leNat]
  ring

/-- The order in which the bytes of a number are sent, from its bytes in memory. -/
def ConvertTraits.order : ConvertTraits → List UInt8 → List UInt8
  | network, bs => bs.reverse
  | host, bs => bs

namespace ConvertTraits

variable (traits : ConvertTraits)

@[simp] theorem length_order (bs : List UInt8) : (traits.order bs).length = bs.length := by
  cases traits
  · exact List.length_reverse
  · rfl

@[simp] theorem order_order (bs : List UInt8) : traits.order (traits.order bs) = bs := by
  cases traits
  · exact List.reverse_reverse bs
  · rfl

theorem swap_leNat (size : IntSize) {bs : List UInt8} (h : bs.length = size.bytes) :
    traits.swap size (leNat bs) = leNat (traits.order bs) := by
  cases traits with
  | host => rfl
  | network =>
    cases size with
    | one =>
      obtain ⟨a, rfl⟩ := List.length_eq_one_iff.1 h
      rfl
    | two =>
      match bs, h with
      | [a, b], _ => exact ntohs_leNat a b
    | four =>
      match bs, h with
      | [a, b, c, d], _ => exact ntohl_leNat a b c d
    | eight =>
      match bs, h with
      | [a, b, c, d, e, f, g, h], _ => exact ntohll_leNat a b c d e f g h

theorem leBytes_swap (size : IntSize) {v : ℕ} (h : v < 256 ^ size.bytes) :
    leBytes size.bytes (traits.swap size v) = traits.order (leBytes size.bytes v) := by
  have hv : v = leNat (leBytes size.bytes v) := by rw [leNat_leBytes, Nat.mod_eq_of_lt h]
  conv_lhs => rw [hv, swap_leNat traits size (length_leBytes _ _)]
  have hback := leBytes_leNat (traits.order (leBytes size.bytes v))
  rwa [length_order, length_leBytes] at hback

/-- The low bytes of an `int` are sent in the order of the traits. -/
theorem leBytes_swapInt {size v : ℕ} (h1 : 1 ≤ size) (h4 : size ≤ 4) (hv : v < 256 ^ 4) :
    leBytes size (traits.swapInt v size) = traits.order (leBytes size v) := by
  cases traits with
  | host => rfl
  | network =>
    obtain ⟨a, b, c, d, hbytes⟩ : ∃ a b c d, leBytes 4 v = [a, b, c, d] := ⟨_, _, _, _, rfl⟩
    have hv' : v = leNat [a, b, c, d] := by rw [← hbytes, leNat_leBytes, Nat.mod_eq_of_lt hv]
    have hlow : leBytes size v = [a, b, c, d].take size := by rw [← hbytes, take_leBytes h4]
    have hdrop : ∀ xs ys : List UInt8, leNat (xs ++ ys) / 2 ^ (xs.length * 8) = leNat ys := by
      intro xs ys
      induction xs with
      | nil => simp
      | cons x xs ih =>
        have hpow : (2 : ℕ) ^ ((xs.length + 1) * 8) = 256 * 2 ^ (xs.length * 8) := by
          rw [Nat.succ_mul, pow_add, Nat.mul_comm]
          norm_num
        rw [List.cons_append, List.length_cons, hpow, ← Nat.div_div_eq_div_mul, leNat_cons_div, ih]
    have hcut : networkToHost v size = leNat ([a, b, c, d].take size).reverse := by
      unfold networkToHost
      rw [hv', ntohl_leNat]
      have h := hdrop ([a, b, c, d].drop size).reverse ([a, b, c, d].take size).reverse
      rw [← List.reverse_append, List.take_append_drop, List.length_reverse, List.length_drop] at h
      split
      · exact h
      · next hsize =>
        obtain rfl : size = 4 := by omega
        rfl
    change leBytes size (networkToHost v size) = (leBytes size v).reverse
    have hback := leBytes_leNat ([a, b, c, d].take size).reverse
    rw [List.length_reverse, List.length_take, List.length_cons, List.length_cons, List.length_cons,
      List.length_singleton, Nat.min_eq_left h4] at hback
    rw [hcut, hback, hlow]

theorem swapInt_leNat {bs : List UInt8} (h1 : 1 ≤ bs.length) (h4 : bs.length ≤ 4) :
    traits.swapInt (leNat bs) bs.length = leNat (traits.order bs) := by
  cases traits with
  | host => rfl
  | network => exact networkToHost_leNat bs h1 h4

end ConvertTraits

/-! ## One call -/

/-- The read that matches the write. -/
def Write.reading : Write → Read
  | int size _ => .int size
  | ix32 _ => .ix32
  | ix64 _ => .ix64
  | varint _ size => .varint size
  | byte _ => .byte
  | bytes d => .bytes d.val.length
  | v _ => .v

/-- What the matching read is to return. -/
def Write.Reads : Write → Value → Prop
  | int _ value, .int value' => value' = value.val
  | ix32 value, .ix32 value' => value' = value
  | ix64 value, .ix64 value' => value' = value
  | varint value size, .varint value' =>
    value' = BitVec.ofNat 32 (value.toNat % 2 ^ (8 * (clamp size 1 4).toNat))
  | byte value, .byte value' => value' = value
  | bytes d, .view view => view.bytes = d.val
  | v d, .view view => view.bytes = d.val
  | _, _ => False

theorem pow_eight_mul (n : ℕ) : 2 ^ (8 * n) = 256 ^ n := by
  rw [pow_mul]
  norm_num

theorem IntSize.val_lt (size : IntSize) (value : Fin (2 ^ (8 * size.bytes))) :
    value.val < 256 ^ size.bytes := by
  rw [← pow_eight_mul]
  exact value.isLt

theorem writeBytes_of_length {d : List UInt8} {n : ℕ} (h : d.length = n) : writeBytes d n = d := by
  unfold writeBytes
  split
  · rw [Int.toNat_natCast, ← h, List.take_length]
  · exact (List.length_eq_zero_iff.1 (by omega)).symm

theorem Blob.toInt32_length (d : Blob) : toInt32 d.val.length = d.val.length := by
  have hd := d.property
  exact toInt32_eq_self (by omega) (by omega)

theorem clamp_range (size : Int) : 1 ≤ (clamp size 1 4).toNat ∧ (clamp size 1 4).toNat ≤ 4 ∧
    ((clamp size 1 4).toNat : Int) = clamp size 1 4 := by
  unfold clamp
  split
  · exact ⟨Nat.le_refl _, by norm_num, rfl⟩
  · split
    · exact ⟨by norm_num, Nat.le_refl _, rfl⟩
    · omega

namespace Write

variable (traits : ConvertTraits)

theorem emit_int (size : IntSize) (value : Fin (2 ^ (8 * size.bytes))) :
    (int size value).emit traits = traits.order (leBytes size.bytes value) := by
  unfold emit
  dsimp only
  rw [writeBytes_of_length (length_leBytes _ _), traits.leBytes_swap size (size.val_lt value)]

theorem emit_varint (value : BitVec 32) (size : Int) :
    (varint value size).emit traits =
      traits.order (leBytes (clamp size 1 4).toNat value.toNat) := by
  obtain ⟨h1, h4, hsize⟩ := clamp_range size
  have hvalue : value.toNat < 256 ^ 4 := value.isLt
  unfold emit writeBytes
  dsimp only
  rw [if_pos (by omega), take_leBytes h4, traits.leBytes_swapInt h1 h4 hvalue]

theorem emit_bytes (d : Blob) : (bytes d).emit traits = d.val := by
  unfold emit
  dsimp only
  rw [d.toInt32_length, writeBytes_of_length rfl]

theorem emit_v (d : Blob) : (v d).emit traits = writeIx d.val.length ++ d.val := by
  have hd := d.property
  unfold emit
  dsimp only
  rw [d.toInt32_length, writeBytes_of_length rfl, BitVec.ofInt_natCast, BitVec.toNat_ofNat,
    Nat.mod_eq_of_lt (by omega)]

end Write

namespace Reader.Shows

variable {r : Reader} {cs : List UInt8}

theorem exec_readIx32 {value : ℕ} (hvalue : value < 2 ^ 32) (h : r.Shows (writeIx value ++ cs)) :
    exec readIx32 r = (.ok (BitVec.ofNat 32 value), r.skip (writeIx value).length) := by
  have hencodes := encodes_writeIx (n := 4) (by omega) (BitVec.ofNat 32 value)
  rw [BitVec.toNat_ofNat, Nat.mod_eq_of_lt hvalue] at hencodes
  exact (exec_readIx32_iff r _ _).2 ⟨_, h.left, hencodes, rfl⟩

theorem exec_readIx64 {value : ℕ} (hvalue : value < 2 ^ 64) (h : r.Shows (writeIx value ++ cs)) :
    exec readIx64 r = (.ok (BitVec.ofNat 64 value), r.skip (writeIx value).length) := by
  have hencodes := encodes_writeIx (n := 9) (by omega) (BitVec.ofNat 64 value)
  rw [BitVec.toNat_ofNat, Nat.mod_eq_of_lt hvalue] at hencodes
  exact (exec_readIx64_iff r _ _).2 ⟨_, h.left, hencodes, rfl⟩

theorem exec_readBytes {d : List UInt8} (h : r.Shows (d ++ cs)) :
    ∃ view, exec (readBytes d.length) r = (.ok view, r.skip d.length) ∧ view.bytes = d := by
  unfold readBytes
  split
  · exact ⟨⟨r.ptr, d⟩, h.exec_take, rfl⟩
  · next hlen =>
    obtain rfl : d = [] := List.length_eq_zero_iff.1 (by omega)
    exact ⟨{}, congrArg (Prod.mk _) r.skip_zero.symm, rfl⟩

/-- A read in front of what its write has appended. -/
theorem exec_run (traits : ConvertTraits) (w : Write) (h : r.Shows (w.emit traits ++ cs)) :
    ∃ value, exec (w.reading.run traits) r = (.ok value, r.skip (w.emit traits).length) ∧
      w.Reads value := by
  cases w with
  | int size value =>
    rw [Write.emit_int] at h ⊢
    have hlen : (traits.order (leBytes size.bytes value)).length = size.bytes := by simp
    have htake := h.exec_take
    rw [hlen] at htake ⊢
    have hvalue : traits.swap size (leNat (traits.order (leBytes size.bytes value))) = value := by
      rw [traits.swap_leNat size hlen, traits.order_order, leNat_leBytes,
        Nat.mod_eq_of_lt (size.val_lt value)]
    have hread : exec (readInt traits size) r = (.ok value.val, r.skip size.bytes) := by
      unfold readInt
      rw [exec_bind_ok htake]
      dsimp only
      rw [hvalue]
      rfl
    exact ⟨.int value, exec_bind_ok hread, rfl⟩
  | ix32 value =>
    have hread := exec_readIx32 value.isLt h
    exact ⟨.ix32 (BitVec.ofNat 32 value.toNat), exec_bind_ok hread, BitVec.ofNat_toNat 32 value⟩
  | ix64 value =>
    have hread := exec_readIx64 value.isLt h
    exact ⟨.ix64 (BitVec.ofNat 64 value.toNat), exec_bind_ok hread, BitVec.ofNat_toNat 64 value⟩
  | varint value size =>
    obtain ⟨h1, h4, -⟩ := clamp_range size
    rw [Write.emit_varint] at h ⊢
    have hlen : (traits.order (leBytes (clamp size 1 4).toNat value.toNat)).length =
        (clamp size 1 4).toNat := by simp
    have htake := h.exec_take
    have hvalue := traits.swapInt_leNat (h1.trans_eq hlen.symm) (hlen.trans_le h4)
    rw [hlen] at htake hvalue ⊢
    rw [traits.order_order, leNat_leBytes, ← pow_eight_mul] at hvalue
    have hread : exec (readVarint traits size) r =
        (.ok (BitVec.ofNat 32 (value.toNat % 2 ^ (8 * (clamp size 1 4).toNat))),
          r.skip (clamp size 1 4).toNat) := by
      unfold readVarint
      dsimp only
      rw [exec_bind_ok htake]
      dsimp only
      rw [hvalue]
      rfl
    exact ⟨.varint _, exec_bind_ok hread, rfl⟩
  | byte value => exact ⟨.byte value, exec_bind_ok (exec_readByte h), rfl⟩
  | bytes d =>
    rw [Write.emit_bytes] at h ⊢
    obtain ⟨view, hread, hview⟩ := h.exec_readBytes
    exact ⟨.view view, exec_bind_ok hread, hview⟩
  | v d =>
    have hd := d.property
    rw [Write.emit_v, List.append_assoc] at h
    rw [Write.emit_v, List.length_append, ← Reader.skip_skip]
    have hcount := exec_readIx32 (by omega) h
    have hint : (BitVec.ofNat 32 d.val.length).toInt = d.val.length := by
      rw [BitVec.toInt_eq_toNat_of_lt, BitVec.toNat_ofNat, Nat.mod_eq_of_lt (by omega)]
      rw [BitVec.toNat_ofNat, Nat.mod_eq_of_lt (by omega)]
      omega
    obtain ⟨view, hread, hview⟩ := h.right.exec_readBytes
    refine ⟨.view view, ?_, hview⟩
    have hv : exec readV r = (.ok view, (r.skip (writeIx d.val.length).length).skip
        d.val.length) := by
      unfold readV
      rw [exec_bind_ok hcount, hint, hread]
    exact exec_bind_ok hv

end Reader.Shows

/-! ## Any sequence of calls -/

/-- The matching reads, one after the other. -/
def readAll (traits : ConvertTraits) : List Read → Reading (List Value)
  | [] => return []
  | op :: ops => do
    let value ← op.run traits
    let values ← readAll traits ops
    return value :: values

/-- The matching reads return the written values, throw nothing and end behind the last byte. -/
def RoundTrips (traits : ConvertTraits) (ws : List Write) (r : Reader) : Prop :=
  ∃ values r', exec (readAll traits (ws.map Write.reading)) r = (.ok values, r') ∧
    List.Forall₂ Write.Reads ws values ∧ r'.ptr = (written traits ws).length

theorem Reader.Shows.exec_readAll {traits : ConvertTraits} {ws : List Write} {r : Reader}
    (h : r.Shows (written traits ws)) :
    ∃ values, exec (readAll traits (ws.map Write.reading)) r =
        (.ok values, r.skip (written traits ws).length) ∧ List.Forall₂ Write.Reads ws values := by
  induction ws generalizing r with
  | nil => exact ⟨[], congrArg (Prod.mk _) r.skip_zero.symm, .nil⟩
  | cons w ws ih =>
    have hsplit : r.Shows (w.emit traits ++ written traits ws) := h
    obtain ⟨value, hvalue, hreads⟩ := hsplit.exec_run traits w
    obtain ⟨values, hvalues, hall⟩ := ih hsplit.right
    refine ⟨value :: values, ?_, .cons hreads hall⟩
    change exec (readAll traits (w.reading :: ws.map Write.reading)) r = _
    unfold readAll
    rw [exec_bind_ok hvalue, exec_bind_ok hvalues, Reader.skip_skip]
    change _ = (Except.ok (value :: values), r.skip (w.emit traits ++ written traits ws).length)
    rw [List.length_append]
    rfl

theorem Reader.shows_reset {data : List UInt8} {size : Int} (h : data.length ≤ size) :
    (reset data size).Shows data where
  le := by
    change (0 : Int) + data.length ≤ size
    omega
  memory i hi := by
    change data.getD ((0 : Int) + i).toNat 0 = data[i]
    rw [Int.zero_add, Int.toNat_natCast]
    simp [hi]

/-- A cursor that has moved is not behind the end of the buffer. -/
theorem stable_moved (last : Int) :
    Stable last fun r => (r.ptr = 0 ∨ 0 ≤ r.ptr ∧ r.ptr ≤ last) ∧ r.last = last where
  nonneg r h := by omega
  last r h := h.2
  skip r n h hle := by
    dsimp only
    omega

theorem Stable.holds_readAll {P : Reader → Prop} {last : Int} (h : Stable last P)
    (traits : ConvertTraits) (ws : List Write) :
    Holds P (fun _ => True) (readAll traits (ws.map Write.reading)) := by
  induction ws with
  | nil => exact Holds.pure trivial
  | cons w ws ih =>
    have hop : w.reading.consumes = true := by cases w <;> rfl
    change Holds P _ (readAll traits (w.reading :: ws.map Write.reading))
    unfold readAll
    apply (h.holds_run traits hop).bind
    intro value _
    apply ih.bind
    exact fun _ _ => Holds.pure trivial

theorem roundTrips_of_le {traits : ConvertTraits} {ws : List Write} {size : Int}
    (h : (written traits ws).length ≤ size) :
    RoundTrips traits ws (.reset (written traits ws) size) := by
  obtain ⟨values, hread, hall⟩ := (Reader.shows_reset h).exec_readAll
  refine ⟨values, _, hread, hall, ?_⟩
  change (0 : Int) + _ = _
  exact Int.zero_add _

theorem le_of_roundTrips {traits : ConvertTraits} {ws : List Write} {size : Int}
    (h : RoundTrips traits ws (.reset (written traits ws) size)) (hne : written traits ws ≠ []) :
    (written traits ws).length ≤ size := by
  obtain ⟨values, r', hread, -, hptr⟩ := h
  have hmoved := ((stable_moved size).holds_readAll traits ws (.reset (written traits ws) size)
    ⟨.inl rfl, rfl⟩).1
  rw [hread] at hmoved
  have hpos := List.length_pos_iff.2 hne
  dsimp only at hmoved
  omega

/-- What was written is read back through an `ibstream_view`, and through an `ibstream` exactly when
it is shorter than `2^31` bytes. -/
theorem roundTrips_iff (traits : ConvertTraits) (ws : List Write) :
    RoundTrips traits ws (.ibstreamView (written traits ws)) ∧
      (RoundTrips traits ws (.ibstream (written traits ws)) ↔
        (written traits ws).length < 2 ^ 31) := by
  refine ⟨roundTrips_of_le (Int.le_refl _), fun h => ?_, fun h => ?_⟩
  · by_contra hlen
    have hne : written traits ws ≠ [] := by
      intro hnil
      rw [hnil, List.length_nil] at hlen
      omega
    have hle : ((written traits ws).length : Int) ≤ toInt32 (written traits ws).length :=
      le_of_roundTrips h hne
    have hlt := (toInt32_bounds (written traits ws).length).2
    omega
  · apply roundTrips_of_le
    rw [toInt32_eq_self (by omega) (by omega)]

/-- A call that writes `n` zeros. -/
def zeros (n : ℕ) (h : n < 2 ^ 31) : Write :=
  .bytes ⟨List.replicate n 0, by rwa [List.length_replicate]⟩

theorem length_written_zeros (traits : ConvertTraits) (n : ℕ) (h : n < 2 ^ 31) :
    (written traits [zeros n h, zeros n h]).length = n + n := by
  unfold written zeros
  rw [List.flatMap_cons, List.flatMap_cons, List.flatMap_nil, Write.emit_bytes, List.append_nil,
    List.length_append, List.length_replicate]

/-- Two strings of `2^30` zeros are `-2^31` bytes for an `ibstream`, and its first read throws. -/
theorem not_roundTrips_zeros :
    ¬ RoundTrips .network [zeros (2 ^ 30) (by omega), zeros (2 ^ 30) (by omega)]
      (.ibstream (written .network [zeros (2 ^ 30) (by omega), zeros (2 ^ 30) (by omega)])) := by
  rw [(roundTrips_iff .network _).2, length_written_zeros]
  norm_num

end Yasio
