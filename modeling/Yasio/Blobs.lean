import Yasio.StreamTrip

/-!
# Strings behind their length

`read_v`, `read_v8`, `read_v16` and `read_v32` read an unsigned length and then that many bytes.
In between the length is an `int`.
-/

namespace Yasio

open Throwing (exec exec_bind exec_bind_ok)

/-- The fixed widths of a length field. -/
inductive LengthWidth
  | v8
  | v16
  | v32
  deriving DecidableEq, Repr

def LengthWidth.size : LengthWidth → IntSize
  | v8 => .one
  | v16 => .two
  | v32 => .four

/-- The reads of a string. -/
inductive BlobRead
  | v
  | fx (width : LengthWidth)
  deriving DecidableEq, Repr

namespace BlobRead

variable (traits : ConvertTraits)

/-- `read_v`, `read_v8`, `read_v16` and `read_v32` -/
def run : BlobRead → Reading View
  | v => readV
  | fx width => readVFx traits width.size

/-- These bytes encode this length, which is not negative. -/
def Announces : BlobRead → List UInt8 → ℕ → Prop
  | v, bs, n => ∃ count : BitVec 32, Encodes 5 bs count ∧ n = count.toNat
  | fx width, bs, n => bs.length = width.size.bytes ∧ n = leNat (traits.order bs)

/-- What the call returns, if it returns, are all the bytes that the length at the cursor announces:
they lie behind it and inside the buffer, and the cursor is behind them. -/
def ExactOrThrows (op : BlobRead) (r : Reader) : Prop :=
  ∀ view r', exec (op.run traits) r = (.ok view, r') →
    view.Inside r.last ∧ ∃ bs, op.Announces traits bs view.bytes.length ∧
      r.Shows (bs ++ view.bytes) ∧ (view.bytes ≠ [] → view.start = r.ptr + bs.length) ∧
        r' = r.skip (bs.length + view.bytes.length)

/-- A length at the cursor is below `2^31`. -/
def ShortLength (op : BlobRead) (r : Reader) : Prop :=
  ∀ bs n, r.Shows bs → op.Announces traits bs n → n < 2 ^ 31

end BlobRead

/-! ## The parts of a read -/

/-- `consume` with the bytes that it passes. -/
theorem Reader.exec_take_iff (r r' : Reader) (n : ℕ) (view : View) :
    exec (take n) r = (.ok view, r') ↔
      r.Shows view.bytes ∧ view.bytes.length = n ∧ view.start = r.ptr ∧ r' = r.skip n := by
  constructor
  · intro h
    unfold Yasio.take consume at h
    rw [exec_bind, exec_bind] at h
    by_cases hle : r.ptr + n ≤ r.last
    · simp only [Throwing.exec_get, if_pos hle] at h
      cases h
      have hlen : (({ r with ptr := r.ptr + n } : Reader).load r.ptr n).length = n := by
        simp [Reader.load]
      refine ⟨⟨?_, fun i hi => ?_⟩, hlen, rfl, rfl⟩
      · rw [hlen]
        exact hle
      · simp [Reader.load]
    · simp only [Throwing.exec_get, if_neg hle] at h
      cases h
  · rintro ⟨hshows, rfl, hstart, rfl⟩
    have happend : r.Shows (view.bytes ++ []) := by rwa [List.append_nil]
    rw [happend.exec_take, ← hstart]

theorem Reader.exec_readInt_iff (traits : ConvertTraits) (size : IntSize) (r r' : Reader) (n : ℕ) :
    exec (readInt traits size) r = (.ok n, r') ↔
      ∃ bs, r.Shows bs ∧ (bs.length = size.bytes ∧ n = leNat (traits.order bs)) ∧
        r' = r.skip bs.length := by
  unfold readInt
  rw [exec_bind]
  constructor
  · intro h
    cases hread : exec (take size.bytes) r with
    | mk result r'' =>
      rw [hread] at h
      cases result with
      | error e => cases h
      | ok view =>
        cases h
        obtain ⟨hshows, hlen, -, rfl⟩ := (r.exec_take_iff _ _ _).1 hread
        exact ⟨view.bytes, hshows, ⟨hlen, traits.swap_leNat size hlen⟩, by rw [hlen]⟩
  · rintro ⟨bs, hshows, ⟨hlen, rfl⟩, rfl⟩
    have hread := (r.exec_take_iff (r.skip bs.length) size.bytes ⟨r.ptr, bs⟩).2
      ⟨hshows, hlen, rfl, by rw [hlen]⟩
    rw [hread, ← traits.swap_leNat size hlen]
    rfl

namespace BlobRead

variable (traits : ConvertTraits)

/-- The length as the call reads it, before it becomes an `int`. -/
def readLength : BlobRead → Reading ℕ
  | v => do return (← readIx32).toNat
  | fx width => readInt traits width.size

theorem exec_readLength_iff (op : BlobRead) (r r' : Reader) (n : ℕ) :
    exec (op.readLength traits) r = (.ok n, r') ↔
      ∃ bs, r.Shows bs ∧ op.Announces traits bs n ∧ r' = r.skip bs.length := by
  cases op with
  | fx width => exact r.exec_readInt_iff traits width.size r' n
  | v =>
    change exec (do return (← readIx32).toNat) r = _ ↔ _
    rw [exec_bind]
    constructor
    · intro h
      cases hread : exec readIx32 r with
      | mk result r'' =>
        rw [hread] at h
        cases result with
        | error e => cases h
        | ok count =>
          cases h
          obtain ⟨bs, hshows, hcount, rfl⟩ := (r.exec_readIx32_iff _ _).1 hread
          exact ⟨bs, hshows, ⟨count, hcount, rfl⟩, rfl⟩
    · rintro ⟨bs, hshows, ⟨count, hcount, rfl⟩, rfl⟩
      rw [(r.exec_readIx32_iff _ count).2 ⟨bs, hshows, hcount, rfl⟩]
      rfl

/-- The bytes at the cursor encode one length only. -/
theorem announces_unique {op : BlobRead} {r : Reader} {bs cs : List UInt8} {m n : ℕ}
    (hbs : r.Shows bs) (hm : op.Announces traits bs m) (hcs : r.Shows cs)
    (hn : op.Announces traits cs n) : m = n := by
  have hreadm := (exec_readLength_iff traits op r _ m).2 ⟨bs, hbs, hm, rfl⟩
  have hreadn := (exec_readLength_iff traits op r _ n).2 ⟨cs, hcs, hn, rfl⟩
  exact Except.ok.inj (Prod.ext_iff.1 (hreadm.symm.trans hreadn)).1

theorem announces_lt {op : BlobRead} {bs : List UInt8} {n : ℕ} (h : op.Announces traits bs n) :
    n < 2 ^ 32 := by
  cases op with
  | v =>
    obtain ⟨count, -, rfl⟩ := h
    exact count.isLt
  | fx width =>
    obtain ⟨hlen, rfl⟩ := h
    have hlt := leNat_lt (traits.order bs)
    rw [traits.length_order, hlen] at hlt
    cases width <;> exact hlt.trans_le (by decide)

theorem run_eq (op : BlobRead) :
    op.run traits = (op.readLength traits >>= fun n : ℕ => readBytes (toInt32 n)) := by
  cases op with
  | v =>
    change readV = (do return (← readIx32).toNat) >>= fun n : ℕ => readBytes (toInt32 n)
    rw [bind_assoc]
    simp only [pure_bind]
    apply bind_congr
    intro count
    rw [BitVec.toInt_eq_toNat_bmod, toInt32]
  | fx width =>
    change readVFx traits width.size = readInt traits width.size >>= fun n => readBytes (toInt32 n)
    unfold readVFx
    apply bind_congr
    intro n
    split
    · rfl
    · next h =>
      -- `read_v_fx` does not call `read_bytes` for 0, which would return the same.
      obtain rfl : n = 0 := by omega
      rfl

theorem toInt32_of_le {n : ℕ} (h : 2 ^ 31 ≤ n) (hlt : n < 2 ^ 32) : toInt32 n < 0 := by
  have hcases := toInt32_cases n (by omega) (by omega)
  omega

/-- `read_bytes` behind a length that is still positive as an `int`, or 0. -/
theorem exec_readBytes_iff {n : ℕ} (h : n < 2 ^ 31) (r r' : Reader) (view : View) :
    exec (readBytes (toInt32 n)) r = (.ok view, r') ↔
      (0 < n ∧ r.Shows view.bytes ∧ view.bytes.length = n ∧ view.start = r.ptr ∨
        n = 0 ∧ view = {}) ∧ r' = r.skip n := by
  rw [toInt32_eq_self (by omega) (by omega)]
  unfold readBytes
  split
  · next hpos =>
    rw [Int.toNat_natCast, r.exec_take_iff r' n view]
    have hpos : 0 < n := by omega
    constructor
    · rintro ⟨hshows, hlen, hstart, hr'⟩
      exact ⟨.inl ⟨hpos, hshows, hlen, hstart⟩, hr'⟩
    · rintro ⟨⟨-, hshows, hlen, hstart⟩ | ⟨hzero, -⟩, hr'⟩
      · exact ⟨hshows, hlen, hstart, hr'⟩
      · omega
  · next hzero =>
    obtain rfl : n = 0 := by omega
    rw [r.skip_zero]
    constructor
    · intro hpure
      cases hpure
      exact ⟨.inr ⟨rfl, rfl⟩, rfl⟩
    · rintro ⟨⟨hpos, -⟩ | ⟨-, rfl⟩, rfl⟩
      · omega
      · rfl

/-- A length from `2^31` on is negative as an `int`, and the view is empty. -/
theorem exec_readBytes_of_le {n : ℕ} (h : 2 ^ 31 ≤ n) (hlt : n < 2 ^ 32) (r : Reader) :
    exec (readBytes (toInt32 n)) r = (.ok {}, r) := by
  unfold readBytes
  rw [if_neg (by have hneg := toInt32_of_le h hlt; omega)]
  rfl

theorem exec_run_iff (op : BlobRead) (r r' : Reader) (view : View) :
    exec (op.run traits) r = (.ok view, r') ↔
      ∃ bs n, r.Shows bs ∧ op.Announces traits bs n ∧
        exec (readBytes (toInt32 n)) (r.skip bs.length) = (.ok view, r') := by
  rw [run_eq, exec_bind]
  constructor
  · intro h
    cases hread : exec (op.readLength traits) r with
    | mk result r'' =>
      rw [hread] at h
      cases result with
      | error e => cases h
      | ok n =>
        obtain ⟨bs, hshows, hbs, rfl⟩ := (exec_readLength_iff traits op r _ n).1 hread
        exact ⟨bs, n, hshows, hbs, h⟩
  · rintro ⟨bs, n, hshows, hbs, h⟩
    rw [(exec_readLength_iff traits op r _ n).2 ⟨bs, hshows, hbs, rfl⟩]
    exact h

end BlobRead

/-- Bytes behind shown bytes are shown with them. -/
theorem Reader.Shows.append {r : Reader} {bs cs : List UInt8} (hbs : r.Shows bs)
    (hcs : (r.skip bs.length).Shows cs) : r.Shows (bs ++ cs) := by
  induction bs generalizing r with
  | nil =>
    rw [List.length_nil, Reader.skip_zero] at hcs
    exact hcs
  | cons b bs ih =>
    obtain ⟨hb, hrest⟩ := Reader.shows_cons.1 hbs
    rw [List.length_cons, Nat.add_comm, ← Reader.skip_skip] at hcs
    exact Reader.shows_cons.2 ⟨hb, ih hrest hcs⟩

/-- A length of one or two bytes is always short. -/
theorem BlobRead.shortLength_fx (traits : ConvertTraits) {width : LengthWidth}
    (hwidth : width ≠ .v32) (r : Reader) : (fx width).ShortLength traits r := by
  rintro bs n - ⟨hlen, rfl⟩
  have hlt := leNat_lt (traits.order bs)
  rw [traits.length_order, hlen] at hlt
  cases width with
  | v8 => exact hlt.trans (by decide)
  | v16 => exact hlt.trans (by decide)
  | v32 => exact absurd rfl hwidth

/-! ## Every buffer -/

/-- A string is read exactly or not at all, wherever the cursor is in the buffer, exactly when the
length there is below `2^31`. -/
theorem exactOrThrows_iff (traits : ConvertTraits) (op : BlobRead) {r : Reader}
    (hr : r.InBounds) : op.ExactOrThrows traits r ↔ op.ShortLength traits r := by
  constructor
  · intro hexact bs n hshows hbs
    by_contra hlong
    have hlt := BlobRead.announces_lt traits hbs
    -- A view is returned, and it is empty.
    have hread := (op.exec_run_iff traits r _ {}).2
      ⟨bs, n, hshows, hbs, BlobRead.exec_readBytes_of_le (by omega) hlt _⟩
    obtain ⟨-, cs, hcs, hshows', -⟩ := hexact _ _ hread
    have hzero : n = 0 := BlobRead.announces_unique traits hshows hbs hshows'.left hcs
    omega
  · intro hshort view r' hread
    obtain ⟨bs, n, hshows, hbs, hbytes⟩ := (op.exec_run_iff traits r r' view).1 hread
    obtain ⟨⟨hpos, hview, hlen, hstart⟩ | ⟨rfl, rfl⟩, rfl⟩ :=
      (BlobRead.exec_readBytes_iff (hshort bs n hshows hbs) _ _ _).1 hbytes
    · have hstart' : view.start = r.ptr + bs.length := hstart
      refine ⟨fun _ => ⟨?_, ?_⟩, bs, ?_, hshows.append hview, fun _ => hstart', ?_⟩
      · have hnonneg := hr.1
        omega
      · rw [hstart']
        exact hview.le
      · rw [hlen]
        exact hbs
      · rw [hlen, Reader.skip_skip]
    · refine ⟨fun hne => absurd rfl hne, bs, hbs, ?_, fun hne => absurd rfl hne, ?_⟩
      · rwa [List.append_nil]
      · rw [Reader.skip_skip]
        rfl

/-- A two-byte length in front of two bytes. -/
theorem exactOrThrows_two :
    (BlobRead.fx .v16).ExactOrThrows .network (.ibstreamView [0, 2, 7, 8]) :=
  (exactOrThrows_iff .network (.fx .v16) (by decide)).2
    (BlobRead.shortLength_fx .network (by decide) _)

/-- The peer sends the length `2^32 - 1`: `read_v32` returns an empty view. -/
theorem not_exactOrThrows_all_ones :
    ¬ (BlobRead.fx .v32).ExactOrThrows .network (.ibstreamView [0xff, 0xff, 0xff, 0xff]) := by
  intro hexact
  have hshows : (Reader.ibstreamView [0xff, 0xff, 0xff, 0xff]).Shows [0xff, 0xff, 0xff, 0xff] :=
    Reader.shows_reset (Int.le_refl _)
  have hannounced : (BlobRead.fx .v32).Announces .network [0xff, 0xff, 0xff, 0xff] (2 ^ 32 - 1) :=
    ⟨rfl, by decide⟩
  have hread := ((BlobRead.fx .v32).exec_run_iff .network (.ibstreamView [0xff, 0xff, 0xff, 0xff])
    _ {}).2 ⟨_, _, hshows, hannounced, BlobRead.exec_readBytes_of_le (by omega) (by omega) _⟩
  obtain ⟨-, cs, hcs, hshows', -⟩ := hexact _ _ hread
  have hzero := BlobRead.announces_unique .network hshows hannounced hshows'.left hcs
  cases hzero

end Yasio
