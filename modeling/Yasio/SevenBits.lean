import Yasio.Stream
import Mathlib.Algebra.BigOperators.Fin

/-!
# Seven bits at a time

The format of `write_ix` and `read_ix`: what the reader accepts, and that the writer produces the
shortest sequence of bytes that it accepts.
-/

namespace Yasio

open Throwing (exec exec_bind_ok)

/-! ## The reader in front of known bytes -/

/-- The reader behind `n` more bytes. -/
def Reader.skip (r : Reader) (n : ℕ) : Reader := { r with ptr := r.ptr + n }

@[simp] theorem Reader.skip_skip (r : Reader) (m n : ℕ) :
    (r.skip m).skip n = r.skip (m + n) := by
  unfold skip
  simp [Int.add_assoc]

@[simp] theorem Reader.skip_zero (r : Reader) : r.skip 0 = r := by
  unfold skip
  simp

/-- The bytes at the cursor, inside the buffer. -/
structure Reader.Shows (r : Reader) (bs : List UInt8) : Prop where
  le : r.ptr + bs.length ≤ r.last
  memory : ∀ i (h : i < bs.length), r.memory (r.ptr + i) = bs[i]

namespace Reader.Shows

variable {r : Reader} {bs cs : List UInt8}

theorem right (h : r.Shows (bs ++ cs)) : (r.skip bs.length).Shows cs where
  le := by
    have hle := h.le
    rw [List.length_append] at hle
    unfold skip
    dsimp only
    omega
  memory i hi := by
    have hmem := h.memory (bs.length + i) (by rw [List.length_append]; omega)
    rw [List.getElem_append_right (Nat.le_add_right _ _)] at hmem
    unfold skip
    dsimp only
    rw [Int.add_assoc, ← Nat.cast_add, hmem]
    simp

theorem left (h : r.Shows (bs ++ cs)) : r.Shows bs where
  le := by
    have hle := h.le
    rw [List.length_append] at hle
    omega
  memory i hi := by
    have hmem := h.memory i (by rw [List.length_append]; omega)
    rwa [List.getElem_append_left hi] at hmem

theorem load (h : r.Shows (bs ++ cs)) (p : Int) :
    ({ r with ptr := p } : Reader).load r.ptr bs.length = bs := by
  apply List.ext_getElem
  · simp [Reader.load]
  · intro i hi hi'
    have hmem := h.memory i (by rw [List.length_append]; omega)
    rw [List.getElem_append_left hi'] at hmem
    simpa [Reader.load] using hmem

theorem exec_consume (h : r.Shows (bs ++ cs)) :
    exec (consume bs.length) r = (.ok r.ptr, r.skip bs.length) := by
  unfold consume
  rw [exec_bind_ok (Throwing.exec_get r), if_pos h.left.le]
  rfl

theorem exec_take (h : r.Shows (bs ++ cs)) :
    exec (take bs.length) r = (.ok ⟨r.ptr, bs⟩, r.skip bs.length) := by
  unfold Yasio.take
  rw [exec_bind_ok h.exec_consume, exec_bind_ok (Throwing.exec_get _)]
  exact congrArg (fun d => (Except.ok (⟨r.ptr, d⟩ : View), r.skip bs.length)) (h.load _)

theorem exec_readByte {b : UInt8} (h : r.Shows (b :: cs)) :
    exec readByte r = (.ok b, r.skip 1) := by
  have hmem := h.memory 0 (Nat.zero_lt_succ _)
  rw [Nat.cast_zero, Int.add_zero] at hmem
  have hsplit : r.Shows ([b] ++ cs) := h
  have hconsume : exec (consume 1) r = (.ok r.ptr, r.skip 1) := hsplit.exec_consume
  unfold readByte
  rw [exec_bind_ok hconsume, exec_bind_ok (Throwing.exec_get _)]
  exact congrArg (fun b => (Except.ok b, r.skip 1)) hmem

end Reader.Shows

/-! ## The format -/

/-- 1 to `maxBytes` bytes, of which exactly the last has its high bit clear. -/
structure SevenBits (maxBytes : ℕ) (bs : List UInt8) : Prop where
  pos : 1 ≤ bs.length
  le : bs.length ≤ maxBytes
  high : ∀ i (h : i < bs.length), 0x80 ≤ bs[i].toNat ↔ i + 1 < bs.length

/-- The value of a sequence of bytes, seven bits each. -/
def sevenValue (bs : List UInt8) : ℕ :=
  ∑ i : Fin bs.length, (bs[i].toNat &&& 0x7f) * 2 ^ (7 * i.val)

/-- The bytes are a sequence of the format, and its value is this number of `width` bits. -/
structure Encodes (maxBytes : ℕ) {width : ℕ} (bs : List UInt8) (v : BitVec width) : Prop where
  format : SevenBits maxBytes bs
  value : sevenValue bs = v.toNat

theorem and_0x7f (n : ℕ) : n &&& 0x7f = n % 128 := by
  rw [show 0x7f = 2 ^ 7 - 1 from rfl, Nat.and_two_pow_sub_one_eq_mod]

@[simp] theorem sevenValue_nil : sevenValue [] = 0 := rfl

theorem sevenValue_cons (b : UInt8) (bs : List UInt8) :
    sevenValue (b :: bs) = b.toNat % 128 + 128 * sevenValue bs := by
  change ∑ i : Fin (bs.length + 1), ((b :: bs)[i].toNat &&& 0x7f) * 2 ^ (7 * i.val) = _
  unfold sevenValue
  rw [Fin.sum_univ_succ, Finset.mul_sum]
  congr 1
  · simp [and_0x7f]
  · apply Finset.sum_congr rfl
    intro i _
    have hpow : 2 ^ (7 * (i.val + 1)) = 128 * 2 ^ (7 * i.val) := by
      rw [Nat.mul_add, pow_add, Nat.mul_comm]
      norm_num
    simp only [Fin.getElem_fin, Fin.val_succ, List.getElem_cons_succ, hpow]
    ring

theorem sevenBits_singleton {n : ℕ} {b : UInt8} : SevenBits (n + 1) [b] ↔ b.toNat < 0x80 := by
  constructor
  · intro h
    have hhigh := h.high 0 Nat.zero_lt_one
    rw [List.getElem_cons_zero, List.length_singleton] at hhigh
    omega
  · intro h
    refine ⟨Nat.le_refl 1, Nat.succ_le_succ (Nat.zero_le n), fun i hi => ?_⟩
    obtain rfl : i = 0 := Nat.lt_one_iff.1 hi
    rw [List.getElem_cons_zero, List.length_singleton]
    omega

theorem sevenBits_cons {n : ℕ} {b : UInt8} {bs : List UInt8} (hbs : bs ≠ []) :
    SevenBits (n + 1) (b :: bs) ↔ 0x80 ≤ b.toNat ∧ SevenBits n bs := by
  have hpos := List.length_pos_iff.2 hbs
  constructor
  · rintro ⟨-, hle, hhigh⟩
    rw [List.length_cons] at hle
    have hfirst := hhigh 0 (Nat.zero_lt_succ _)
    rw [List.getElem_cons_zero, List.length_cons] at hfirst
    refine ⟨hfirst.2 (by omega), hpos, Nat.le_of_succ_le_succ hle, fun i hi => ?_⟩
    have hnext := hhigh (i + 1) (Nat.succ_lt_succ hi)
    rwa [List.getElem_cons_succ, List.length_cons, Nat.succ_lt_succ_iff] at hnext
  · rintro ⟨hb, -, hle, hhigh⟩
    refine ⟨Nat.succ_le_succ (Nat.zero_le _), Nat.succ_le_succ hle, fun i hi => ?_⟩
    cases i with
    | zero =>
      rw [List.getElem_cons_zero, List.length_cons]
      omega
    | succ i =>
      rw [List.getElem_cons_succ, List.length_cons, Nat.succ_lt_succ_iff]
      exact hhigh i (Nat.lt_of_succ_lt_succ hi)

/-! ## What the reader accepts -/

theorem Reader.shows_cons {r : Reader} {b : UInt8} {bs : List UInt8} :
    r.Shows (b :: bs) ↔ r.Shows [b] ∧ (r.skip 1).Shows bs := by
  constructor
  · intro h
    have hsplit : r.Shows ([b] ++ bs) := h
    refine ⟨⟨?_, fun i hi => ?_⟩, hsplit.right⟩
    · have hle := h.le
      rw [List.length_cons] at hle
      rw [List.length_singleton]
      omega
    · obtain rfl : i = 0 := Nat.lt_one_iff.1 hi
      exact h.memory 0 (Nat.zero_lt_succ _)
  · rintro ⟨hb, hbs⟩
    refine ⟨?_, fun i hi => ?_⟩
    · have hle : r.ptr + (1 : ℕ) + bs.length ≤ r.last := hbs.le
      rw [List.length_cons]
      omega
    · cases i with
      | zero => exact hb.memory 0 Nat.zero_lt_one
      | succ i =>
        have hmem := hbs.memory i (Nat.lt_of_succ_lt_succ hi)
        rw [List.getElem_cons_succ, ← hmem]
        unfold skip
        dsimp only
        congr 1
        omega

/-- The byte at the cursor is the only one that it shows. -/
theorem Reader.Shows.head_eq {r : Reader} {b c : UInt8} {bs cs : List UInt8}
    (hb : r.Shows (b :: bs)) (hc : r.Shows (c :: cs)) : b = c :=
  (hb.memory 0 (Nat.zero_lt_succ _)).symm.trans (hc.memory 0 (Nat.zero_lt_succ _))

/-- `read_byte` returns the byte at the cursor, or throws at the end of the buffer. -/
theorem Reader.exec_readByte_cases (r : Reader) :
    (∃ b, r.Shows [b] ∧ exec readByte r = (.ok b, r.skip 1)) ∨
      (∀ b bs, ¬ r.Shows (b :: bs)) ∧ exec readByte r = (.error .outOfRange, r) := by
  by_cases hle : r.ptr + (1 : ℕ) ≤ r.last
  · have hshows : r.Shows [r.memory r.ptr] := by
      refine ⟨hle, fun i hi => ?_⟩
      obtain rfl : i = 0 := Nat.lt_one_iff.1 hi
      rw [Nat.cast_zero, Int.add_zero, List.getElem_cons_zero]
    exact .inl ⟨_, hshows, hshows.exec_readByte⟩
  · refine .inr ⟨fun b bs h => hle ?_, ?_⟩
    · have hend := h.le
      rw [List.length_cons] at hend
      omega
    · unfold readByte consume
      rw [Throwing.exec_bind, Throwing.exec_bind]
      simp only [Throwing.exec_get, if_neg hle, Throwing.exec_throw]

/-- A sequence of the format at the cursor is the byte there or goes on behind it. -/
theorem Reader.Shows.exists_sevenBits_iff {r : Reader} {b : UInt8} (hb : r.Shows [b]) {n : ℕ}
    {P : List UInt8 → Prop} :
    (∃ bs, r.Shows bs ∧ SevenBits (n + 1) bs ∧ P bs) ↔
      b.toNat < 0x80 ∧ P [b] ∨
        0x80 ≤ b.toNat ∧ ∃ bs, (r.skip 1).Shows bs ∧ SevenBits n bs ∧ P (b :: bs) := by
  constructor
  · rintro ⟨bs, hbs, hformat, hP⟩
    cases bs with
    | nil => exact absurd hformat.pos (by decide)
    | cons c bs =>
      obtain rfl : b = c := hb.head_eq hbs
      by_cases hnil : bs = []
      · subst hnil
        exact .inl ⟨sevenBits_singleton.1 hformat, hP⟩
      · obtain ⟨hhigh, hrest⟩ := (sevenBits_cons hnil).1 hformat
        exact .inr ⟨hhigh, bs, (shows_cons.1 hbs).2, hrest, hP⟩
  · rintro (⟨hlow, hP⟩ | ⟨hhigh, bs, hbs, hformat, hP⟩)
    · exact ⟨[b], hb, sevenBits_singleton.2 hlow, hP⟩
    · have hne : bs ≠ [] := List.length_pos_iff.1 hformat.pos
      exact ⟨b :: bs, shows_cons.2 ⟨hb, hbs⟩, (sevenBits_cons hne).2 ⟨hhigh, hformat⟩, hP⟩

/-- The seven bits of a byte go in front of the bits behind them. -/
theorem or_sevenValue_cons (result shift : ℕ) (b : UInt8) (bs : List UInt8) :
    result ||| sevenValue (b :: bs) <<< shift =
      result ||| (b.toNat &&& 0x7f) <<< shift ||| sevenValue bs <<< (shift + 7) := by
  have hlow : b.toNat % 128 < 2 ^ 7 := Nat.mod_lt _ (by norm_num)
  have hsum : sevenValue (b :: bs) = sevenValue bs <<< 7 ||| b.toNat % 128 := by
    rw [← Nat.shiftLeft_add_eq_or_of_lt hlow, Nat.shiftLeft_eq, sevenValue_cons]
    omega
  rw [hsum, Nat.shiftLeft_or_distrib, ← Nat.shiftLeft_add, and_0x7f, Nat.or_assoc,
    Nat.or_comm (sevenValue bs <<< (7 + shift)), Nat.add_comm 7 shift]

theorem sevenValue_singleton {b : UInt8} (h : b.toNat < 0x80) : sevenValue [b] = b.toNat := by
  rw [sevenValue_cons, sevenValue_nil, Nat.mul_zero, Nat.add_zero, Nat.mod_eq_of_lt h]

theorem Reader.not_exists_sevenBits {r : Reader} (hnone : ∀ b bs, ¬ r.Shows (b :: bs)) {n : ℕ}
    {P : List UInt8 → Prop} : ¬ ∃ bs, r.Shows bs ∧ SevenBits n bs ∧ P bs := by
  rintro ⟨bs, hbs, hformat, -⟩
  cases bs with
  | nil => exact absurd hformat.pos (by decide)
  | cons b bs => exact hnone b bs hbs

/-- From any point of a sequence: the loop returns exactly on a sequence of the format whose value
is below its bound, and ends behind it. -/
theorem Reader.exec_readIxFrom_iff {maxLast : ℕ} (hlast : maxLast < 128) (error : StreamError)
    (n shift result x : ℕ) (r r' : Reader) :
    exec (readIxFrom maxLast error n shift result) r = (.ok x, r') ↔
      ∃ bs, r.Shows bs ∧ SevenBits (n + 1) bs ∧ sevenValue bs < 128 ^ n * (maxLast + 1) ∧
        x = result ||| sevenValue bs <<< shift ∧ r' = r.skip bs.length := by
  induction n generalizing shift result r with
  | zero =>
    -- The last byte that may come: more bits than fit, or a high bit, are an error.
    unfold readIxFrom
    obtain ⟨b, hb, hread⟩ | ⟨hnone, hread⟩ := r.exec_readByte_cases
    · have hstop : ∀ P : List UInt8 → Prop,
          ¬ ∃ bs, (r.skip 1).Shows bs ∧ SevenBits 0 bs ∧ P bs := by
        rintro P ⟨bs, -, hformat, -⟩
        exact absurd (hformat.pos.trans hformat.le) (by decide)
      rw [exec_bind_ok hread, hb.exists_sevenBits_iff]
      dsimp only
      split
      · next hle =>
        have hvalue : sevenValue [b] = b.toNat := sevenValue_singleton (by omega)
        rw [hvalue]
        constructor
        · intro h
          cases h
          exact .inl ⟨by omega, by omega, rfl, rfl⟩
        · rintro (⟨-, -, rfl, rfl⟩ | ⟨-, h⟩)
          · rfl
          · exact absurd h (hstop _)
      · next hgt =>
        refine iff_of_false nofun ?_
        rintro (⟨hlow, hlt, -⟩ | ⟨-, h⟩)
        · rw [sevenValue_singleton hlow] at hlt
          omega
        · exact hstop _ h
    · rw [Throwing.exec_bind, hread]
      exact iff_of_false nofun (not_exists_sevenBits hnone)
  | succ n ih =>
    unfold readIxFrom
    obtain ⟨b, hb, hread⟩ | ⟨hnone, hread⟩ := r.exec_readByte_cases
    · rw [exec_bind_ok hread, hb.exists_sevenBits_iff]
      dsimp only
      split
      · next hle =>
        have hvalue : sevenValue [b] = b.toNat := sevenValue_singleton (by omega)
        rw [hvalue, and_0x7f, Nat.mod_eq_of_lt (by omega)]
        constructor
        · intro h
          cases h
          have hbound : b.toNat < 128 ^ (n + 1) * (maxLast + 1) :=
            calc b.toNat < 128 ^ 1 := by omega
              _ ≤ 128 ^ (n + 1) := Nat.pow_le_pow_right (by norm_num) (by omega)
              _ ≤ 128 ^ (n + 1) * (maxLast + 1) := Nat.le_mul_of_pos_right _ (Nat.succ_pos maxLast)
          exact .inl ⟨by omega, hbound, rfl, rfl⟩
        · rintro (⟨-, -, rfl, rfl⟩ | ⟨hhigh, -⟩)
          · rfl
          · omega
      · next hgt =>
        -- The bound on the value goes through the seven bits that are read here.
        have hbound : ∀ bs, sevenValue (b :: bs) < 128 ^ (n + 1) * (maxLast + 1) ↔
            sevenValue bs < 128 ^ n * (maxLast + 1) := by
          intro bs
          rw [sevenValue_cons, pow_succ, Nat.mul_right_comm]
          omega
        rw [ih, or_iff_right fun h => absurd h.1 (by omega), and_iff_right (by omega)]
        simp only [hbound, or_sevenValue_cons, skip_skip, List.length_cons, Nat.add_comm 1]
    · rw [Throwing.exec_bind, hread]
      exact iff_of_false nofun (not_exists_sevenBits hnone)

/-- The loop from the first byte on, with its result as bits. -/
theorem Reader.exec_ofNat_readIxFrom_iff {maxLast n width : ℕ} (hlast : maxLast < 128)
    (hwidth : 128 ^ n * (maxLast + 1) = 2 ^ width) (error : StreamError) (r r' : Reader)
    (value : BitVec width) :
    exec (do return BitVec.ofNat width (← readIxFrom maxLast error n 0 0)) r = (.ok value, r') ↔
      ∃ bs, r.Shows bs ∧ Encodes (n + 1) bs value ∧ r' = r.skip bs.length := by
  constructor
  · intro h
    rw [Throwing.exec_bind] at h
    cases hread : exec (readIxFrom maxLast error n 0 0) r with
    | mk result r'' =>
      rw [hread] at h
      cases result with
      | error e => cases h
      | ok x =>
        cases h
        obtain ⟨bs, hbs, hformat, hlt, rfl, rfl⟩ :=
          (exec_readIxFrom_iff hlast error n 0 0 x r _).1 hread
        refine ⟨bs, hbs, ⟨hformat, ?_⟩, rfl⟩
        rw [Nat.zero_or, Nat.shiftLeft_zero, BitVec.toNat_ofNat, ← hwidth, Nat.mod_eq_of_lt hlt]
  · rintro ⟨bs, hbs, ⟨hformat, hvalue⟩, rfl⟩
    have hlt : sevenValue bs < 128 ^ n * (maxLast + 1) := by
      rw [hwidth, hvalue]
      exact value.isLt
    rw [exec_bind_ok ((exec_readIxFrom_iff hlast error n 0 0 _ r _).2
      ⟨bs, hbs, hformat, hlt, rfl, rfl⟩), Nat.zero_or, Nat.shiftLeft_zero, hvalue,
      BitVec.ofNat_toNat, BitVec.setWidth_eq]
    rfl

theorem Reader.exec_readIx32_iff (r r' : Reader) (value : BitVec 32) :
    exec readIx32 r = (.ok value, r') ↔
      ∃ bs, r.Shows bs ∧ Encodes 5 bs value ∧ r' = r.skip bs.length :=
  exec_ofNat_readIxFrom_iff (by omega) (by norm_num) .bad7BitInt32 r r' value

theorem Reader.exec_readIx64_iff (r r' : Reader) (value : BitVec 64) :
    exec readIx64 r = (.ok value, r') ↔
      ∃ bs, r.Shows bs ∧ Encodes 10 bs value ∧ r' = r.skip bs.length :=
  exec_ofNat_readIxFrom_iff (by omega) (by norm_num) .bad7BitInt64 r r' value

/-! ## What the writer produces -/

theorem writeIx_of_lt {v : ℕ} (h : v < 0x80) : writeIx v = [UInt8.ofNat v] := by
  rw [writeIx, if_neg (Nat.not_le.2 h)]

theorem writeIx_of_le {v : ℕ} (h : 0x80 ≤ v) :
    writeIx v = UInt8.ofNat (v % 128 + 128) :: writeIx (v / 128) := by
  have hlow : UInt8.ofNat (v % 2 ^ 32 ||| 0x80) = UInt8.ofNat (v % 128 + 128) := by
    apply UInt8.toNat_inj.1
    rw [UInt8.toNat_ofNat', UInt8.toNat_ofNat', Nat.or_mod_two_pow]
    have hmod : v % 2 ^ 32 % 2 ^ 8 = v % 256 := by omega
    have hor : ∀ x : Fin 256, x.val ||| 0x80 = x.val % 128 + 128 := by decide +kernel
    have hx := hor ⟨v % 256, Nat.mod_lt _ (by norm_num)⟩
    dsimp only at hx
    rw [hmod, show 0x80 % 2 ^ 8 = 0x80 from rfl, hx]
    omega
  rw [writeIx, if_pos h, hlow, Nat.shiftRight_eq_div_pow]

theorem toNat_ofNat_of_lt {v : ℕ} (h : v < 256) : (UInt8.ofNat v).toNat = v := by
  rw [UInt8.toNat_ofNat']
  omega

theorem writeIx_ne_nil (v : ℕ) : writeIx v ≠ [] := by
  by_cases h : v < 0x80
  · rw [writeIx_of_lt h]
    exact List.cons_ne_nil _ _
  · rw [writeIx_of_le (Nat.not_lt.1 h)]
    exact List.cons_ne_nil _ _

theorem sevenValue_writeIx (v : ℕ) : sevenValue (writeIx v) = v := by
  induction v using Nat.strongRecOn with
  | ind v ih =>
    by_cases h : v < 0x80
    · rw [writeIx_of_lt h, sevenValue_cons, sevenValue_nil, toNat_ofNat_of_lt (by omega)]
      omega
    · rw [writeIx_of_le (Nat.not_lt.1 h), sevenValue_cons, ih (v / 128) (by omega),
        toNat_ofNat_of_lt (by omega)]
      omega

theorem sevenBits_writeIx {n v : ℕ} (h : v < 128 ^ (n + 1)) : SevenBits (n + 1) (writeIx v) := by
  induction n generalizing v with
  | zero =>
    have hlow : v < 0x80 := by omega
    rw [writeIx_of_lt hlow, sevenBits_singleton, toNat_ofNat_of_lt (by omega)]
    exact hlow
  | succ n ih =>
    by_cases hlow : v < 0x80
    · rw [writeIx_of_lt hlow, sevenBits_singleton, toNat_ofNat_of_lt (by omega)]
      exact hlow
    · rw [writeIx_of_le (Nat.not_lt.1 hlow), sevenBits_cons (writeIx_ne_nil _),
        toNat_ofNat_of_lt (by omega)]
      refine ⟨Nat.le_add_left _ _, ih ?_⟩
      rw [Nat.div_lt_iff_lt_mul (by norm_num), ← pow_succ]
      exact h

theorem encodes_writeIx {n width : ℕ} (h : 2 ^ width ≤ 128 ^ (n + 1)) (v : BitVec width) :
    Encodes (n + 1) (writeIx v.toNat) v :=
  ⟨sevenBits_writeIx (v.isLt.trans_le h), sevenValue_writeIx v.toNat⟩

/-- Any other sequence of the format with the same value is longer. -/
theorem SevenBits.eq_or_length_lt {n : ℕ} {bs : List UInt8} (h : SevenBits n bs) :
    bs = writeIx (sevenValue bs) ∨ (writeIx (sevenValue bs)).length < bs.length := by
  induction bs generalizing n with
  | nil => exact absurd h.pos (by decide)
  | cons b bs ih =>
    obtain ⟨n, rfl⟩ := Nat.exists_eq_add_of_le' (h.pos.trans h.le)
    have hb := b.toNat_lt
    by_cases hnil : bs = []
    · subst hnil
      have hlow := sevenBits_singleton.1 h
      rw [sevenValue_singleton hlow, writeIx_of_lt hlow, UInt8.ofNat_toNat]
      exact .inl rfl
    · obtain ⟨hhigh, hrest⟩ := (sevenBits_cons hnil).1 h
      have hpos := hrest.pos
      rw [sevenValue_cons]
      by_cases hlow : b.toNat % 128 + 128 * sevenValue bs < 0x80
      · -- All bytes behind the first are zeros that could be left out.
        rw [writeIx_of_lt hlow, List.length_singleton, List.length_cons]
        exact .inr (by omega)
      · have hbyte : UInt8.ofNat ((b.toNat % 128 + 128 * sevenValue bs) % 128 + 128) = b := by
          apply UInt8.toNat_inj.1
          rw [toNat_ofNat_of_lt (by omega)]
          omega
        have hdiv : (b.toNat % 128 + 128 * sevenValue bs) / 128 = sevenValue bs := by omega
        rw [writeIx_of_le (Nat.not_lt.1 hlow), hbyte, hdiv, List.length_cons, List.length_cons]
        obtain heq | hlt := ih hrest
        · exact .inl (congrArg (List.cons b) heq)
        · exact .inr (Nat.succ_lt_succ hlt)

/-! ## Reading and writing -/

/-- The reader succeeds exactly on the sequences of the format, returns their value and stops behind
them; the writer produces the shortest one for each value, which the reader reads back. -/
structure IxFormat (maxBytes : ℕ) {width : ℕ} (read : Reading (BitVec width))
    (write : BitVec width → List UInt8) : Prop where
  returns : ∀ r value r', exec read r = (.ok value, r') ↔
    ∃ bs, r.Shows bs ∧ Encodes maxBytes bs value ∧ r' = r.skip bs.length
  throws : ∀ r, (¬ ∃ bs, ∃ value : BitVec width, r.Shows bs ∧ Encodes maxBytes bs value) →
    ∃ e r', exec read r = (.error e, r')
  encodes : ∀ v, Encodes maxBytes (write v) v
  shortest : ∀ v bs, Encodes maxBytes bs v → bs = write v ∨ (write v).length < bs.length
  undoes : ∀ v r, r.Shows (write v) → exec read r = (.ok v, r.skip (write v).length)

theorem ixFormat_of_returns {n width : ℕ} (hwidth : 2 ^ width ≤ 128 ^ (n + 1))
    {read : Reading (BitVec width)}
    (hread : ∀ r r' value, exec read r = (.ok value, r') ↔
      ∃ bs, r.Shows bs ∧ Encodes (n + 1) bs value ∧ r' = r.skip bs.length) :
    IxFormat (n + 1) read fun v => writeIx v.toNat where
  returns r value r' := hread r r' value
  throws r hnone := by
    cases hexec : exec read r with
    | mk result r' =>
      cases result with
      | error e => exact ⟨e, r', rfl⟩
      | ok value =>
        obtain ⟨bs, hbs, hvalue, -⟩ := (hread r r' value).1 hexec
        exact absurd ⟨bs, value, hbs, hvalue⟩ hnone
  encodes v := encodes_writeIx hwidth v
  shortest v bs h := by
    rw [← h.value]
    exact h.format.eq_or_length_lt
  undoes v r h := (hread r _ v).2 ⟨_, h, encodes_writeIx hwidth v, rfl⟩

/-- `read_ix` and `write_ix` of both sizes, on every reader and every value. -/
theorem ixFormat_readIx (traits : ConvertTraits) :
    IxFormat 5 readIx32 (fun v => (Write.ix32 v).emit traits) ∧
      IxFormat 10 readIx64 (fun v => (Write.ix64 v).emit traits) :=
  ⟨ixFormat_of_returns (by omega) Reader.exec_readIx32_iff,
    ixFormat_of_returns (by omega) Reader.exec_readIx64_iff⟩

end Yasio
