import Yasio.FramingStream

/-!
# The answers of the length decoder

`__builtin_decode_len` says with 0 that the header is not there yet, with a negative number that
the frame is refused, and otherwise how long the frame is.  It computes in `int`.
-/

namespace Yasio

/-- Parameters as `set_option` leaves them in `int`s, with a length field to decode. -/
structure UnpackParams.HasField (u : UnpackParams) : Prop where
  offset_nonneg : 0 ≤ u.lengthFieldOffset
  offset_lt : u.lengthFieldOffset < 2 ^ 31
  length_pos : 1 ≤ u.lengthFieldLength
  length_le : u.lengthFieldLength ≤ 4
  le_adjustment : -2 ^ 31 ≤ u.lengthAdjustment
  adjustment_lt : u.lengthAdjustment < 2 ^ 31
  max_pos : 0 < u.maxFrameLength
  max_lt : u.maxFrameLength < 2 ^ 31

/-- The length of the frame at the head of these bytes, over the integers. -/
def frameTotal (u : UnpackParams) (data : List UInt8) : Int :=
  fieldValue u (fieldBytes u data) + u.lengthAdjustment

/-- What an answer says about the bytes received: 0 that the header is incomplete, a positive number
the length of the frame, a negative number that there is no such frame. -/
structure Classified (u : UnpackParams) (data : List UInt8) (answer : Int) : Prop where
  incomplete : answer = 0 ↔ data.length < u.lengthFieldOffset + u.lengthFieldLength
  accepted : u.lengthFieldOffset + u.lengthFieldLength ≤ data.length →
    0 < frameTotal u data → frameTotal u data ≤ u.maxFrameLength → answer = frameTotal u data
  refused : u.lengthFieldOffset + u.lengthFieldLength ≤ data.length →
    ¬ (0 < frameTotal u data ∧ frameTotal u data ≤ u.maxFrameLength) → answer < 0

/-- The end of the field is an `int`, and the header, once it is complete, decodes neither to 0 nor
to a number so small that its sum wraps into the range of the answers that are not negative. -/
def Decodable (u : UnpackParams) (data : List UInt8) : Prop :=
  u.lengthFieldOffset + u.lengthFieldLength < 2 ^ 31 ∧
    (u.lengthFieldOffset + u.lengthFieldLength ≤ data.length →
      frameTotal u data ≠ 0 ∧
        ¬ (frameTotal u data < -2 ^ 31 ∧ frameTotal u data + 2 ^ 32 ≤ u.maxFrameLength))

instance (u : UnpackParams) (data : List UInt8) : Decidable (Decodable u data) :=
  inferInstanceAs (Decidable (_ ∧ _))

/-- The sum as the code computes it. -/
def wrappedTotal (u : UnpackParams) (data : List UInt8) : Int :=
  toInt32 (frameTotal u data)

theorem fieldValue_range (u : UnpackParams) {field : List UInt8}
    (hl : field.length = u.lengthFieldLength) (h4 : u.lengthFieldLength ≤ 4) :
    -2 ^ 31 ≤ fieldValue u field ∧ fieldValue u field < 2 ^ 31 := by
  have hlt : (if u.noBswap then leNat field else leNat field.reverse) <
      256 ^ u.lengthFieldLength := by
    split
    · rw [← hl]
      exact leNat_lt field
    · rw [← hl, ← List.length_reverse]
      exact leNat_lt field.reverse
  unfold fieldValue
  dsimp only
  split
  · next h =>
    rw [h] at hlt
    have hcases := toInt32_cases
      (if u.noBswap then leNat field else leNat field.reverse : ℕ) (by omega) (by omega)
    omega
  · next h =>
    have hp : 256 ^ u.lengthFieldLength ≤ 256 ^ 3 := Nat.pow_le_pow_right (by omega) (by omega)
    omega

namespace UnpackParams.HasField

variable {u : UnpackParams} (hu : u.HasField)
include hu

theorem frameTotal_range {data : List UInt8}
    (hl : (fieldBytes u data).length = u.lengthFieldLength) :
    -2 ^ 32 ≤ frameTotal u data ∧ frameTotal u data < 2 ^ 32 := by
  obtain ⟨hlow, hhigh⟩ := fieldValue_range u hl hu.length_le
  have h1 := hu.le_adjustment
  have h2 := hu.adjustment_lt
  unfold frameTotal
  omega

/-- The answer on the bytes that the code takes for the length field. -/
theorem decodeLen_eq {d : List UInt8} {n : ℕ}
    (hn : toInt32 (u.lengthFieldOffset + u.lengthFieldLength) ≤ n)
    (hl : (fieldBytes u d).length = u.lengthFieldLength) :
    decodeLen u d n = if u.maxFrameLength < wrappedTotal u d then -1 else wrappedTotal u d :=
  decodeLen_of_field hu.offset_nonneg hu.length_pos hu.length_le hn hl

theorem decodeLen_incomplete {d : List UInt8} {n : ℕ}
    (hn : (n : Int) < toInt32 (u.lengthFieldOffset + u.lengthFieldLength)) :
    decodeLen u d n = 0 := by
  unfold decodeLen
  dsimp only
  rw [if_pos hu.offset_nonneg, if_neg (by omega)]

/-- On a complete header the answer is right exactly when the sum is not 0 and does not wrap into
the accepted range. -/
theorem classified_iff_of_complete {data : List UInt8} {answer : Int}
    (hd : u.lengthFieldOffset + u.lengthFieldLength ≤ data.length)
    (hanswer : answer = if u.maxFrameLength < wrappedTotal u data then -1
      else wrappedTotal u data) :
    Classified u data answer ↔ frameTotal u data ≠ 0 ∧
      ¬ (frameTotal u data < -2 ^ 31 ∧ frameTotal u data + 2 ^ 32 ≤ u.maxFrameLength) := by
  obtain ⟨hlow, hhigh⟩ := hu.frameTotal_range (length_fieldBytes hu.offset_nonneg hd)
  have hmax := hu.max_lt
  have hpos := hu.max_pos
  have hcases := toInt32_cases (frameTotal u data) hlow hhigh
  have hwrapped : wrappedTotal u data = toInt32 (frameTotal u data) := rfl
  constructor
  · rintro ⟨-, -, href⟩
    -- Neither 0 nor a sum that wraps gets a negative answer.
    have hzero : frameTotal u data ≠ 0 := by
      intro hzero
      have hneg := href hd (by omega)
      split at hanswer <;> omega
    refine ⟨hzero, fun hwrap => ?_⟩
    have hneg := href hd (by omega)
    split at hanswer <;> omega
  · rintro ⟨hne, hwrap⟩
    split at hanswer
    · exact ⟨by omega, fun _ _ _ => by omega, fun _ _ => by omega⟩
    · exact ⟨by omega, fun _ _ _ => by omega, fun _ _ => by omega⟩

end UnpackParams.HasField

theorem fieldBytes_append {u : UnpackParams} (hoff : 0 ≤ u.lengthFieldOffset) {data : List UInt8}
    (hd : u.lengthFieldOffset + u.lengthFieldLength ≤ data.length) (rest : List UInt8) :
    fieldBytes u (data ++ rest) = fieldBytes u data := by
  unfold fieldBytes
  rw [List.drop_append_of_le_length (by omega),
    List.take_append_of_le_length (by rw [List.length_drop]; omega)]

/-! ## A header that ends behind the last `int` -/

theorem leNat_inj {bs cs : List UInt8} (hlen : bs.length = cs.length) (h : leNat bs = leNat cs) :
    bs = cs := by
  induction bs generalizing cs with
  | nil => exact (List.length_eq_zero_iff.1 hlen.symm).symm
  | cons b bs ih =>
    cases cs with
    | nil => cases hlen
    | cons c cs =>
      have hhead : b = c := by
        apply UInt8.toNat_inj.1
        rw [← leNat_cons_mod b bs, h, leNat_cons_mod]
      have htail : leNat bs = leNat cs := by rw [← leNat_cons_div b bs, h, leNat_cons_div]
      rw [hhead, ih (Nat.succ.inj hlen) htail]

theorem fieldValue_inj {u : UnpackParams} (h4 : u.lengthFieldLength ≤ 4) {f g : List UInt8}
    (hf : f.length = u.lengthFieldLength) (hg : g.length = u.lengthFieldLength)
    (h : fieldValue u f = fieldValue u g) : f = g := by
  have hvalue : ∀ a b : ℕ, a < 2 ^ 32 → b < 2 ^ 32 →
      (if u.lengthFieldLength = 4 then toInt32 a else (a : Int)) =
        (if u.lengthFieldLength = 4 then toInt32 b else (b : Int)) → a = b := by
    intro a b ha hb hab
    split at hab
    · have hcases := toInt32_cases a (by omega) (by omega)
      have hcases' := toInt32_cases b (by omega) (by omega)
      omega
    · omega
  have hsmall : ∀ bs : List UInt8, bs.length = u.lengthFieldLength → leNat bs < 2 ^ 32 := by
    intro bs hbs
    have hp : 256 ^ bs.length ≤ 256 ^ 4 := Nat.pow_le_pow_right (by omega) (by omega)
    have hlt := leNat_lt bs
    omega
  unfold fieldValue at h
  dsimp only at h
  by_cases hb : u.noBswap = true
  · rw [if_pos hb, if_pos hb] at h
    exact leNat_inj (hf.trans hg.symm) (hvalue _ _ (hsmall f hf) (hsmall g hg) h)
  · rw [if_neg hb, if_neg hb] at h
    have hrev := hvalue _ _ (hsmall f.reverse (by rw [List.length_reverse, hf]))
      (hsmall g.reverse (by rw [List.length_reverse, hg])) h
    have heq : f.reverse = g.reverse := by
      apply leNat_inj _ hrev
      rw [List.length_reverse, List.length_reverse, hf, hg]
    exact List.reverse_injective heq

/-- The field, when all that lies behind the data is one byte. -/
theorem length_fieldBytes_replicate {u : UnpackParams} (hoff : 0 ≤ u.lengthFieldOffset)
    (data : List UInt8) (b : UInt8) :
    (fieldBytes u (data ++ List.replicate
      (u.lengthFieldOffset.toNat + u.lengthFieldLength) b)).length = u.lengthFieldLength := by
  apply length_fieldBytes hoff
  rw [List.length_append, List.length_replicate]
  omega

theorem getLast_fieldBytes_replicate {u : UnpackParams} (hoff : 0 ≤ u.lengthFieldOffset)
    (hlen : 1 ≤ u.lengthFieldLength) {data : List UInt8}
    (hd : data.length < u.lengthFieldOffset + u.lengthFieldLength) (b : UInt8) :
    (fieldBytes u (data ++ List.replicate
      (u.lengthFieldOffset.toNat + u.lengthFieldLength) b))[u.lengthFieldLength - 1]? =
        some b := by
  unfold fieldBytes
  rw [List.getElem?_take_of_lt (by omega), List.getElem?_drop,
    List.getElem?_append_right (by omega), List.getElem?_replicate_of_lt (by omega)]

/-- A sum of the offset and the length that wraps makes the code read behind the data: some bytes
there give an answer that is not 0. -/
theorem UnpackParams.HasField.exists_not_classified {u : UnpackParams} (hu : u.HasField)
    {data : List UInt8} (hdata : data.length < 2 ^ 31)
    (hend : 2 ^ 31 ≤ u.lengthFieldOffset + u.lengthFieldLength) :
    ∃ rest, ¬ Classified u data (decodeLen u (data ++ rest) data.length) := by
  have hoff := hu.offset_nonneg
  have h4 := hu.length_le
  have hpad : ∀ b : UInt8, ∃ field, field.length = u.lengthFieldLength ∧
      field[u.lengthFieldLength - 1]? = some b ∧
      ((∀ rest, Classified u data (decodeLen u (data ++ rest) data.length)) →
        toInt32 (fieldValue u field + u.lengthAdjustment) = 0) := by
    intro b
    refine ⟨_, length_fieldBytes_replicate hoff data b,
      getLast_fieldBytes_replicate hoff hu.length_pos (by omega) b, fun hall => ?_⟩
    have hzero := (hall (List.replicate (u.lengthFieldOffset.toNat + u.lengthFieldLength) b)).1.2
      (by omega)
    have hwrap : toInt32 (u.lengthFieldOffset + u.lengthFieldLength) ≤ data.length := by
      have hlt := hu.offset_lt
      have hcases := toInt32_cases (u.lengthFieldOffset + u.lengthFieldLength) (by omega) (by omega)
      omega
    rw [hu.decodeLen_eq hwrap (length_fieldBytes_replicate hoff data b)] at hzero
    split at hzero
    · cases hzero
    · exact hzero
  by_contra hnone
  have hall : ∀ rest, Classified u data (decodeLen u (data ++ rest) data.length) :=
    fun rest => not_not.1 fun h => hnone ⟨rest, h⟩
  -- Two fields with different last bytes cannot both decode to 0.
  obtain ⟨f, hf, hlast, hzero⟩ := hpad 0
  obtain ⟨g, hg, hlast', hzero'⟩ := hpad 1
  have hsame : fieldValue u f = fieldValue u g := by
    have hrange := fieldValue_range u hf h4
    have hrange' := fieldValue_range u hg h4
    have hlow := hu.le_adjustment
    have hhigh := hu.adjustment_lt
    have hcases := toInt32_cases (fieldValue u f + u.lengthAdjustment) (by omega) (by omega)
    have hcases' := toInt32_cases (fieldValue u g + u.lengthAdjustment) (by omega) (by omega)
    have hzero := hzero hall
    have hzero' := hzero' hall
    omega
  rw [fieldValue_inj h4 hf hg hsame, hlast'] at hlast
  cases hlast

/-! ## Every header -/

/-- Whatever lies behind the data received, the answer classifies them exactly when they are
decodable. -/
theorem forall_classified_iff {u : UnpackParams} (hu : u.HasField) {data : List UInt8}
    (hdata : data.length < 2 ^ 31) :
    (∀ rest, Classified u data (decodeLen u (data ++ rest) data.length)) ↔ Decodable u data := by
  have hoff := hu.offset_nonneg
  by_cases hend : u.lengthFieldOffset + u.lengthFieldLength < 2 ^ 31
  · have hint : toInt32 (u.lengthFieldOffset + u.lengthFieldLength) =
        u.lengthFieldOffset + u.lengthFieldLength := toInt32_eq_self (by omega) hend
    unfold Decodable
    rw [and_iff_right hend]
    by_cases hd : u.lengthFieldOffset + u.lengthFieldLength ≤ data.length
    · rw [forall_prop_of_true hd, ← hu.classified_iff_of_complete hd rfl]
      refine forall_congr' (fun rest => ?_) |>.trans (forall_const _)
      have hbytes := fieldBytes_append hoff hd rest
      have hlen : (fieldBytes u (data ++ rest)).length = u.lengthFieldLength := by
        rw [hbytes, length_fieldBytes hoff hd]
      rw [hu.decodeLen_eq (by omega) hlen]
      unfold wrappedTotal frameTotal
      rw [hbytes]
    · refine iff_of_true (fun rest => ?_) fun h => absurd h hd
      rw [hu.decodeLen_incomplete (by omega)]
      exact ⟨iff_of_true rfl (by omega), fun h => absurd h hd, fun h => absurd h hd⟩
  · -- The test for the complete header has wrapped and always succeeds.
    refine iff_of_false (fun hall => ?_) fun h => hend h.1
    obtain ⟨rest, hnot⟩ := hu.exists_not_classified hdata (by omega)
    exact hnot (hall rest)

/-- A four-byte header without adjustment, all zero: the answer is 0, as if it were incomplete. -/
theorem not_classified_zero :
    decodeLen { lengthFieldOffset := 0 } [0, 0, 0, 0] 4 = 0 ∧
      ¬ Classified { lengthFieldOffset := 0 } [0, 0, 0, 0]
        (decodeLen { lengthFieldOffset := 0 } [0, 0, 0, 0] 4) := by
  have hzero : decodeLen { lengthFieldOffset := 0 } [0, 0, 0, 0] 4 = 0 := by decide +kernel
  refine ⟨hzero, fun h => ?_⟩
  have hlt := h.incomplete.1 hzero
  revert hlt
  decide +kernel

/-- A header with a length of five is decoded, whatever follows it. -/
theorem classified_five :
    Decodable { lengthFieldOffset := 0 } [0, 0, 0, 5] ∧
      ∀ rest, Classified { lengthFieldOffset := 0 } [0, 0, 0, 5]
        (decodeLen { lengthFieldOffset := 0 } ([0, 0, 0, 5] ++ rest) 4) := by
  have hd : Decodable { lengthFieldOffset := 0 } [0, 0, 0, 5] := by decide +kernel
  exact ⟨hd, (forall_classified_iff (by constructor <;> decide) (by decide)).2 hd⟩

end Yasio
