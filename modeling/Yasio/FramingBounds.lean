import Yasio.FramingStream

/-!
# The ranges that `unpack` appends

`unpack` appends the bytes from `strip` to `last` of the receive buffer.  `pod_vector::insert`
throws when they do not come in this order, which happens when a header is complete before all
bytes of the stripped front of its frame are there.
-/

namespace Yasio

/-! ## One call of `unpack` -/

/-- What a call of `unpack` for a frame of `size` bytes promises. -/
structure UnpackCall.InBounds (u : UnpackParams) (rx : Rx) (size : Int) (call : UnpackCall) :
    Prop where
  first_le_last : (call.strip : Int) ≤ call.last rx
  last_le : call.last rx ≤ call.available rx
  held : call.available rx ≤ rx.buffer.length
  returns : ∃ result, ({ rx with expectedSize := size } : Rx).unpack call = .ok result
  complete : ∀ result p, ({ rx with expectedSize := size } : Rx).unpack call = .ok result →
    result.verdict = .packet p → (p.length : Int) + u.initialBytesToStrip = size

namespace Rx

/-- Between two reads: no frame is in progress, or one whose packet lacks some bytes. -/
structure Resting (u : UnpackParams) (rx : Rx) : Prop where
  size : rx.buffer.length = maxRcvbuf
  offset_le : rx.offset ≤ maxRcvbuf
  progress : rx.expectedSize = -1 ∧ rx.expectedPacket = [] ∨
    rx.offset = 0 ∧ (rx.expectedPacket.length + u.initialBytesToStrip : ℕ) < rx.expectedSize ∧
      0 ≤ rx.expectedSize

theorem Resting.store {u : UnpackParams} {rx : Rx} {bs : List UInt8} (h : rx.Resting u)
    (hfit : rx.offset + bs.length ≤ rx.buffer.length) : (rx.store bs).Resting u :=
  ⟨(length_store hfit).trans h.size, h.offset_le, h.progress⟩

/-- The length of the appended range. -/
theorem length_range {rx : Rx} {call : UnpackCall} (hs : (call.strip : Int) ≤ call.last rx)
    (hheld : call.available rx ≤ rx.buffer.length) :
    (((rx.buffer.take (call.last rx).toNat).drop call.strip).length : Int) =
      call.last rx - call.strip := by
  have hlast : call.last rx ≤ call.available rx := min_le_right _ _
  simp only [List.length_drop, List.length_take]
  omega

variable {u : UnpackParams} {rx : Rx} {size : Int} {call : UnpackCall}

/-- A call that asks for what its frame lacks returns, and keeps the transport well-formed. -/
theorem unpack_resting (h : rx.buffer.length = maxRcvbuf)
    (hheld : call.available rx ≤ rx.buffer.length)
    (hsum : (rx.expectedPacket.length : Int) + call.want - call.strip + u.initialBytesToStrip =
      size) (hsize : 0 ≤ size) (hs : (call.strip : Int) ≤ call.last rx) :
    ∃ result, ({ rx with expectedSize := size } : Rx).unpack call = .ok result ∧
      result.rx.Resting u ∧ (∀ e, result.verdict ≠ .closed e) ∧
      ∀ p, result.verdict = .packet p → (p.length : Int) + u.initialBytesToStrip = size := by
  have hlen := length_range hs hheld
  have hlast : call.last rx = min call.want (call.available rx) := rfl
  have hav : call.available rx = (call.transferred + rx.offset : ℕ) := rfl
  have hs' : (call.strip : Int) ≤ call.last { rx with expectedSize := size } := hs
  rw [unpack, if_pos hs']
  by_cases hdone : 0 ≤ call.available rx - call.want
  · have hdone' : 0 ≤ call.available { rx with expectedSize := size } - call.want := hdone
    have hwant : call.last rx = call.want := by rw [hlast, min_eq_left (by omega)]
    rw [if_pos hdone']
    refine ⟨_, rfl, ⟨?_, ?_, .inl ⟨rfl, rfl⟩⟩, by simp, fun p hp => ?_⟩
    · dsimp only
      split_ifs with hmove
      · rw [length_moveToHead, h]
        show call.want.toNat + (call.available rx - call.want).toNat ≤ rx.buffer.length
        omega
      · exact h
    · show (call.available rx - call.want).toNat ≤ maxRcvbuf
      omega
    · have hp' :
          rx.expectedPacket ++ (rx.buffer.take (call.last rx).toNat).drop call.strip = p := by
        injection hp
      rw [← hp', List.length_append]
      push_cast
      omega
  · have hdone' : ¬ 0 ≤ call.available { rx with expectedSize := size } - call.want := hdone
    have hall : call.last rx = call.available rx := by rw [hlast, min_eq_right (by omega)]
    rw [if_neg hdone']
    refine ⟨_, rfl, ⟨h, Nat.zero_le _, .inr ⟨rfl, ?_, hsize⟩⟩, by simp, by simp⟩
    show ((rx.expectedPacket ++ (rx.buffer.take (call.last rx).toNat).drop call.strip).length +
      u.initialBytesToStrip : ℕ) < size
    rw [List.length_append]
    push_cast
    omega

/-- Such a call is in bounds exactly when its range does not start behind its end. -/
theorem inBounds_iff (h : rx.buffer.length = maxRcvbuf)
    (hheld : call.available rx ≤ rx.buffer.length)
    (hsum : (rx.expectedPacket.length : Int) + call.want - call.strip + u.initialBytesToStrip =
      size) (hsize : 0 ≤ size) :
    call.InBounds u rx size ↔ (call.strip : Int) ≤ call.last rx := by
  refine ⟨fun hb => hb.first_le_last, fun hs => ?_⟩
  obtain ⟨result, hret, -, -, hdone⟩ := unpack_resting h hheld hsum hsize hs
  refine ⟨hs, min_le_right _ _, hheld, ⟨result, hret⟩, fun result' p hret' hp => ?_⟩
  obtain rfl : result = result' := by
    have heq := hret.symm.trans hret'
    injection heq
  exact hdone p hp

/-- The condition on a read that brings `n` bytes: if no frame is in progress and it completes a
header of a frame that is not shorter than the stripped front, all of this front is there. -/
def StripArrived (u : UnpackParams) (rx : Rx) (n : ℕ) : Prop :=
  rx.expectedSize = -1 → 0 < decodeLen u rx.buffer (rx.offset + n) →
    u.initialBytesToStrip ≤ decodeLen u rx.buffer (rx.offset + n) →
    u.initialBytesToStrip ≤ rx.offset + n

theorem plan_of_decodeLen {n : ℕ} (hexp : rx.expectedSize = -1)
    (hpos : 0 < decodeLen u rx.buffer (rx.offset + n))
    (hle : u.initialBytesToStrip ≤ decodeLen u rx.buffer (rx.offset + n)) :
    rx.plan u n = .unpack (decodeLen u rx.buffer (rx.offset + n))
      ⟨decodeLen u rx.buffer (rx.offset + n), n, u.initialBytesToStrip⟩ := by
  simp only [plan, if_pos hexp, if_pos hpos]
  rw [if_neg (by omega)]

/-- `do_read` calls `unpack` for what the frame lacks. -/
theorem Resting.plan_unpack (h : rx.Resting u) {n : ℕ} (hn : rx.offset + n ≤ rx.buffer.length)
    (hplan : rx.plan u n = .unpack size call) :
    call.available rx ≤ rx.buffer.length ∧
      (rx.expectedPacket.length : Int) + call.want - call.strip + u.initialBytesToStrip = size ∧
      0 ≤ size ∧ ((call.strip : Int) ≤ call.last rx ↔ rx.StripArrived u n) := by
  rcases h.progress with ⟨hexp, hpkt⟩ | ⟨hoff, hlt, hpos⟩
  · by_cases hlen : 0 < decodeLen u rx.buffer (rx.offset + n)
    · by_cases hs : (u.initialBytesToStrip : Int) ≤ decodeLen u rx.buffer (rx.offset + n)
      · rw [plan_of_decodeLen hexp hlen hs] at hplan
        obtain ⟨rfl, rfl⟩ : _ ∧ _ := Plan.unpack.inj hplan
        simp only [StripArrived, UnpackCall.last, UnpackCall.available, hpkt, List.length_nil]
        refine ⟨by omega, by omega, by omega, fun h _ _ _ => by omega, fun h => ?_⟩
        have := h hexp hlen hs
        omega
      · simp only [plan, if_pos hexp, if_pos hlen] at hplan
        rw [if_pos (by omega)] at hplan
        cases hplan
    · simp only [plan, if_pos hexp, if_neg hlen] at hplan
      split_ifs at hplan
  · have hexp : ¬ rx.expectedSize = -1 := by omega
    simp only [plan, if_neg hexp] at hplan
    obtain ⟨rfl, rfl⟩ : _ ∧ _ := Plan.unpack.inj hplan
    simp only [UnpackCall.last, UnpackCall.available]
    exact ⟨by omega, by omega, hpos, fun _ h' => absurd h' hexp, fun _ => by omega⟩

end Rx

/-! ## Whole connections -/

theorem callRead_eq_natCast {tcp : Bool} {r : RawRead} {n : ℕ} (h : (callRead tcp r).1 = n) :
    n = r.data.length := by
  match r with
  | .bytes [] =>
    cases tcp with
    | false => exact (Int.natCast_eq_zero.1 h.symm)
    | true =>
      have h' : (-1 : Int) = n := h
      omega
  | .bytes (b :: bs) =>
    simp only [callRead] at h
    exact_mod_cast h.symm
  | .fail errno =>
    simp only [callRead] at h
    split_ifs at h
    · simp only [RawRead.data, List.length_nil]
      omega
    · omega

namespace Conn

variable {u : UnpackParams}

/-- The call of `unpack` that this read leads to, if it does, is in bounds. -/
def UnpackInBounds (u : UnpackParams) (c : Conn) (r : RawRead) : Prop :=
  c.Reads r → ∀ n : ℕ, (callRead true r).1 = n → ∀ size call,
    (c.rx.store r.data).plan u n = .unpack size call → call.InBounds u (c.rx.store r.data) size

/-- `Rx.StripArrived` of the bytes that this read brings, if it does. -/
def StripArrived (u : UnpackParams) (c : Conn) (r : RawRead) : Prop :=
  c.Reads r → ∀ n : ℕ, (callRead true r).1 = n → (c.rx.store r.data).StripArrived u n

/-- An open connection is between two reads. -/
def Resting (u : UnpackParams) (c : Conn) : Prop := c.status = .opened → c.rx.Resting u

theorem Resting.inBounds_iff {c : Conn} (h : c.Resting u) (r : RawRead) :
    c.UnpackInBounds u r ↔ c.StripArrived u r := by
  refine forall_congr' fun hr => forall_congr' fun n => forall_congr' fun hn => ?_
  have hrx := (h hr.1).store hr.2
  have hfit : (c.rx.store r.data).offset + n ≤ (c.rx.store r.data).buffer.length := by
    rw [callRead_eq_natCast hn, Rx.length_store hr.2]
    exact hr.2
  constructor
  · intro hb hexp hpos hle
    have hplan := Rx.plan_of_decodeLen hexp hpos hle
    obtain ⟨-, -, -, hiff⟩ := hrx.plan_unpack hfit hplan
    exact hiff.1 (hb _ _ hplan).first_le_last hexp hpos hle
  · intro hs size call hplan
    obtain ⟨hheld, hsum, hsize, hiff⟩ := hrx.plan_unpack hfit hplan
    exact (Rx.inBounds_iff hrx.size hheld hsum hsize).2 (hiff.2 hs)

theorem Resting.step {c c' : Conn} {r : RawRead} (h : c.Resting u) (hs : c.StripArrived u r)
    (hstep : c.step false u r = some c') : c'.Resting u ∧ ∀ e, c'.status ≠ .threw e := by
  obtain ⟨hr, rfl⟩ := step_eq_some.1 hstep
  have hrx := (h hr.1).store hr.2
  rcases Int.lt_or_le (callRead true r).1 0 with hneg | hpos
  · have hread : c.rx.doRead false true u r =
        .ok { rx := c.rx.store r.data, verdict := .closed (callRead true r).2 } := by
      simp only [Rx.doRead, Rx.process, if_neg (Int.not_le.2 hneg)]
    rw [hread]
    exact ⟨fun h => (by cases h), fun _ h => (by cases h)⟩
  · obtain ⟨n, hn⟩ := Int.eq_ofNat_of_zero_le hpos
    have hfit : (c.rx.store r.data).offset + n ≤ (c.rx.store r.data).buffer.length := by
      rw [callRead_eq_natCast hn, Rx.length_store hr.2]
      exact hr.2
    have hread : c.rx.doRead false true u r =
        (c.rx.store r.data).act n ((c.rx.store r.data).plan u n) := by
      simp only [Rx.doRead, Rx.process, hn, Int.natCast_nonneg, if_true, Bool.false_eq_true,
        if_false, Int.toNat_natCast]
    rw [hread]
    cases hplan : (c.rx.store r.data).plan u n with
    | reject => exact ⟨fun h => (by cases h), fun _ h => (by cases h)⟩
    | more =>
      refine ⟨fun _ => ⟨hrx.size, hfit.trans hrx.size.le, ?_⟩, fun e => ?_⟩
      · rcases hrx.progress with hp | ⟨-, -, hpos⟩
        · exact .inl hp
        · -- inside a frame `do_read` always calls `unpack`
          have hexp : ¬ (c.rx.store r.data).expectedSize = -1 := by omega
          simp only [Rx.plan, if_neg hexp] at hplan
          cases hplan
      · show c.status ≠ _
        rw [hr.1]
        simp
    | unpack size call =>
      obtain ⟨hheld, hsum, hsize, hiff⟩ := hrx.plan_unpack hfit hplan
      obtain ⟨⟨rx, verdict, busy⟩, hret, hrest, hcl, -⟩ :=
        Rx.unpack_resting hrx.size hheld hsum hsize (hiff.2 (hs hr n hn))
      simp only [Rx.act, hret]
      cases verdict with
      | closed e => exact absurd rfl (hcl e)
      | pending => exact ⟨fun _ => hrest, fun e => by rw [record, hr.1]; simp⟩
      | packet p => exact ⟨fun _ => hrest, fun e => by rw [record, hr.1]; simp⟩
      | view p => exact ⟨fun _ => hrest, fun e => by rw [record, hr.1]; simp⟩

theorem resting_fresh {buffer : List UInt8} (hbuf : buffer.length = maxRcvbuf) :
    (fresh buffer).Resting u := fun _ => ⟨hbuf, Nat.zero_le _, .inl ⟨rfl, rfl⟩⟩

end Conn

/-- **Bounds of unpacking.**  For all parameters and all chunkings, the calls of `unpack` are in
bounds exactly as long as no read completes a header before the stripped front of its frame has
arrived, and until then no exception leaves `do_read`. -/
theorem unpack_inBounds_iff (u : UnpackParams) {buffer : List UInt8}
    (hbuf : buffer.length = maxRcvbuf) (reads : List RawRead) :
    (Machine.Meets (Conn.step false u) (Conn.UnpackInBounds u) reads (Conn.fresh buffer) ↔
      Machine.Meets (Conn.step false u) (Conn.StripArrived u) reads (Conn.fresh buffer)) ∧
    (Machine.Meets (Conn.step false u) (Conn.StripArrived u) reads (Conn.fresh buffer) →
      ∀ c, Machine.run (Conn.step false u) reads (Conn.fresh buffer) = some c →
        ∀ e, c.status ≠ .threw e) := by
  constructor
  · exact Machine.meets_iff_meets (I := Conn.Resting u) (fun c r h => h.inBounds_iff r)
      (fun c r c' h hs hstep => (h.step hs hstep).1) (Conn.resting_fresh hbuf)
  · intro hmeets c hrun
    refine (Machine.invariant_of_meets (I := fun c => c.Resting u ∧ ∀ e, c.status ≠ .threw e)
      (fun c r c' h hs hstep => h.1.step hs hstep) ⟨Conn.resting_fresh hbuf, ?_⟩ hmeets hrun).2
    simp [Conn.fresh]

/-- A four-byte length in front of frames whose first 32 bytes are stripped. -/
def stripBody : UnpackParams :=
  (({} : UnpackParams).setUnpackParams (10 * 1024 * 1024) 0 4 0).setUnpackStrip 32

theorem unpack_inBounds_iff_stripBody :
    Machine.Meets (Conn.step false stripBody) (Conn.UnpackInBounds stripBody)
      [.bytes ([0, 0, 0, 40] ++ List.replicate 28 7)]
      (Conn.fresh (List.replicate maxRcvbuf 0)) := by
  have hbuf : (List.replicate maxRcvbuf (0 : UInt8)).length = maxRcvbuf := List.length_replicate
  refine (unpack_inBounds_iff stripBody hbuf _).1.2 (Machine.meets_cons.2 ⟨?_, fun _ _ => trivial⟩)
  intro _ n hn _ _ _
  have hn' : n = 32 := callRead_eq_natCast hn
  subst hn'
  decide

/-- The header of a frame of 40 bytes, alone in its read, makes `unpack` throw. -/
theorem unpack_throws_on_header :
    (∃ c, Machine.run (Conn.step false stripBody) [.bytes [0, 0, 0, 40]]
        (Conn.fresh (List.replicate maxRcvbuf 0)) = some c ∧ c.status = .threw .outOfRange) ∧
    ¬ Machine.Meets (Conn.step false stripBody) (Conn.UnpackInBounds stripBody)
      [.bytes [0, 0, 0, 40]] (Conn.fresh (List.replicate maxRcvbuf 0)) := by
  have hfit : 0 + 4 ≤ (List.replicate maxRcvbuf (0 : UInt8)).length := by
    rw [List.length_replicate]
    decide
  constructor
  · exact ⟨_, Machine.run_cons.2 ⟨_, Conn.step_eq_some.2 ⟨⟨rfl, hfit⟩, rfl⟩, rfl⟩,
      by decide +kernel⟩
  · intro h
    have hb := (Machine.meets_cons.1 h).1 ⟨rfl, hfit⟩ 4 rfl 40 ⟨40, 4, 32⟩ (by decide +kernel)
    exact absurd hb.first_le_last (by decide +kernel)

end Yasio
