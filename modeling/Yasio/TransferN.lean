import Yasio.Framing
import Yasio.Lib.Overwrite

/-!
# `send_n` and `recv_n`

Both call the system until all bytes are transferred, and wait when the call would block.  The
time-out shrinks by what the clock shows around each wait.
-/

namespace Yasio

/-- What the system does.  Its `i`-th `::send` or `::recv` fails, or has room for or holds so many
bytes; its `i`-th `::select` on a `timeval` fails or finds so many descriptors ready, and the clock
advances meanwhile. -/
structure Kernel where
  io : ℕ → Except Int ℕ
  select : ℕ → ℤ × ℤ → Except Int ℕ
  selectTime : ℕ → ℕ
  selectTimePos : ∀ i, 0 < selectTime i

/-- How many calls there were, the clock and `errno`. -/
structure KernelState where
  ios : ℕ := 0
  selects : ℕ := 0
  clock : ℤ := 0
  errno : Int := 0

namespace Kernel

variable (k : Kernel)

/-- `::send` or `::recv`, called for `count` bytes -/
def callIo (count : ℕ) (s : KernelState) : ℤ × KernelState :=
  match k.io s.ios with
  | .ok n => (min n count, { s with ios := s.ios + 1 })
  | .error error => (-1, { s with ios := s.ios + 1, errno := error })

/-- `::select` -/
def callSelect (tv : ℤ × ℤ) (s : KernelState) : ℤ × KernelState :=
  let s' := { s with selects := s.selects + 1, clock := s.clock + k.selectTime s.selects }
  match k.select s.selects tv with
  | .ok n => (n, s')
  | .error error => (-1, { s' with errno := error })

theorem clock_callSelect (tv : ℤ × ℤ) (s : KernelState) :
    (k.callSelect tv s).2.clock = s.clock + k.selectTime s.selects := by
  unfold callSelect
  split <;> rfl

/-- `waitd_tv` -/
def timeval (wtimeout : ℤ) : ℤ × ℤ := (wtimeout.tdiv 1000000, wtimeout.tmod 1000000)

/-- `xxsocket::select` -/
def selectLoop (wtimeout : ℤ) (s : KernelState) : ℤ × KernelState :=
  let called := k.callSelect (timeval wtimeout) s
  let left := wtimeout - (called.2.clock - s.clock)
  if called.1 < 0 ∧ called.2.errno = EINTR then
    if _hleft : 0 < left then selectLoop left called.2
    else (0, { called.2 with errno := ETIMEDOUT })
  else if called.1 = 0 then (0, { called.2 with errno := ETIMEDOUT })
  else called
termination_by wtimeout.toNat
decreasing_by
  have hpos := k.selectTimePos s.selects
  simp only [left, called, clock_callSelect] at _hleft ⊢
  omega

/-! ## A wait -/

/-- A `::select` between two states failed, and not because it was interrupted. -/
def SelectFailed (s s' : KernelState) : Prop :=
  ∃ i tv error, s.selects ≤ i ∧ i < s'.selects ∧ k.select i tv = .error error ∧ error ≠ EINTR

variable {k}

theorem SelectFailed.mono {s₀ s s' s₁ : KernelState} (h : k.SelectFailed s s')
    (hs : s₀.selects ≤ s.selects) (hs' : s'.selects ≤ s₁.selects) : k.SelectFailed s₀ s₁ := by
  obtain ⟨i, tv, error, hi, hi', hfail⟩ := h
  exact ⟨i, tv, error, hs.trans hi, hi'.trans_le hs', hfail⟩

theorem callSelect_spec (tv : ℤ × ℤ) (s : KernelState) :
    let called := k.callSelect tv s
    s.clock < called.2.clock ∧ called.2.ios = s.ios ∧ called.2.selects = s.selects + 1 ∧
      (called.1 < 0 → k.select s.selects tv = .error called.2.errno) := by
  have hpos := k.selectTimePos s.selects
  have hclock := k.clock_callSelect tv s
  refine ⟨by omega, ?_⟩
  unfold callSelect
  split
  · exact ⟨rfl, rfl, fun h => absurd h (by simp)⟩
  · next error herror => exact ⟨rfl, rfl, fun _ => herror⟩

theorem selectLoop_spec (wtimeout : ℤ) (s : KernelState) :
    let ready := k.selectLoop wtimeout s
    s.clock < ready.2.clock ∧ ready.2.ios = s.ios ∧ s.selects ≤ ready.2.selects ∧
      (ready.1 = -1 → k.SelectFailed s ready.2) := by
  fun_induction k.selectLoop wtimeout s with
  | case1 wtimeout s called left hintr hleft ih =>
    have hcalled : _ ∧ _ ∧ called.2.selects = _ ∧ _ := callSelect_spec (timeval wtimeout) s
    have hle : s.selects ≤ called.2.selects := hcalled.2.2.1 ▸ Nat.le_succ _
    exact ⟨hcalled.1.trans ih.1, ih.2.1.trans hcalled.2.1, hle.trans ih.2.2.1,
      fun h => (ih.2.2.2 h).mono hle (Nat.le_refl _)⟩
  | case2 wtimeout s called left hintr hleft =>
    have hcalled : _ ∧ _ ∧ called.2.selects = _ ∧ _ := callSelect_spec (timeval wtimeout) s
    exact ⟨hcalled.1, hcalled.2.1, hcalled.2.2.1 ▸ Nat.le_succ _, fun h => absurd h (by simp)⟩
  | case3 wtimeout s called hintr hzero =>
    have hcalled : _ ∧ _ ∧ called.2.selects = _ ∧ _ := callSelect_spec (timeval wtimeout) s
    exact ⟨hcalled.1, hcalled.2.1, hcalled.2.2.1 ▸ Nat.le_succ _, fun h => absurd h (by simp)⟩
  | case4 wtimeout s called hintr hzero =>
    have hcalled : _ ∧ _ ∧ called.2.selects = _ ∧ _ := callSelect_spec (timeval wtimeout) s
    refine ⟨hcalled.1, hcalled.2.1, hcalled.2.2.1 ▸ Nat.le_succ _, fun h => ?_⟩
    have hneg : called.1 < 0 := h ▸ (by decide : (-1 : ℤ) < 0)
    exact ⟨s.selects, timeval wtimeout, called.2.errno, Nat.le_refl _,
      hcalled.2.2.1 ▸ Nat.lt_succ_self _, hcalled.2.2.2 hneg, fun herrno => hintr ⟨hneg, herrno⟩⟩

/-! ## The loop of both functions -/

variable {σ : Type} (k)

/-- The loop.  `retry` tells the errors that stand for blocking, and `move` transfers so many
bytes from an offset of the buffer on. -/
def transferN (retry : Int → Bool) (move : ℕ → ℕ → σ → σ) (len : ℕ) (wtimeout : ℤ)
    (bytesTransferred : ℕ) (d : σ) (s : KernelState) : ℕ × σ × KernelState :=
  if bytesTransferred < len then
    let called := k.callIo (len - bytesTransferred) s
    if 0 < called.1 then
      transferN retry move len wtimeout (bytesTransferred + called.1.toNat)
        (move bytesTransferred called.1.toNat d) called.2
    else if called.1 = -1 ∧ retry called.2.errno then
      let ready := k.selectLoop wtimeout called.2
      let left := wtimeout - (ready.2.clock - called.2.clock)
      if _hready : ready.1 ≠ -1 ∧ 0 < left then
        transferN retry move len left bytesTransferred d ready.2
      else (bytesTransferred, d, ready.2)
    else (bytesTransferred, d, called.2)
  else (bytesTransferred, d, s)
termination_by len - bytesTransferred + wtimeout.toNat
decreasing_by
  · change len - (bytesTransferred + called.1.toNat) + wtimeout.toNat < _
    omega
  · have hwait : called.2.clock < ready.2.clock := (selectLoop_spec wtimeout called.2).1
    change len - bytesTransferred + (wtimeout - (ready.2.clock - called.2.clock)).toNat < _
    omega

/-! ## Why it ends -/

/-- The end of the stream, or an error that does not stand for blocking. -/
def IoEnds (retry : Int → Bool) : Except Int ℕ → Prop
  | .ok n => n = 0
  | .error error => retry error = false

/-- Between two states the time-out was used up, or the system reported an error or the end of the
stream. -/
def Stopped (retry : Int → Bool) (wtimeout : ℤ) (s s' : KernelState) : Prop :=
  wtimeout ≤ s'.clock - s.clock ∨
    (∃ i, s.ios ≤ i ∧ i < s'.ios ∧ IoEnds retry (k.io i)) ∨ k.SelectFailed s s'

/-- No counter and no clock goes back. -/
structure Before (s s' : KernelState) : Prop where
  ios : s.ios ≤ s'.ios
  selects : s.selects ≤ s'.selects
  clock : s.clock ≤ s'.clock

variable {k}

theorem Stopped.of_before {retry : Int → Bool} {wtimeout : ℤ} {s₀ s s' : KernelState}
    (hb : Before s₀ s) (h : k.Stopped retry (wtimeout - (s.clock - s₀.clock)) s s') :
    k.Stopped retry wtimeout s₀ s' := by
  rcases h with h | ⟨i, hi, hi', hio⟩ | h
  · exact .inl (by omega)
  · exact .inr (.inl ⟨i, hb.ios.trans hi, hi', hio⟩)
  · exact .inr (.inr (h.mono hb.selects (Nat.le_refl _)))

theorem callIo_spec (count : ℕ) (s : KernelState) :
    let called := k.callIo count s
    called.1 ≤ count ∧ called.2.ios = s.ios + 1 ∧ called.2.selects = s.selects ∧
      called.2.clock = s.clock ∧ (called.1 = -1 → k.io s.ios = .error called.2.errno) ∧
      (0 < count → called.1 = 0 → k.io s.ios = .ok 0) ∧ -1 ≤ called.1 := by
  unfold callIo
  split
  · next n hn =>
    refine ⟨by dsimp only; omega, rfl, rfl, rfl, fun h => ?_, fun hcount h => ?_, ?_⟩
    · dsimp only at h
      omega
    · rw [hn]
      dsimp only at h
      congr 1
      omega
    · dsimp only
      omega
  · next error herror =>
    exact ⟨by dsimp only; omega, rfl, rfl, rfl, fun _ => herror, fun _ h => absurd h (by simp),
      Int.le_refl _⟩

theorem Stopped.of_callIo {retry : Int → Bool} {wtimeout : ℤ} {count : ℕ} {s s' : KernelState}
    (h : k.Stopped retry wtimeout (k.callIo count s).2 s') : k.Stopped retry wtimeout s s' := by
  obtain ⟨-, hios, hselects, hclock, -⟩ := callIo_spec (k := k) count s
  refine .of_before ⟨hios ▸ Nat.le_succ _, hselects.ge, hclock.ge⟩ ?_
  rwa [hclock, sub_self, sub_zero]

theorem before_selectLoop (wtimeout : ℤ) (s : KernelState) :
    Before s (k.selectLoop wtimeout s).2 := by
  obtain ⟨hclock, hios, hselects, -⟩ := selectLoop_spec (k := k) wtimeout s
  exact ⟨hios.ge, hselects, hclock.le⟩

/-- What holds of the bytes transferred so far and is kept by a transfer holds in the end. -/
theorem transferN_spec {retry : Int → Bool} {move : ℕ → ℕ → σ → σ} {len : ℕ} (I : ℕ → σ → Prop)
    (hmove : ∀ done n d, done + n ≤ len → I done d → I (done + n) (move done n d))
    {wtimeout : ℤ} {done : ℕ} {d : σ} {s : KernelState} (hdone : done ≤ len) (hI : I done d) :
    let r := k.transferN retry move len wtimeout done d s
    r.1 ≤ len ∧ I r.1 r.2.1 ∧ (r.1 < len → k.Stopped retry wtimeout s r.2.2) := by
  fun_induction k.transferN retry move len wtimeout done d s with
  | case1 wtimeout done d s hlt called hpos ih =>
    obtain ⟨hle, -, -, hclock, -⟩ : called.1 ≤ _ ∧ _ ∧ _ ∧ called.2.clock = _ ∧ _ :=
      callIo_spec (len - done) s
    have hmore : done + called.1.toNat ≤ len := by omega
    obtain ⟨hlen, hI', hstop⟩ := ih hmore (hmove done _ d hmore hI)
    exact ⟨hlen, hI', fun h => (hstop h).of_callIo⟩
  | case2 wtimeout done d s hlt called hpos hretry ready left hready ih =>
    obtain ⟨hlen, hI', hstop⟩ := ih hdone hI
    exact ⟨hlen, hI', fun h => (Stopped.of_before (before_selectLoop _ _) (hstop h)).of_callIo⟩
  | case3 wtimeout done d s hlt called hpos hretry ready left hready =>
    have hwait : k.Stopped retry wtimeout called.2 ready.2 := by
      by_cases hfail : ready.1 = -1
      · exact .inr (.inr ((selectLoop_spec wtimeout called.2).2.2.2 hfail))
      · have hleft : wtimeout - (ready.2.clock - called.2.clock) ≤ 0 :=
          Int.not_lt.1 fun h => hready ⟨hfail, h⟩
        exact .inl (by omega)
    exact ⟨hdone, hI, fun _ => hwait.of_callIo⟩
  | case4 wtimeout done d s hlt called hpos hretry =>
    obtain ⟨-, hios, -, -, herror, hend, hge⟩ : _ ∧ called.2.ios = _ ∧ _ ∧ _ ∧
        (called.1 = -1 → _) ∧ (_ → called.1 = 0 → _) ∧ -1 ≤ called.1 := callIo_spec (len - done) s
    have hcount : s.ios < called.2.ios := hios ▸ Nat.lt_succ_self _
    refine ⟨hdone, hI, fun _ => .inr (.inl ⟨s.ios, Nat.le_refl _, hcount, ?_⟩)⟩
    -- what is not an error is the end of the stream
    by_cases hfail : called.1 = -1
    · rw [herror hfail]
      exact Bool.eq_false_iff.2 fun h => hretry ⟨hfail, h⟩
    · rw [hend (Nat.sub_pos_of_lt hlt) (by omega)]
      exact rfl
  | case5 wtimeout done d s hlt => exact ⟨hdone, hI, fun h => absurd h hlt⟩

/-! ## The two functions -/

variable {α : Type} (k)

/-- `send_n`, and what the peer has been sent. -/
def sendN (buf : List α) (wtimeout : ℤ) (wire : List α) (s : KernelState) :
    ℕ × List α × KernelState :=
  k.transferN notSendError (fun done n wire => wire ++ (buf.drop done).take n) buf.length wtimeout 0
    wire s

/-- `recv_n`, the buffer, and how much of the stream has been read. -/
def recvN (stream : ℕ → α) (buf : List α) (wtimeout : ℤ) (pos : ℕ) (s : KernelState) :
    ℕ × (List α × ℕ) × KernelState :=
  k.transferN notRecvError
    (fun done n d => (Memory.overwrite d.1 done ((List.range' d.2 n).map stream), d.2 + n))
    buf.length wtimeout 0 (buf, pos) s

theorem sendN_prefix (buf : List α) (wtimeout : ℤ) (wire : List α) (s : KernelState) :
    let sent := k.sendN buf wtimeout wire s
    sent.1 ≤ buf.length ∧ sent.2.1 = wire ++ buf.take sent.1 ∧
      (sent.1 < buf.length → k.Stopped notSendError wtimeout s sent.2.2) := by
  refine transferN_spec (fun done wire' => wire' = wire ++ buf.take done) ?_ (Nat.zero_le _) ?_
  · intro done n wire' _ hwire
    rw [hwire, List.append_assoc, List.take_add]
  · simp

theorem recvN_prefix (stream : ℕ → α) (buf : List α) (wtimeout : ℤ) (pos : ℕ)
    (s : KernelState) :
    let received := k.recvN stream buf wtimeout pos s
    received.1 ≤ buf.length ∧
      received.2.1 =
        ((List.range' pos received.1).map stream ++ buf.drop received.1, pos + received.1) ∧
      (received.1 < buf.length → k.Stopped notRecvError wtimeout s received.2.2) := by
  refine transferN_spec
    (fun done d => d = ((List.range' pos done).map stream ++ buf.drop done, pos + done)) ?_
    (Nat.zero_le _) (by simp)
  intro done n d hle hd
  have hcut : buf.drop done = (buf.drop done).take n ++ buf.drop (done + n) := by
    rw [← List.drop_drop, List.take_append_drop]
  have hlen :
      ((buf.drop done).take n).length = ((List.range' (pos + done) n).map stream).length := by
    rw [List.length_take, List.length_drop, List.length_map, List.length_range']
    omega
  have hcopy := Memory.overwrite_between (a := (List.range' pos done).map stream)
    (b := buf.drop (done + n)) hlen
  rw [List.append_assoc, ← hcut, List.length_map, List.length_range', ← List.map_append,
    List.range'_append_1] at hcopy
  rw [hd, hcopy, Nat.add_assoc]

/-- Two bytes at first; then the call would block, the wait for it is interrupted and goes on, and
the other bytes are transferred one by one. -/
def busy : Kernel where
  io i := if i = 1 then .error EWOULDBLOCK else .ok (if i = 0 then 2 else 1)
  select i _ := if i = 0 then .error EINTR else .ok 1
  selectTime _ := 3
  selectTimePos _ := by decide

end Kernel

end Yasio
