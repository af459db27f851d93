import Yasio.Kcp
import Yasio.Lib.CircularClock
import Yasio.Service.SendQueue

/-!
# The update clock of KCP

`io_transport_kcp::do_write` calls `ikcp_update` when the millisecond clock has reached
`expire_time_`.  `write_cb_` and `handle_input` set `expire_time_` to zero so that the next call of
`do_write` updates.
-/

namespace Yasio

def EMSGSIZE : Int := 90

/-- The other functions of `ikcp.c` that the transport calls. -/
structure IkcpClock (K : Type*) extends Ikcp K where
  send : K → List UInt8 → Int × K
  flush : K → K
  update : K → ℕ → K
  check : K → ℕ → ℕ

/-- An `io_transport_kcp` with its send queue.  `deadline` is what `ikcp_check` last returned, or
`none` once `expire_time_` was set to zero after that. -/
structure KcpLink (K : Type*) where
  transport : KcpTransport K
  sendQueue : SendQueue := {}
  deadline : Option ℕ := none

/-- `current_time_` in milliseconds as an `IUINT32`. -/
def clock (time : ℕ) : ℕ := time % 2 ^ 32

namespace KcpTransport

variable {K : Type*} (k : IkcpClock K)

/-- The `write_cb_` of `io_transport_kcp::set_primitives`. -/
def writeCb (t : KcpTransport K) (data : List UInt8) : KcpTransport K × SendResult :=
  if h : 0 < (k.send t.kcp data).1 then
    ({ t with kcp := k.flush (k.send t.kcp data).2, expireTime := 0 },
      { n := (k.send t.kcp data).1, error := 0, error_ne_zero := fun h' => by omega })
  else
    ({ t with kcp := (k.send t.kcp data).2 },
      { n := (k.send t.kcp data).1, error := EMSGSIZE, error_ne_zero := fun _ => by decide })

/-- `do_write` calls `ikcp_update`. -/
def Updates (t : KcpTransport K) (current : ℕ) : Prop := 0 ≤ toInt32 (current - t.expireTime)

instance (t : KcpTransport K) (current : ℕ) : Decidable (t.Updates current) :=
  inferInstanceAs (Decidable (_ ≤ _))

/-- `ikcp_update` and `ikcp_check`. -/
def update (t : KcpTransport K) (current : ℕ) : KcpTransport K :=
  { t with
    kcp := k.update t.kcp current
    expireTime := k.check (k.update t.kcp current) current }

end KcpTransport

namespace KcpLink

variable {K : Type*} (k : IkcpClock K)

/-- A new transport. -/
def fresh (rx : Rx) (kcp : K) : KcpLink K := { transport := { rx, kcp } }

/-- What `do_write` gives to `write_cb_`: the rest of the first operation. -/
def offered (s : KcpLink K) (isOpen : Bool) : Option (List UInt8) :=
  if isOpen then s.sendQueue.queue.head?.map fun op => op.data.drop op.offset else none

/-- `ikcp_send` takes what `do_write` gives it. -/
def Sends (s : KcpLink K) (isOpen : Bool) : Prop :=
  ∃ data ∈ s.offered isOpen, 0 < (k.send s.transport.kcp data).1

instance (s : KcpLink K) (isOpen : Bool) : Decidable (s.Sends k isOpen) :=
  inferInstanceAs (Decidable (∃ data ∈ _, _))

/-- `io_transport_udp::do_write`; the completion handler queues these writes. -/
def write (s : KcpLink K) (isOpen : Bool) (writes : List (List UInt8)) : KcpLink K :=
  match s.offered isOpen with
  | none => s
  | some data =>
    { transport := (s.transport.writeCb k data).1
      sendQueue := s.sendQueue.doWrite true (s.transport.writeCb k data).2 writes
      deadline := if s.Sends k isOpen then none else s.deadline }

/-- `io_transport_kcp::do_write`. -/
def doWrite (s : KcpLink K) (isOpen : Bool) (writes : List (List UInt8)) (time : ℕ) : KcpLink K :=
  let s := s.write k isOpen writes
  if s.transport.Updates (clock time) then
    let transport := s.transport.update k (clock time)
    { s with transport, deadline := some transport.expireTime }
  else s

/-- `handle_input` as it is called for a transport of a server, with `ikcp_input` alone. -/
def handleInput (s : KcpLink K) (buf : List UInt8) : KcpLink K :=
  { s with
    transport := (s.transport.handleInput k.toIkcp buf 0).1
    deadline := if (k.input s.transport.kcp buf).1 = 0 then none else s.deadline }

/-- `do_read`; what it reads goes through `handle_input`. -/
def doRead (s : KcpLink K) (r : RawRead) : KcpLink K :=
  { s with
    transport := (s.transport.doRead k.toIkcp r).transport
    deadline :=
      if r.data ≠ [] ∧ (k.input s.transport.kcp r.data).1 = 0 then none else s.deadline }

inductive Action
  | send (data : List UInt8)
  | handleInput (buf : List UInt8)
  | doRead (r : RawRead)
  | doWrite (isOpen : Bool) (writes : List (List UInt8)) (time : ℕ)

/-- A step of a user thread, which queues data, or of the service thread. -/
def step (a : Action) (s : KcpLink K) : Option (KcpLink K) :=
  match a with
  | .send data => some { s with sendQueue := s.sendQueue.write data }
  | .handleInput buf => some (s.handleInput k buf)
  | .doRead r => some (s.doRead k r)
  | .doWrite isOpen writes time => some (s.doWrite k isOpen writes time)

/-! ## What the clock promises -/

/-- An update is due: `expire_time_` was set to zero, or the clock has reached the deadline. -/
def Due (deadline : Option ℕ) (current : ℕ) : Prop :=
  ∀ d ∈ deadline, CircularClock.Reached (2 ^ 31) d current

/-- Since `ikcp_check` was last called `expire_time_` was set to zero, at the latest by the write
phase of this `do_write`. -/
def Outstanding (s : KcpLink K) (isOpen : Bool) : Prop := s.deadline = none ∨ s.Sends k isOpen

instance (s : KcpLink K) (isOpen : Bool) : Decidable (s.Outstanding k isOpen) :=
  inferInstanceAs (Decidable (_ ∨ _))

/-- A `do_write` calls `ikcp_update` exactly when an update is due. -/
def Punctual (s : KcpLink K) : Action → Prop
  | .doWrite isOpen writes time =>
    (s.write k isOpen writes).transport.Updates (clock time) ↔
      Due (if s.Outstanding k isOpen then none else s.deadline) (clock time)
  | _ => True

/-- A `do_write` after `expire_time_` was set to zero falls in the first half of the clock. -/
def FirstHalf (s : KcpLink K) : Action → Prop
  | .doWrite isOpen _ time => s.Outstanding k isOpen → time % 2 ^ 32 < 2 ^ 31
  | _ => True

instance (s : KcpLink K) (a : Action) : Decidable (s.FirstHalf k a) := by
  unfold FirstHalf
  split <;> infer_instance

/-- The invariant: `expire_time_` is the deadline, or zero. -/
def Kept (s : KcpLink K) : Prop := s.transport.expireTime = s.deadline.getD 0

variable {k} {s : KcpLink K} {isOpen : Bool}

theorem updates_iff {t : KcpTransport K} {current : ℕ} :
    t.Updates current ↔ CircularClock.Reached (2 ^ 31) t.expireTime current := by
  have hturn : (2 : ℕ) ^ 32 = 2 * 2 ^ 31 := by norm_num
  unfold KcpTransport.Updates toInt32
  rw [hturn, CircularClock.reached_iff_bmod (by norm_num)]

theorem reached_zero_clock {time : ℕ} :
    CircularClock.Reached (2 ^ 31) 0 (clock time) ↔ time % 2 ^ 32 < 2 ^ 31 := by
  rw [CircularClock.reached_zero, clock]
  push_cast
  omega

theorem reached_clock {due time : ℕ} :
    CircularClock.Reached (2 ^ 31) (clock due) (clock time) ↔
      CircularClock.Reached (2 ^ 31) due time := by
  have hcast : ∀ n : ℕ, ((clock n : ℕ) : ℤ) = (n : ℤ) % (2 * (2 ^ 31 : ℕ)) := by
    intro n
    unfold clock
    push_cast
    omega
  rw [hcast, hcast, CircularClock.reached_emod_emod]

theorem outstanding_of_sends (h : s.Sends k isOpen) : s.Outstanding k isOpen := Or.inr h

/-! ## One call -/

theorem write_of_none {writes : List (List UInt8)} (h : s.offered isOpen = none) :
    s.write k isOpen writes = s := by
  unfold write
  rw [h]

theorem not_sends_of_none (h : s.offered isOpen = none) : ¬ s.Sends k isOpen := by
  rintro ⟨data, hdata, -⟩
  rw [h] at hdata
  exact absurd hdata (by simp)

theorem sends_iff {data : List UInt8} (h : s.offered isOpen = some data) :
    s.Sends k isOpen ↔ 0 < (k.send s.transport.kcp data).1 := by
  unfold Sends
  rw [h]
  simp

theorem deadline_write (writes : List (List UInt8)) :
    (s.write k isOpen writes).deadline =
      if s.Outstanding k isOpen then none else s.deadline := by
  cases h : s.offered isOpen with
  | none =>
    rw [write_of_none h]
    split_ifs with hout
    · exact hout.resolve_right (not_sends_of_none h)
    · rfl
  | some data =>
    have hw : (s.write k isOpen writes).deadline =
        if s.Sends k isOpen then none else s.deadline := by
      unfold write
      rw [h]
    rw [hw]
    by_cases hs : s.Sends k isOpen
    · rw [if_pos hs, if_pos (outstanding_of_sends hs)]
    · rw [if_neg hs]
      split_ifs with hout
      · exact hout.resolve_right hs
      · rfl

theorem Kept.write (h : s.Kept) (writes : List (List UInt8)) :
    (s.write k isOpen writes).Kept := by
  cases hd : s.offered isOpen with
  | none => rwa [write_of_none hd]
  | some data =>
    unfold KcpLink.write Kept
    rw [hd]
    simp only [KcpTransport.writeCb, sends_iff hd]
    split_ifs
    · rfl
    · exact h

theorem Kept.doWrite (h : s.Kept) (writes : List (List UInt8)) (time : ℕ) :
    (s.doWrite k isOpen writes time).Kept := by
  unfold KcpLink.doWrite
  dsimp only
  split_ifs
  · rfl
  · exact h.write writes

theorem Kept.handleInput (h : s.Kept) (buf : List UInt8) : (s.handleInput k buf).Kept := by
  unfold KcpLink.handleInput KcpTransport.handleInput Kept
  split_ifs
  · rfl
  · exact h

theorem expireTime_deliver (t : KcpTransport K) (n error : Int) :
    (t.deliver k.toIkcp n error).transport.expireTime = t.expireTime := by
  unfold KcpTransport.deliver
  split_ifs <;> rfl

theorem Kept.doRead (h : s.Kept) (r : RawRead) : (s.doRead k r).Kept := by
  have hpos : 0 < (callRead false r).1 ↔ r.data ≠ [] := callRead_pos_iff
  unfold KcpLink.doRead KcpTransport.doRead Kept
  by_cases hd : r.data = []
  · simp only [hpos, hd, ne_eq, not_true_eq_false, if_false, false_and, expireTime_deliver]
    exact h
  · simp only [hpos, ne_eq, hd, not_false_eq_true, if_true, true_and, expireTime_deliver,
      KcpTransport.handleInput]
    split_ifs
    · rfl
    · exact h

theorem Kept.step {a : Action} {s' : KcpLink K} (h : s.Kept) (hs : step k a s = some s') :
    s'.Kept := by
  cases a with
  | send data =>
    obtain rfl := Option.some.inj hs
    exact h
  | handleInput buf =>
    obtain rfl := Option.some.inj hs
    exact h.handleInput buf
  | doRead r =>
    obtain rfl := Option.some.inj hs
    exact h.doRead r
  | doWrite isOpen writes time =>
    obtain rfl := Option.some.inj hs
    exact h.doWrite writes time

/-- Zero is a point of the clock, and it is ahead of the second half. -/
theorem punctual_iff (h : s.Kept) (a : Action) : s.Punctual k a ↔ s.FirstHalf k a := by
  cases a with
  | send => exact Iff.rfl
  | handleInput => exact Iff.rfl
  | doRead => exact Iff.rfl
  | doWrite isOpen writes time =>
    have hkept : (s.write k isOpen writes).transport.expireTime =
        (if s.Outstanding k isOpen then none else s.deadline).getD 0 := by
      rw [← deadline_write writes]
      exact h.write writes
    rw [Punctual, FirstHalf, updates_iff, hkept]
    by_cases hout : s.Outstanding k isOpen
    · rw [if_pos hout, Option.getD_none, Nat.cast_zero, reached_zero_clock]
      constructor
      · intro h _
        exact h.2 nofun
      · intro h
        exact iff_of_true (h hout) nofun
    · obtain ⟨d, hd⟩ := Option.ne_none_iff_exists'.1 fun hnone => hout (Or.inl hnone)
      rw [if_neg hout, hd, Option.getD_some]
      apply iff_of_true
      · constructor
        · intro h d' hd'
          obtain rfl := Option.some.inj hd'
          exact h
        · intro h
          exact h d rfl
      · intro h
        exact absurd h hout

/-- While no update is outstanding and the clock is within half a turn of the deadline, the update
comes at the deadline, whether the clock has wrapped or not. -/
theorem updates_iff_le (h : s.Kept) {due time : ℕ} (hd : s.deadline = some (clock due))
    (hs : ¬ s.Sends k isOpen) (h1 : due ≤ time + 2 ^ 31) (h2 : time < due + 2 ^ 31)
    (writes : List (List UInt8)) :
    (s.write k isOpen writes).transport.Updates (clock time) ↔ due ≤ time := by
  have hout : ¬ s.Outstanding k isOpen := by
    rintro (hnone | hsends)
    · rw [hd] at hnone
      exact absurd hnone nofun
    · exact hs hsends
  have hkept : (s.write k isOpen writes).transport.expireTime = clock due := by
    have hw : (s.write k isOpen writes).Kept := h.write writes
    rw [Kept, deadline_write, if_neg hout, hd] at hw
    exact hw
  rw [updates_iff, hkept, reached_clock, CircularClock.reached_iff_le (by omega) (by omega)]
  omega

theorem kept_fresh (rx : Rx) (kcp : K) : (fresh rx kcp).Kept := rfl

/-- In a run every `do_write` calls `ikcp_update` exactly when an update is due, if and only if each
one that follows a reset of `expire_time_` falls in the first half of the clock. -/
theorem updates_of_run (k : IkcpClock K) (rx : Rx) (kcp : K) (as : List Action) :
    Machine.Meets (step k) (Punctual k) as (fresh rx kcp) ↔
      Machine.Meets (step k) (FirstHalf k) as (fresh rx kcp) := by
  apply Machine.meets_iff_meets (I := Kept)
  · intro s a h
    exact punctual_iff h a
  · intro s a s' h _ hs
    exact h.step hs
  · exact kept_fresh rx kcp

/-- A control block that answers every call and never asks for an update. -/
def ikcpIdle : IkcpClock Unit where
  input _ _ := (0, ())
  peeksize _ := -1
  recv _ _ := (-1, [], ())
  send _ data := (data.length, ())
  flush := id
  update _ _ := ()
  check _ current := current

/-- On a clock at `2 ^ 31` milliseconds a new transport is not updated. -/
theorem not_updated_at_half :
    ¬ Machine.Meets (step ikcpIdle) (Punctual ikcpIdle) [.doWrite true [] (2 ^ 31)]
      (fresh { buffer := [] } ()) := by
  intro h
  have hfirst := (punctual_iff (kept_fresh _ _) _).1 (Machine.meets_cons.1 h).1
  exact absurd hfirst (by decide)

end KcpLink

end Yasio
