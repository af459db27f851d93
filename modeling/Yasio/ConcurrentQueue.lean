import Yasio.Lib.Machine

/-!
# The event queue

`concurrent_queue<_Ty, true>`: producers emplace under the mutex, and one consumer takes the events
from a second queue, which it swaps with the first when it is empty.  `consume` tests both queues
without the lock, and the callback may call `consume` again.
-/

namespace Yasio

/-- Where a call of `consume` is. -/
inductive ConsumePc (ε : Type*)
  /-- about to test `deal_.empty()` -/
  | entered
  /-- about to test `queue_.empty()` -/
  | drained
  /-- about to lock `mtx_` -/
  | found
  /-- about to swap -/
  | locked
  /-- about to unlock `mtx_` -/
  | swapped
  /-- at the head of the loop -/
  | loop
  /-- an event is out of `deal_` -/
  | popped (e : ε)
  /-- in the callback -/
  | calling

/-- A call of `consume` with its argument, what `count` has become, and how many callbacks it has
started. -/
structure ConsumeCall (ε : Type*) where
  limit : Int
  count : Int
  pc : ConsumePc ε := .entered
  started : ℕ := 0

/-- Who has locked the mutex. -/
inductive QueueHolder (ρ : Type*)
  | producer (p : ρ)
  | consumer
  deriving DecidableEq

/-- The queues and the mutex, the calls of `consume` from the innermost one out, the events in the
order in which they were emplaced and handed to the callback, and the calls that have returned. -/
structure ConcurrentQueue (ε ρ : Type*) where
  queue : List ε := []
  deal : List ε := []
  mtx : Option (QueueHolder ρ) := none
  calls : List (ConsumeCall ε) := []
  emplaced : List ε := []
  handed : List ε := []
  returned : List (ConsumeCall ε) := []

/-- The event that `consume` holds between `pop` and the callback. -/
def ConsumePc.flight {ε : Type*} : ConsumePc ε → List ε
  | .popped e => [e]
  | _ => []

/-- `deal_` was seen empty and is not yet swapped. -/
def ConsumePc.Swaps {ε : Type*} : ConsumePc ε → Prop
  | .drained | .found | .locked => True
  | _ => False

/-- What a call may still start fits its argument. -/
def ConsumeCall.Bounded {ε : Type*} (c : ConsumeCall ε) : Prop :=
  c.started + c.pc.flight.length + c.count.toNat ≤ c.limit.toNat

namespace ConcurrentQueue

variable {ε ρ : Type*}

/-- `count()` -/
def count (s : ConcurrentQueue ε ρ) : ℕ := s.queue.length + s.deal.length

/-- The innermost call of `consume` goes on. -/
def goOn (s : ConcurrentQueue ε ρ) (c : ConsumeCall ε) : ConcurrentQueue ε ρ :=
  { s with calls := c :: s.calls.tail }

/-- The innermost call returns. -/
def leave (s : ConcurrentQueue ε ρ) (c : ConsumeCall ε) : ConcurrentQueue ε ρ :=
  { s with calls := s.calls.tail, returned := s.returned ++ [c] }

/-- The next step of `consume`. -/
def advance (s : ConcurrentQueue ε ρ) (c : ConsumeCall ε) : Option (ConcurrentQueue ε ρ) :=
  match c.pc with
  | .entered => some (s.goOn { c with pc := if s.deal.isEmpty then .drained else .loop })
  | .drained => some (if s.queue.isEmpty then s.leave c else s.goOn { c with pc := .found })
  | .found =>
    if s.mtx.isNone then
      some ({ s with mtx := some .consumer }.goOn { c with pc := .locked })
    else none
  | .locked =>
    some ({ s with deal := s.queue, queue := s.deal }.goOn { c with pc := .swapped })
  | .swapped => some ({ s with mtx := none }.goOn { c with pc := .loop })
  | .loop =>
    match s.deal with
    | [] => some (s.leave { c with count := c.count - 1 })
    | e :: deal =>
      if 0 < c.count then
        some ({ s with deal }.goOn { c with count := c.count - 1, pc := .popped e })
      else some (s.leave { c with count := c.count - 1 })
  | .popped e =>
    some ({ s with handed := s.handed ++ [e] }.goOn
      { c with pc := .calling, started := c.started + 1 })
  | .calling => none

inductive Action (ε ρ : Type*)
  | lock (p : ρ)
  | emplace (p : ρ) (e : ε)
  | unlock (p : ρ)
  /-- a call of `consume`, also from inside the callback -/
  | consume (count : Int)
  | advance
  /-- the callback returns -/
  | ret

/-- A callback runs, or no call of `consume`. -/
def user (s : ConcurrentQueue ε ρ) : Bool :=
  match s.calls with
  | [] => true
  | c :: _ => match c.pc with | .calling => true | _ => false

/-- A step of a producer in `emplace`, or of the consumer. -/
def step [DecidableEq ρ] : Action ε ρ → ConcurrentQueue ε ρ → Option (ConcurrentQueue ε ρ)
  | .lock p, s => if s.mtx = none then some { s with mtx := some (.producer p) } else none
  | .emplace p e, s =>
    if s.mtx = some (.producer p) then
      some { s with queue := s.queue ++ [e], emplaced := s.emplaced ++ [e] }
    else none
  | .unlock p, s => if s.mtx = some (.producer p) then some { s with mtx := none } else none
  | .consume count, s =>
    if s.user then some { s with calls := { limit := count, count } :: s.calls } else none
  | .advance, s => s.calls.head?.bind s.advance
  | .ret, s =>
    s.calls.head?.bind fun c =>
      match c.pc with
      | .calling => some (s.goOn { c with pc := .loop })
      | _ => none

/-- The event between `pop` and the callback. -/
def flight (s : ConcurrentQueue ε ρ) : List ε := s.calls.head?.elim [] fun c => c.pc.flight

/-- The invariant.  The queues hold what was emplaced and not yet handed over, `deal_` the older
events. -/
structure Fifo (s : ConcurrentQueue ε ρ) : Prop where
  content : s.emplaced = s.handed ++ s.flight ++ s.deal ++ s.queue
  outer : ∀ c ∈ s.calls.tail, c.pc = .calling
  swapping : ∀ c ∈ s.calls.head?, c.pc.Swaps → s.deal = []
  bounded : ∀ c ∈ s.calls, c.Bounded
  returned : ∀ c ∈ s.returned, c.started ≤ c.limit.toNat

variable {s t : ConcurrentQueue ε ρ} {c c' : ConsumeCall ε}

theorem flight_of_head (hc : s.calls.head? = some c) : s.flight = c.pc.flight := by
  unfold flight
  rw [hc]
  rfl

theorem Fifo.content_of_head (h : s.Fifo) (hc : s.calls.head? = some c) :
    s.emplaced = s.handed ++ c.pc.flight ++ s.deal ++ s.queue := by
  rw [← flight_of_head hc]
  exact h.content

theorem Fifo.bounded_of_head (h : s.Fifo) (hc : s.calls.head? = some c) : c.Bounded :=
  h.bounded c (List.mem_of_mem_head? hc)

/-- The innermost call has gone on. -/
theorem Fifo.of_goOn (h : s.Fifo) (hcalls : t.calls = c' :: s.calls.tail)
    (hreturned : t.returned = s.returned)
    (hcontent : t.emplaced = t.handed ++ c'.pc.flight ++ t.deal ++ t.queue)
    (hswap : c'.pc.Swaps → t.deal = []) (hbounded : c'.Bounded) : t.Fifo := by
  have hhead : t.calls.head? = some c' := by rw [hcalls]; rfl
  refine ⟨?_, ?_, ?_, ?_, ?_⟩
  · rw [flight_of_head hhead]
    exact hcontent
  · rw [hcalls]
    exact h.outer
  · intro c hc
    obtain rfl : c' = c := Option.some.inj (hhead.symm.trans hc)
    exact hswap
  · intro c hc
    rw [hcalls] at hc
    rcases List.mem_cons.1 hc with rfl | hc
    · exact hbounded
    · exact h.bounded c (List.mem_of_mem_tail hc)
  · rw [hreturned]
    exact h.returned

/-- The call around the one that returns is in its callback. -/
theorem Fifo.leave (h : s.Fifo) (hc : s.calls.head? = some c) (hflight : c.pc.flight = [])
    (hbounded : c'.started ≤ c'.limit.toNat) : (s.leave c').Fifo := by
  have houter : ∀ d, s.calls.tail.head? = some d → d.pc = .calling := fun d hd =>
    h.outer d (List.mem_of_mem_head? hd)
  have hnone : (s.leave c').flight = [] := by
    unfold ConcurrentQueue.leave flight
    cases hd : s.calls.tail.head? with
    | none => rfl
    | some d =>
      have hcalling := houter d hd
      simp [ConsumePc.flight, hcalling]
  refine ⟨?_, ?_, ?_, ?_, ?_⟩
  · rw [hnone, ← hflight]
    exact h.content_of_head hc
  · intro d hd
    exact h.outer d (List.mem_of_mem_tail hd)
  · intro d hd hswaps
    rw [houter d hd] at hswaps
    exact absurd hswaps id
  · intro d hd
    exact h.bounded d (List.mem_of_mem_tail hd)
  · intro d hd
    rcases List.mem_append.1 hd with hd | hd
    · exact h.returned d hd
    · rw [List.mem_singleton.1 hd]
      exact hbounded

theorem Fifo.advance (h : s.Fifo) (hc : s.calls.head? = some c)
    (hstep : s.advance c = some t) : t.Fifo := by
  have hcontent := h.content_of_head hc
  have hbounded := h.bounded_of_head hc
  have hswap : c.pc.Swaps → s.deal = [] := h.swapping c hc
  cases hpc : c.pc <;> simp only [ConcurrentQueue.advance, hpc] at hstep <;>
    simp only [ConsumeCall.Bounded, ConsumePc.flight, List.append_nil, ConsumePc.Swaps,
      forall_true_left, hpc] at hcontent hbounded hswap
  case entered =>
    obtain rfl := Option.some.inj hstep
    cases hdeal : s.deal with
    | nil =>
      refine h.of_goOn rfl rfl ?_ (fun _ => hdeal) hbounded
      simpa [goOn, ConsumePc.flight, hdeal] using hcontent
    | cons e deal =>
      refine h.of_goOn rfl rfl ?_ nofun hbounded
      simpa [goOn, ConsumePc.flight, hdeal] using hcontent
  case drained =>
    obtain rfl := Option.some.inj hstep
    split_ifs
    · exact h.leave hc (by rw [hpc]; rfl) (by omega)
    · refine h.of_goOn rfl rfl ?_ (fun _ => hswap) hbounded
      simpa [goOn, ConsumePc.flight] using hcontent
  case found =>
    split_ifs at hstep
    obtain rfl := Option.some.inj hstep
    refine h.of_goOn rfl rfl ?_ (fun _ => hswap) hbounded
    simpa [goOn, ConsumePc.flight] using hcontent
  -- The deal side is empty, so the swap leaves nothing in the queue.
  case locked =>
    obtain rfl := Option.some.inj hstep
    refine h.of_goOn rfl rfl ?_ nofun hbounded
    simpa [goOn, ConsumePc.flight, hswap] using hcontent
  case swapped =>
    obtain rfl := Option.some.inj hstep
    exact h.of_goOn rfl rfl (by simpa [goOn, ConsumePc.flight] using hcontent) nofun hbounded
  case loop =>
    cases hdeal : s.deal with
    | nil =>
      rw [hdeal] at hstep
      obtain rfl := Option.some.inj hstep
      exact h.leave hc (by rw [hpc]; rfl) (by simp only; omega)
    | cons e deal =>
      rw [hdeal] at hstep
      simp only at hstep
      split_ifs at hstep with hpos
      · obtain rfl := Option.some.inj hstep
        refine h.of_goOn rfl rfl (by simpa [goOn, ConsumePc.flight, hdeal] using hcontent) nofun ?_
        simp only [ConsumeCall.Bounded, ConsumePc.flight, List.length_singleton]
        simp only [List.length_nil] at hbounded
        omega
      · obtain rfl := Option.some.inj hstep
        exact h.leave hc (by rw [hpc]; rfl) (by simp only; omega)
  -- The event in flight is handed over.
  case popped e =>
    obtain rfl := Option.some.inj hstep
    refine h.of_goOn rfl rfl (by simpa [goOn, ConsumePc.flight] using hcontent) nofun ?_
    simp only [ConsumeCall.Bounded, ConsumePc.flight, List.length_nil]
    simp only [List.length_singleton] at hbounded
    omega
  case calling => exact absurd hstep nofun

theorem Fifo.step [DecidableEq ρ] {a : Action ε ρ} (h : s.Fifo) (hstep : step a s = some t) :
    t.Fifo := by
  cases a with
  | lock p =>
    simp only [ConcurrentQueue.step] at hstep
    split_ifs at hstep
    obtain rfl := Option.some.inj hstep
    exact ⟨h.content, h.outer, h.swapping, h.bounded, h.returned⟩
  -- The event joins the end of both the queue and the history.
  | emplace p e =>
    simp only [ConcurrentQueue.step] at hstep
    split_ifs at hstep
    obtain rfl := Option.some.inj hstep
    refine ⟨?_, h.outer, h.swapping, h.bounded, h.returned⟩
    rw [← List.append_assoc, h.content]
    rfl
  | unlock p =>
    simp only [ConcurrentQueue.step] at hstep
    split_ifs at hstep
    obtain rfl := Option.some.inj hstep
    exact ⟨h.content, h.outer, h.swapping, h.bounded, h.returned⟩
  | consume count =>
    simp only [ConcurrentQueue.step] at hstep
    split_ifs at hstep with huser
    obtain rfl := Option.some.inj hstep
    -- A callback may consume in turn: the call below waits in its callback, with no event in hand.
    have hcalling : ∀ c, s.calls.head? = some c → c.pc = .calling := by
      intro c hc
      unfold user at huser
      cases hcalls : s.calls with
      | nil => simp [hcalls] at hc
      | cons d rest =>
        obtain rfl : d = c := by simpa [hcalls] using hc
        rw [hcalls] at huser
        dsimp only at huser
        split at huser
        · assumption
        · exact absurd huser nofun
    have hflight : s.flight = [] := by
      cases hc : s.calls.head? with
      | none => simp [flight, hc]
      | some c => rw [flight_of_head hc, hcalling c hc]; rfl
    refine ⟨?_, ?_, ?_, ?_, h.returned⟩
    · have hcontent := h.content
      rw [hflight] at hcontent
      exact hcontent
    · intro c hc
      cases hcalls : s.calls with
      | nil => simp [hcalls] at hc
      | cons d rest =>
        have hc : c ∈ d :: rest := by simpa [hcalls] using hc
        rcases List.mem_cons.1 hc with rfl | hc
        · exact hcalling c (by rw [hcalls]; rfl)
        · exact h.outer c (by rw [hcalls]; exact hc)
    · intro c hc hswaps
      obtain rfl := Option.some.inj hc
      exact absurd hswaps id
    · intro c hc
      rcases List.mem_cons.1 hc with rfl | hc
      · simp [ConsumeCall.Bounded, ConsumePc.flight]
      · exact h.bounded c hc
  | advance =>
    obtain ⟨c, hc, hstep⟩ := Option.bind_eq_some_iff.1 hstep
    exact h.advance hc hstep
  | ret =>
    obtain ⟨c, hc, hstep⟩ := Option.bind_eq_some_iff.1 hstep
    have hpc : c.pc = .calling := by
      split at hstep
      · assumption
      · exact absurd hstep nofun
    simp only [hpc, Option.some.injEq] at hstep
    subst hstep
    have hcontent := h.content_of_head hc
    have hbounded := h.bounded_of_head hc
    simp only [ConsumeCall.Bounded, hpc] at hcontent hbounded
    exact h.of_goOn rfl rfl hcontent nofun hbounded

theorem fifo_empty : ({} : ConcurrentQueue ε ρ).Fifo := ⟨rfl, nofun, nofun, nofun, nofun⟩

/-- At every moment the events were handed to the callback in the order in which they were emplaced,
none twice and none left out; no call of `consume` starts more callbacks than its argument says;
and between the calls `count()` is the number of events that are still to be handed over. -/
theorem fifo_of_run [DecidableEq ρ] {as : List (Action ε ρ)}
    (hrun : Machine.run step as {} = some s) :
    s.handed <+: s.emplaced ∧
      (∀ c ∈ s.calls ++ s.returned, c.started ≤ c.limit.toNat) ∧
      (s.calls = [] → s.emplaced.length = s.handed.length + s.count) := by
  have h : s.Fifo := Machine.invariant_of_run (fun _ _ _ h hstep => h.step hstep) fifo_empty hrun
  refine ⟨⟨s.flight ++ s.deal ++ s.queue, by rw [h.content]; simp⟩, fun c hc => ?_,
    fun hcalls => ?_⟩
  · rcases List.mem_append.1 hc with hc | hc
    · have hbounded := h.bounded c hc
      unfold ConsumeCall.Bounded at hbounded
      omega
    · exact h.returned c hc
  · have hflight : s.flight = [] := by simp [flight, hcalls]
    rw [h.content, hflight]
    simp only [List.append_nil, List.length_append, count]
    omega

/-- Two producers, and a callback that consumes. -/
theorem fifo_of_run_nested :
    ∃ s : ConcurrentQueue ℕ Bool, Machine.run step
        [.lock true, .emplace true 7, .unlock true, .consume 2, .advance, .advance, .lock false,
          .emplace false 8, .unlock false, .advance, .advance, .advance, .advance, .advance,
          .consume 5, .advance, .advance, .advance, .ret, .advance] {} = some s ∧
      s.handed = [7, 8] ∧ s.handed <+: s.emplaced := by
  obtain ⟨s, hrun, hhanded⟩ := Machine.exists_of_any (step (ε := ℕ) (ρ := Bool))
    [.lock true, .emplace true 7, .unlock true, .consume 2, .advance, .advance, .lock false,
      .emplace false 8, .unlock false, .advance, .advance, .advance, .advance, .advance,
      .consume 5, .advance, .advance, .advance, .ret, .advance] {}
    (fun s => s.handed = [7, 8]) (by decide +kernel)
  exact ⟨s, hrun, hhanded, (fifo_of_run hrun).1⟩

end ConcurrentQueue

end Yasio
