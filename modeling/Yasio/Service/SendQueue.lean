import Yasio.Service.Step

/-!
# The send queue of a transport

`io_transport::write`, `do_write`, `call_write` and `complete_op` with the completion handlers.  A
handler runs inside `complete_op`, before the operation is popped, and may call `write` on the same
transport.  `do_write` holds the mutex of the queue from its `peek` to its end, so that the writes
of other threads fall between two of its calls.
-/

namespace Yasio

/-- What a call of `write_cb_` leaves in `n` and `error`.  One that fails sets `error`. -/
structure SendResult where
  n : Int
  error : Int
  error_ne_zero : n < 0 → error ≠ 0

/-- An `io_send_op`, and how many operations were queued before it. -/
structure QueuedOp where
  serial : ℕ
  data : List UInt8
  offset : ℕ := 0
  deriving DecidableEq, Repr

/-- A call of the completion handler of the operation with this number. -/
structure Completion where
  serial : ℕ
  error : Int
  size : ℕ
  deriving DecidableEq, Repr

/-- `send_queue_`; all buffers that were queued, what `write_cb_` took of which operation, and the
calls of the handlers.  `lost` once `do_write` has returned `false`. -/
structure SendQueue where
  queue : List QueuedOp := []
  queued : List (List UInt8) := []
  taken : List (ℕ × List UInt8) := []
  completed : List Completion := []
  lost : Bool := false
  deriving DecidableEq, Repr

namespace SendQueue

variable (q : SendQueue)

/-- `io_service::write` on an open transport. -/
def write (data : List UInt8) : SendQueue :=
  if data = [] then q
  else
    { q with
      queue := q.queue ++ [{ serial := q.queued.length, data }]
      queued := q.queued ++ [data] }

/-- `complete_op`; the handler writes these buffers. -/
def completeOp (op : QueuedOp) (error : Int) (writes : List (List UInt8)) : SendQueue :=
  let q := { q with completed := q.completed ++ [⟨op.serial, error, op.offset⟩] }
  let q := writes.foldl write q
  { q with queue := q.queue.tail }

/-- The operation at the head of the queue after `write_cb_` took `n` bytes of it. -/
def advance (op : QueuedOp) (rest : List QueuedOp) (n : ℕ) : SendQueue :=
  { q with
    queue := { op with offset := op.offset + n } :: rest
    taken := q.taken ++ [(op.serial, (op.data.drop op.offset).take n)] }

/-- `call_write` on the head of the queue, and what it returns.  No primitive takes more than it
was given. -/
def callWrite (udp : Bool) (op : QueuedOp) (rest : List QueuedOp) (r : SendResult)
    (writes : List (List UInt8)) : SendQueue × Int :=
  if 0 < r.n then
    let n := min r.n.toNat (op.data.length - op.offset)
    let q := q.advance op rest n
    if op.offset + n = op.data.length then
      (q.completeOp { op with offset := op.offset + n } 0 writes, n)
    else (q, n)
  else if r.n < 0 then
    if notSendError r.error then (q, 0)
    else if udp then (q.completeOp op r.error writes, 0)
    else (q, r.n)
  else (q, r.n)

/-- `do_write` on an open socket, as far as it concerns the queue. -/
def doWrite (udp : Bool) (r : SendResult) (writes : List (List UInt8)) : SendQueue :=
  match q.queue with
  | [] => q
  | op :: rest =>
    if (q.callWrite udp op rest r writes).2 < 0 then
      { (q.callWrite udp op rest r writes).1 with lost := true }
    else (q.callWrite udp op rest r writes).1

inductive Action
  | write (data : List UInt8)
  | doWrite (r : SendResult) (writes : List (List UInt8))

/-- A step of a user thread or of the service thread on a transport that is not lost. -/
def step (udp : Bool) (a : Action) (q : SendQueue) : Option SendQueue :=
  if q.lost then none
  else
    match a with
    | .write data => some (q.write data)
    | .doWrite r writes => some (q.doWrite udp r writes)

/-- What `write_cb_` took of the operation with this number. -/
def takenOf (n : ℕ) : List UInt8 := (q.taken.filter fun t => t.1 = n).flatMap Prod.snd

/-- What `write_cb_` took of the operation at the head. -/
def started : List UInt8 := q.queue.head?.elim [] fun op => op.data.take op.offset

/-- The invariant.  The operations are completed in the order in which they were queued; the rest of
them are in the queue, and only the first of these has been started. -/
structure Ordered (udp : Bool) (q : SendQueue) : Prop where
  serials : q.completed.map Completion.serial ++ q.queue.map QueuedOp.serial =
    List.range q.queued.length
  data : ∀ op ∈ q.queue, q.queued[op.serial]? = some op.data
  offset_le : ∀ op ∈ q.queue, op.offset ≤ op.data.length
  waiting : ∀ op ∈ q.queue.tail, op.offset = 0
  taken : ∀ op ∈ q.queue, q.takenOf op.serial = op.data.take op.offset
  taken_lt : ∀ t ∈ q.taken, t.1 < q.queued.length
  completed : ∀ c ∈ q.completed, ∃ data, q.queued[c.serial]? = some data ∧
    q.takenOf c.serial = data.take c.size ∧
    (c.error = 0 ∧ c.size = data.length ∨ udp = true ∧ c.error ≠ 0 ∧ c.size < data.length)
  stream : udp = false →
    q.taken.flatMap Prod.snd = (q.queued.take q.completed.length).flatten ++ q.started

/-- No operation of the queue is through. -/
def Unfinished (q : SendQueue) : Prop := ∀ op ∈ q.queue, op.offset < op.data.length

variable {q} {udp : Bool}

theorem takenOf_eq_nil {n : ℕ} (h : ∀ t ∈ q.taken, t.1 < n) : q.takenOf n = [] := by
  unfold takenOf
  rw [List.filter_eq_nil_iff.2, List.flatMap_nil]
  intro t ht
  have := h t ht
  simp only [decide_eq_true_eq]
  omega

theorem takenOf_advance (op : QueuedOp) (rest : List QueuedOp) (n m : ℕ) :
    (q.advance op rest n).takenOf m =
      q.takenOf m ++ if op.serial = m then (op.data.drop op.offset).take n else [] := by
  unfold takenOf advance
  rw [List.filter_append, List.flatMap_append]
  by_cases h : op.serial = m <;> simp [h]

theorem getElem?_queued {n : ℕ} {data : List UInt8} (h : q.queued[n]? = some data)
    (more : List (List UInt8)) : (q.queued ++ more)[n]? = some data := by
  rw [List.getElem?_append_left, h]
  exact (List.getElem?_eq_some_iff.1 h).1

namespace Ordered

variable (h : q.Ordered udp)
include h

theorem serial_lt {op : QueuedOp} (hop : op ∈ q.queue) : op.serial < q.queued.length := by
  apply List.mem_range.1
  rw [← h.serials]
  exact List.mem_append_right _ (List.mem_map_of_mem hop)

/-- The operation at the head is the first that is not completed. -/
theorem serial_head {op : QueuedOp} {rest : List QueuedOp} (hq : q.queue = op :: rest) :
    op.serial = q.completed.length := by
  have hserials := congrArg (fun l => l[q.completed.length]?) h.serials
  have hlt := h.serial_lt (hq ▸ List.mem_cons_self)
  have hlength := congrArg List.length h.serials
  simp only [hq, List.length_append, List.length_map, List.length_cons, List.length_range]
    at hlength
  simpa [hq, List.getElem?_append_right, List.getElem?_range,
    show q.completed.length < q.queued.length by omega] using hserials

theorem serial_ne {op op' : QueuedOp} {rest : List QueuedOp} (hq : q.queue = op :: rest)
    (hop' : op' ∈ rest) : op.serial ≠ op'.serial := by
  have hnodup : (q.completed.map Completion.serial ++ q.queue.map QueuedOp.serial).Nodup :=
    h.serials ▸ List.nodup_range
  rw [hq, List.map_cons] at hnodup
  intro heq
  exact (List.nodup_cons.1 (List.nodup_append.1 hnodup).2.1).1 (heq ▸ List.mem_map_of_mem hop')

theorem serial_ne_completed {op : QueuedOp} {rest : List QueuedOp} (hq : q.queue = op :: rest)
    {c : Completion} (hc : c ∈ q.completed) : op.serial ≠ c.serial := by
  have hnodup : (q.completed.map Completion.serial ++ q.queue.map QueuedOp.serial).Nodup :=
    h.serials ▸ List.nodup_range
  intro heq
  refine (List.nodup_append.1 hnodup).2.2 c.serial (List.mem_map_of_mem hc) op.serial ?_ heq.symm
  exact List.mem_map_of_mem (hq ▸ List.mem_cons_self)

theorem write (data : List UInt8) : (q.write data).Ordered udp := by
  unfold SendQueue.write
  split
  · exact h
  have hlen : q.completed.length ≤ q.queued.length := by
    have := congrArg List.length h.serials
    simp only [List.length_append, List.length_map, List.length_range] at this
    omega
  refine ⟨?_, ?_, ?_, ?_, ?_, ?_, ?_, ?_⟩
  · rw [List.map_append, ← List.append_assoc, h.serials, List.length_append, List.length_singleton,
      List.range_succ]
    rfl
  · intro op hop
    rcases List.mem_append.1 hop with hop | hop
    · exact getElem?_queued (h.data op hop) _
    · rw [List.mem_singleton.1 hop]
      simp
  · intro op hop
    rcases List.mem_append.1 hop with hop | hop
    · exact h.offset_le op hop
    · rw [List.mem_singleton.1 hop]
      exact Nat.zero_le _
  · intro op hop
    cases hq : q.queue with
    | nil => simp [hq] at hop
    | cons first rest =>
      simp only [hq, List.cons_append, List.tail_cons, List.mem_append, List.mem_singleton] at hop
      rcases hop with hop | hop
      · exact h.waiting op (hq ▸ hop)
      · rw [hop]
  · intro op hop
    rcases List.mem_append.1 hop with hop | hop
    · exact h.taken op hop
    · rw [List.mem_singleton.1 hop]
      exact (takenOf_eq_nil h.taken_lt).trans List.take_zero.symm
  · intro t ht
    rw [List.length_append]
    exact Nat.lt_add_right _ (h.taken_lt t ht)
  · intro c hc
    obtain ⟨data', hdata', hrest⟩ := h.completed c hc
    exact ⟨data', getElem?_queued hdata' _, hrest⟩
  · intro hudp
    rw [List.take_append_of_le_length hlen, h.stream hudp]
    unfold started
    cases q.queue <;> simp

theorem foldl_write (writes : List (List UInt8)) :
    (writes.foldl SendQueue.write q).Ordered udp := by
  induction writes generalizing q with
  | nil => exact h
  | cons data writes ih => exact ih (h.write data)

/-- The primitive takes bytes of the operation at the head. -/
theorem advance {op : QueuedOp} {rest : List QueuedOp} (hq : q.queue = op :: rest) {n : ℕ}
    (hn : op.offset + n ≤ op.data.length) : (q.advance op rest n).Ordered udp := by
  have hop : op ∈ q.queue := hq ▸ List.mem_cons_self
  have hserials := h.serials
  rw [hq] at hserials
  refine ⟨hserials, ?_, ?_, ?_, ?_, ?_, ?_, ?_⟩
  · intro op' hop'
    rcases List.mem_cons.1 hop' with rfl | hop'
    · exact h.data op hop
    · exact h.data op' (hq ▸ List.mem_cons_of_mem _ hop')
  · intro op' hop'
    rcases List.mem_cons.1 hop' with rfl | hop'
    · exact hn
    · exact h.offset_le op' (hq ▸ List.mem_cons_of_mem _ hop')
  · intro op' hop'
    exact h.waiting op' (hq ▸ hop')
  · intro op' hop'
    rw [takenOf_advance]
    rcases List.mem_cons.1 hop' with rfl | hop'
    · simp only [↓reduceIte]
      rw [h.taken op hop, List.take_add]
    · rw [if_neg (h.serial_ne hq hop'), List.append_nil]
      exact h.taken op' (hq ▸ List.mem_cons_of_mem _ hop')
  · intro t ht
    rcases List.mem_append.1 ht with ht | ht
    · exact h.taken_lt t ht
    · rw [List.mem_singleton.1 ht]
      exact h.serial_lt hop
  · intro c hc
    obtain ⟨data, hdata, htaken, hrest⟩ := h.completed c hc
    refine ⟨data, hdata, ?_, hrest⟩
    rw [takenOf_advance, if_neg (h.serial_ne_completed hq hc), List.append_nil, htaken]
  · intro hudp
    have hstream := h.stream hudp
    simp only [started, hq, List.head?_cons, Option.elim_some] at hstream
    simp only [SendQueue.advance, started, List.head?_cons, Option.elim_some, List.flatMap_append,
      List.flatMap_singleton, hstream, List.append_assoc, List.take_add]

/-- The operation at the head is completed and popped. -/
theorem pop {op : QueuedOp} {rest : List QueuedOp} (hq : q.queue = op :: rest) {error : Int}
    (hc : error = 0 ∧ op.offset = op.data.length ∨
      udp = true ∧ error ≠ 0 ∧ op.offset < op.data.length) :
    ({ q with
      queue := rest
      completed := q.completed ++ [⟨op.serial, error, op.offset⟩] } : SendQueue).Ordered udp := by
  have hop : op ∈ q.queue := hq ▸ List.mem_cons_self
  have hrest : ∀ op' ∈ rest, op' ∈ q.queue := fun op' h => hq ▸ List.mem_cons_of_mem _ h
  have hwaiting : ∀ op' ∈ rest, op'.offset = 0 := fun op' hop' => h.waiting op' (hq ▸ hop')
  refine ⟨?_, fun op' h' => h.data op' (hrest op' h'), fun op' h' => h.offset_le op' (hrest op' h'),
    fun op' h' => hwaiting op' (List.mem_of_mem_tail h'), fun op' h' => h.taken op' (hrest op' h'),
    h.taken_lt, ?_, ?_⟩
  · have hserials := h.serials
    rw [hq] at hserials
    simpa using hserials
  · intro c hmem
    rcases List.mem_append.1 hmem with hmem | hmem
    · exact h.completed c hmem
    · rw [List.mem_singleton.1 hmem]
      exact ⟨op.data, h.data op hop, h.taken op hop, hc⟩
  · intro hudp
    have hfull : op.offset = op.data.length := by
      rcases hc with hc | hc
      · exact hc.2
      · simp [hudp] at hc
    have hdata := h.data op hop
    rw [h.serial_head hq] at hdata
    have hstarted : SendQueue.started { q with queue := rest } = [] := by
      unfold started
      cases rest with
      | nil => rfl
      | cons op' _ => simp [hwaiting op' List.mem_cons_self]
    have htake : q.queued.take (q.completed.length + 1) =
        q.queued.take q.completed.length ++ [op.data] := by
      rw [List.take_add_one, hdata, Option.toList_some]
    change q.taken.flatMap Prod.snd = _ ++ SendQueue.started { q with queue := rest }
    rw [hstarted, List.length_append, List.length_singleton, htake, h.stream hudp]
    simp [started, hq, hfull]

end Ordered

/-- The writes of the handler are queued behind the rest, as if the operation had been popped
before. -/
theorem foldl_write_tail (writes : List (List UInt8)) (q : SendQueue) (hq : q.queue ≠ []) :
    ({ writes.foldl write q with queue := (writes.foldl write q).queue.tail } : SendQueue) =
      writes.foldl write { q with queue := q.queue.tail } := by
  induction writes generalizing q with
  | nil => rfl
  | cons data writes ih =>
    rw [List.foldl_cons, List.foldl_cons, ih]
    · congr 1
      unfold write
      split
      · rfl
      · simp [List.tail_append_of_ne_nil hq]
    · unfold write
      split
      · exact hq
      · simp

theorem completeOp_eq {op : QueuedOp} (hq : q.queue ≠ []) (error : Int)
    (writes : List (List UInt8)) :
    q.completeOp op error writes =
      writes.foldl write
        { q with
          queue := q.queue.tail
          completed := q.completed ++ [⟨op.serial, error, op.offset⟩] } :=
  foldl_write_tail writes { q with completed := q.completed ++ [⟨op.serial, error, op.offset⟩] } hq

theorem Unfinished.write (h : q.Unfinished) (data : List UInt8) : (q.write data).Unfinished := by
  unfold SendQueue.write
  split
  · exact h
  rename_i hdata
  intro op hop
  rcases List.mem_append.1 hop with hop | hop
  · exact h op hop
  · rw [List.mem_singleton.1 hop]
    exact List.length_pos_iff.2 hdata

theorem Unfinished.foldl_write (h : q.Unfinished) (writes : List (List UInt8)) :
    (writes.foldl SendQueue.write q).Unfinished := by
  induction writes generalizing q with
  | nil => exact h
  | cons data writes ih => exact ih (h.write data)

/-- What holds between two steps. -/
structure Good (udp : Bool) (q : SendQueue) : Prop where
  ordered : q.Ordered udp
  unfinished : q.Unfinished

theorem Good.completeOp {op : QueuedOp} {rest : List QueuedOp} (h : q.Ordered udp)
    (hrest : ∀ op' ∈ rest, op'.offset < op'.data.length) (hq : q.queue = op :: rest) {error : Int}
    (hc : error = 0 ∧ op.offset = op.data.length ∨
      udp = true ∧ error ≠ 0 ∧ op.offset < op.data.length) (writes : List (List UInt8)) :
    (q.completeOp op error writes).Good udp := by
  rw [completeOp_eq (hq ▸ List.cons_ne_nil _ _), hq]
  have hpop : SendQueue.Unfinished
      { q with
        queue := rest
        completed := q.completed ++ [⟨op.serial, error, op.offset⟩] } := hrest
  exact ⟨(h.pop hq hc).foldl_write writes, hpop.foldl_write writes⟩

theorem Good.callWrite {op : QueuedOp} {rest : List QueuedOp} (h : q.Good udp)
    (hq : q.queue = op :: rest) (r : SendResult) (writes : List (List UInt8)) :
    (q.callWrite udp op rest r writes).1.Good udp := by
  have hrest : ∀ op' ∈ rest, op'.offset < op'.data.length :=
    fun op' hop' => h.unfinished op' (hq ▸ List.mem_cons_of_mem _ hop')
  have hlt := h.unfinished op (hq ▸ List.mem_cons_self)
  unfold SendQueue.callWrite
  split
  · have hn : op.offset + min r.n.toNat (op.data.length - op.offset) ≤ op.data.length := by omega
    have hadvance := h.ordered.advance hq hn
    dsimp only
    split
    · rename_i hfull
      exact .completeOp hadvance hrest rfl (.inl ⟨rfl, hfull⟩) writes
    · rename_i hpart
      refine ⟨hadvance, fun op' hop' => ?_⟩
      rcases List.mem_cons.1 hop' with rfl | hop'
      · exact lt_of_le_of_ne hn hpart
      · exact hrest op' hop'
  · split
    · rename_i hfail
      split
      · exact h
      · split
        · rename_i hudp
          exact .completeOp h.ordered hrest hq (.inr ⟨hudp, r.error_ne_zero hfail, hlt⟩) writes
        · exact h
    · exact h

theorem Good.setLost (h : q.Good udp) : ({ q with lost := true } : SendQueue).Good udp :=
  ⟨⟨h.ordered.serials, h.ordered.data, h.ordered.offset_le, h.ordered.waiting, h.ordered.taken,
    h.ordered.taken_lt, h.ordered.completed, h.ordered.stream⟩, h.unfinished⟩

theorem Good.step {a : Action} {q' : SendQueue} (h : q.Good udp) (hstep : step udp a q = some q') :
    q'.Good udp := by
  unfold SendQueue.step at hstep
  split at hstep
  · cases hstep
  cases a with
  | write data =>
    cases hstep
    exact ⟨h.ordered.write data, h.unfinished.write data⟩
  | doWrite r writes =>
    cases hstep
    unfold doWrite
    cases hq : q.queue with
    | nil => exact h
    | cons op rest =>
      dsimp only
      split
      · exact (h.callWrite hq r writes).setLost
      · exact h.callWrite hq r writes

theorem good_empty : ({} : SendQueue).Good udp where
  ordered :=
    ⟨rfl, by simp, by simp, by simp, by simp, by simp, by simp, fun _ => rfl⟩
  unfinished := by simp [Unfinished]

/-- A stream transport sends the buffers in queue order. -/
theorem Good.stream_prefix (h : q.Good udp) (hudp : udp = false) :
    q.taken.flatMap Prod.snd <+: q.queued.flatten := by
  rw [h.ordered.stream hudp]
  have hsplit := congrArg List.flatten (List.take_append_drop q.completed.length q.queued)
  rw [List.flatten_append] at hsplit
  rw [← hsplit]
  apply (List.prefix_append_right_inj _).2
  unfold started
  cases hq : q.queue with
  | nil => exact List.nil_prefix
  | cons op rest =>
    have hdata := h.ordered.data op (hq ▸ List.mem_cons_self)
    rw [h.ordered.serial_head hq] at hdata
    obtain ⟨hlt, hget⟩ := List.getElem?_eq_some_iff.1 hdata
    rw [List.drop_eq_getElem_cons hlt, hget, List.flatten_cons]
    exact (List.take_prefix _ _).trans (List.prefix_append _ _)

/-- The operations that are through are those whose handler is told so. -/
theorem Good.completed_iff (h : q.Good udp) {n : ℕ} {data : List UInt8}
    (hn : q.queued[n]? = some data) : ⟨n, 0, data.length⟩ ∈ q.completed ↔ q.takenOf n = data := by
  constructor
  · intro hmem
    obtain ⟨data', hdata', htaken, -⟩ := h.ordered.completed _ hmem
    have heq : data' = data := Option.some.inj (hdata'.symm.trans hn)
    rw [htaken, heq, List.take_length]
  · intro htaken
    have hlt : n < q.queued.length := (List.getElem?_eq_some_iff.1 hn).1
    have hserial := List.mem_range.2 hlt
    rw [← h.ordered.serials, List.mem_append, List.mem_map, List.mem_map] at hserial
    rcases hserial with ⟨c, hc, hcn⟩ | ⟨op, hop, hopn⟩
    · obtain ⟨data', hdata', htake, hkind⟩ := h.ordered.completed c hc
      rw [hcn] at hdata' htake
      have heq : data' = data := Option.some.inj (hdata'.symm.trans hn)
      have hlength := congrArg List.length (htake.symm.trans htaken)
      rw [heq, List.length_take] at hlength
      rcases hkind with ⟨herror, hsize⟩ | ⟨-, -, hsize⟩
      · rw [← heq, ← hsize, ← hcn, ← herror]
        exact hc
      · rw [heq] at hsize
        omega
    · have hdata := h.ordered.data op hop
      rw [hopn] at hdata
      have heq : op.data = data := Option.some.inj (hdata.symm.trans hn)
      have htake := h.ordered.taken op hop
      have hless := h.unfinished op hop
      rw [hopn, htaken, heq] at htake
      have hlength := congrArg List.length htake
      rw [List.length_take] at hlength
      rw [heq] at hless
      omega

/-! ## The queue in the service -/

/-- The transport `b` of the service has this queue. -/
def Carries (s : Service) (b : Block) (q : SendQueue) : Prop :=
  (s.tx b).sendQueue.map (fun op => (op.data, op.offset)) =
    q.queue.map fun op => (op.data, op.offset)

/-- The result of the primitive as `call_write` sees it. -/
def Gives : RawSend → SendResult → Prop
  | .sent n, r => r.n = n
  | .zero errno, r => r.n = 0 ∧ r.error = errno
  | .fail errno, r => r.n < 0 ∧ r.error = errno

theorem Carries.enqueue {s : Service} {b : Block} (hs : Carries s b q) {data : List UInt8}
    (hdata : data ≠ []) (dest : Option Endpoint) (origin : Option ℕ) :
    Carries (s.enqueue b (s.sendOp b data dest origin) dest) b (q.write data) := by
  have htx : ((s.enqueue b (s.sendOp b data dest origin) dest).tx b).sendQueue =
      (s.tx b).sendQueue ++ [s.sendOp b data dest origin] := by
    simp [Service.enqueue]
  unfold Carries at *
  rw [htx, List.map_append, hs]
  unfold SendQueue.write
  rw [if_neg hdata, List.map_append]
  rfl

theorem tx_afterWrite (s : Service) (b : Block) (pending : List SendOp) (error : Int) :
    ((s.afterWrite b pending error).tx b).sendQueue = pending := by
  unfold Service.afterWrite
  dsimp only
  split <;> simp

theorem callWrite_of_nonneg {op : QueuedOp} {rest : List QueuedOp} {r : SendResult}
    {writes : List (List UInt8)} (hn : 0 ≤ r.n) :
    ¬ (q.callWrite udp op rest r writes).2 < 0 := by
  unfold SendQueue.callWrite
  dsimp only
  split
  · split
    · exact not_lt.2 (Int.natCast_nonneg _)
    · exact not_lt.2 (Int.natCast_nonneg _)
  · rw [if_neg (not_lt.2 hn)]
    exact not_lt.2 hn

/-- What the service does with the queue of a transport is what is done here, when the handler
writes nothing, and it closes the transport when this queue is lost. -/
theorem Carries.doWrite {s : Service} {b : Block} (hs : Carries s b q) (h : q.Unfinished)
    (hlost : q.lost = false) (hopen : s.sock (s.built b).sock ≠ none) {raw : RawSend}
    {r : SendResult} (hr : Gives raw r) :
    let q' := q.doWrite (testbits (s.kind (s.built b).ctx) Ycm.udp) r []
    Carries (s.doWrite b raw).1 b q' ∧ (s.doWrite b raw).2 = !q'.lost := by
  unfold Carries at hs ⊢
  unfold Service.doWrite SendQueue.doWrite
  dsimp only
  rw [if_neg hopen]
  cases hq : q.queue with
  | nil =>
    rw [hq] at hs
    have htx : (s.tx b).sendQueue = [] := by simpa using hs
    rw [htx]
    dsimp only
    rw [tx_afterWrite, hq, hlost]
    exact ⟨rfl, rfl⟩
  | cons op rest =>
    rw [hq] at hs
    cases htx : (s.tx b).sendQueue with
    | nil => simp [htx] at hs
    | cons sop srest =>
      rw [htx] at hs
      obtain ⟨⟨hdata, hoffset⟩, hrest⟩ : (sop.data = op.data ∧ sop.offset = op.offset) ∧
          srest.map (fun op => (op.data, op.offset)) = rest.map fun op => (op.data, op.offset) := by
        simpa using hs
      have hlt := h op (hq ▸ List.mem_cons_self)
      cases raw with
      | sent n =>
        have hn : r.n = n := hr
        dsimp only
        rw [if_neg (callWrite_of_nonneg (by omega))]
        rcases Nat.eq_zero_or_pos n with hzero | hpos
        · simp [Service.callWrite, SendQueue.callWrite, hdata, hoffset, hlt, hn, hzero,
            tx_afterWrite, Service.recordSent, hlost, hq, hrest]
        · by_cases hpart : op.offset + n < op.data.length
          · have hmin : min n (op.data.length - op.offset) = n := by omega
            simp [Service.callWrite, SendQueue.callWrite, hdata, hoffset, hpart, hn, hpos, hmin,
              tx_afterWrite, Service.recordSent, SendQueue.advance, hlost, hrest, hpart.ne]
          · have hfull : op.offset + min n (op.data.length - op.offset) = op.data.length := by omega
            simp [Service.callWrite, SendQueue.callWrite, hdata, hoffset, hpart, hn, hpos, hfull,
              tx_afterWrite, Service.recordSent, SendQueue.advance, completeOp, hlost, hrest]
      | zero errno =>
        obtain ⟨hn, -⟩ : r.n = 0 ∧ r.error = errno := hr
        dsimp only
        rw [if_neg (callWrite_of_nonneg (by omega))]
        simp [Service.callWrite, SendQueue.callWrite, hdata, hoffset, hn, tx_afterWrite,
          Service.recordSent, hlost, hq, hrest]
      | fail errno =>
        obtain ⟨hn, herror⟩ : r.n < 0 ∧ r.error = errno := hr
        have hpos : ¬ 0 < r.n := by omega
        by_cases hretry : notSendError errno
        · simp [Service.callWrite, SendQueue.callWrite, hretry, hpos, hn, herror, tx_afterWrite,
            hlost, hq, hdata, hoffset, hrest, Service.recordSent]
        · cases hudp : testbits (s.kind (s.built b).ctx) Ycm.udp with
          | true =>
            simp [Service.callWrite, SendQueue.callWrite, hretry, hpos, hn, herror, tx_afterWrite,
              completeOp, hlost, hq, hrest, Service.recordSent]
          | false =>
            simp [Service.callWrite, SendQueue.callWrite, hretry, hpos, hn, herror, hq, htx, hdata,
              hoffset, hrest, Service.setIo]

/-- In every interleaving of writes, of calls of `do_write` with any results of the primitive and
of writes by the handlers, the operations are completed in the order in which they were queued and
each once, and those that are left are the queue; the bytes that a stream transport took are a
prefix of the buffers in queue order; the handler of an operation is told success and its size
exactly when all its bytes were taken, and else, for a datagram that is dropped, the error and how
many were. -/
theorem sendQueue_of_run {as : List Action} {q : SendQueue}
    (hrun : Machine.run (step udp) as {} = some q) :
    q.completed.map Completion.serial ++ q.queue.map QueuedOp.serial =
        List.range q.queued.length ∧
      (udp = false → q.taken.flatMap Prod.snd <+: q.queued.flatten) ∧
      (∀ n data, q.queued[n]? = some data →
        (⟨n, 0, data.length⟩ ∈ q.completed ↔ q.takenOf n = data)) ∧
      ∀ c ∈ q.completed,
        c.error = 0 ∧ (q.queued[c.serial]?).map List.length = some c.size ∨
        udp = true ∧ c.error ≠ 0 ∧ c.size = (q.takenOf c.serial).length := by
  have h : q.Good udp :=
    Machine.invariant_of_run (fun q a q' (h : q.Good udp) hstep => h.step hstep) good_empty hrun
  refine ⟨h.ordered.serials, h.stream_prefix, fun n data hn => h.completed_iff hn, ?_⟩
  intro c hc
  obtain ⟨data, hdata, htaken, ⟨herror, hsize⟩ | ⟨hudp, herror, hsize⟩⟩ := h.ordered.completed c hc
  · exact .inl ⟨herror, by rw [hdata, hsize, Option.map_some]⟩
  · refine .inr ⟨hudp, herror, ?_⟩
    rw [htaken, List.length_take]
    omega

/-- Two sends complete the first buffer, whose handler writes another one. -/
theorem sendQueue_of_run_writeInHandler :
    ∃ q, Machine.run (step false)
        [.write [1, 2, 3], .doWrite ⟨2, 0, nofun⟩ [], .write [4], .doWrite ⟨1, 0, nofun⟩ [[5]],
          .doWrite ⟨-1, 11, by decide⟩ []] {} = some q ∧
      q.completed = [⟨0, 0, 3⟩] ∧ q.queued = [[1, 2, 3], [4], [5]] ∧
      q.taken.flatMap Prod.snd <+: q.queued.flatten := by
  obtain ⟨q, hrun, hcompleted, hqueued⟩ := Machine.exists_of_any (step false)
    [.write [1, 2, 3], .doWrite ⟨2, 0, nofun⟩ [], .write [4], .doWrite ⟨1, 0, nofun⟩ [[5]],
      .doWrite ⟨-1, 11, by decide⟩ []] {}
    (fun q => q.completed = [⟨0, 0, 3⟩] ∧ q.queued = [[1, 2, 3], [4], [5]]) (by decide +kernel)
  exact ⟨q, hrun, hcompleted, hqueued, (sendQueue_of_run hrun).2.1 rfl⟩

end SendQueue

end Yasio
