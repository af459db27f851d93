import Mathlib.Data.List.Range
import Yasio.ReaderWriterProducer
import Yasio.ReaderWriterConsumer

/-!
# Runs of the lock-free queue

From the constructor on, whatever the order in which the two threads take their steps: the elements
come out once and in the order in which they were put in, the assertions hold, the consumer finds
nothing only when nothing is there, and the producer is refused or makes a block only when the queue
holds as many elements as it was made for.
-/

namespace Yasio

namespace ReaderWriterQueue

open Function CircularBuffer

variable {α : Type*} {s s' : ReaderWriterQueue α} {l l' : Layout α} {size least maxBlockSize : ℕ}
  {a : Action α}

/-! ## The invariant -/

structure Inv (size least : ℕ) (s : ReaderWriterQueue α) : Prop where
  layout : ∃ l, Stored size least s l ∧ s.Producing l ∧ s.Consuming l
  sound : s.sound = true
  answers : ∀ a ∈ s.answers, s.Answered a
  removed : s.removed = taken s.answers
  crowded : ∀ held ∈ s.crowded, size ≤ held

/-- What an answer says stays true. -/
theorem Answered.mono {a : Answer α} (h : s.Answered a) (henqueued : s.enqueued <+: s'.enqueued) :
    s'.Answered a := by
  refine ⟨h.1, fun x hx => ?_⟩
  obtain ⟨xs, hxs⟩ := henqueued
  have hlt := (List.getElem?_eq_some_iff.1 (h.2 x hx)).1
  rw [← hxs, List.getElem?_append_left hlt]
  exact h.2 x hx

theorem Inv.produced (h : Inv size least s) (hmax : maxBlockSize ≤ 2 ^ 63) {malloc : Bool}
    {c : EnqueueCall α} (henq : s.enqueuing = some c) :
    Inv size least (s.produce maxBlockSize malloc c) := by
  obtain ⟨l, hs, hp, hc⟩ := h.layout
  obtain ⟨⟨l', hs', hp', hmoves⟩, hsound, hcrowded⟩ := hp.step malloc hmax hs henq
  refine ⟨⟨l', hs', hp', hc.mono hs hmoves⟩, hsound.trans h.sound, ?_, ?_, fun held hheld => ?_⟩
  · rw [hmoves.answers]
    exact fun a ha => (h.answers a ha).mono hmoves.enqueued
  · rw [hmoves.removed, hmoves.answers]
    exact h.removed
  · exact (hcrowded held hheld).elim (h.crowded held) id

theorem Inv.consumed (h : Inv size least s) {d : DequeueCall α} (hdeq : s.dequeuing = some d) :
    Inv size least (s.consume d) := by
  obtain ⟨l, hs, hp, hc⟩ := h.layout
  obtain ⟨⟨l', hs', hc', hmoves⟩, hsound, hanswers, hremoved⟩ := hc.step hs hdeq
  have henqueued : s.enqueued <+: (s.consume d).enqueued :=
    hmoves.enqueued.symm ▸ List.prefix_refl _
  refine ⟨⟨l', hs', hp.mono hs hmoves, hc'⟩, hsound.trans h.sound, fun a ha => ?_,
    hremoved h.removed, ?_⟩
  · exact ((hanswers a ha).elim (h.answers a) id).mono henqueued
  · rw [hmoves.crowded]
    exact h.crowded

/-! ## Calls that begin -/

theorem Inv.enqueue (h : Inv size least s) (hnone : s.enqueuing = none) (canAlloc : Bool) (x : α) :
    Inv size least (s.enqueue canAlloc x) := by
  obtain ⟨l, hs, hp, hc⟩ := h.layout
  have hflight : ∀ b, s.flight b = [] := by
    intro b
    rw [flight, hnone]
    rfl
  have hearly : ∀ b, s.early b = [] := by
    intro b
    rw [early, hnone]
    rfl
  have hunlinked : s.unlinked = 0 := by
    rw [unlinked, hnone]
    rfl
  have hlen : s.removed.length ≤ s.enqueued.length := by
    rw [hs.queue, List.length_append]
    exact Nat.le_add_right _ _
  have hsucc := hs.succ_eq (Stored.mem_of_live hs.tailBlock_mem) (s.block s.tailBlock).tail
  let pc : EnqueuePc :=
    if (s.block s.tailBlock).succ (s.block s.tailBlock).tail ≠ (s.block s.tailBlock).localFront then
      .room s.tailBlock (s.block s.tailBlock).tail
        ((s.block s.tailBlock).succ (s.block s.tailBlock).tail)
    else
      .full s.tailBlock (s.block s.tailBlock).tail
        ((s.block s.tailBlock).succ (s.block s.tailBlock).tail)
  let c : EnqueueCall α := ⟨x, canAlloc, s.enqueued.length - s.removed.length, pc⟩
  have hquiet : (s.enqueue canAlloc x).enqueuing = some c ∧ pc.Quiet ∧ s.ProducerAt l c := by
    refine ⟨rfl, ?_⟩
    by_cases hne : (s.block s.tailBlock).succ (s.block s.tailBlock).tail =
        (s.block s.tailBlock).localFront
    · have hpc : pc = .full s.tailBlock (s.block s.tailBlock).tail
          ((s.block s.tailBlock).succ (s.block s.tailBlock).tail) := if_neg (not_not.2 hne)
      refine ⟨hpc ▸ trivial, ?_⟩
      rw [ProducerAt, show c.pc = _ from hpc]
      exact ⟨rfl, rfl, hsucc⟩
    · have hpc : pc = .room s.tailBlock (s.block s.tailBlock).tail
          ((s.block s.tailBlock).succ (s.block s.tailBlock).tail) := if_pos hne
      refine ⟨hpc ▸ trivial, ?_⟩
      rw [ProducerAt, show c.pc = _ from hpc]
      exact ⟨rfl, rfl, hsucc, hne⟩
  obtain ⟨henq, hquiet, hat⟩ := hquiet
  obtain ⟨hflight', hearly', hunlinked'⟩ := nothing_of_quiet henq rfl hquiet
  have halike : s.Alike (s.enqueue canAlloc x) :=
    ⟨fun _ => .refl _, rfl, rfl, rfl, rfl, fun _ => rfl,
      fun b => (hflight' b).trans (hflight b).symm,
      fun b => (hearly' b).trans (hearly b).symm, rfl, rfl, hunlinked'.trans hunlinked.symm⟩
  have hmoves : s.ProducerMoves (s.enqueue canAlloc x) l l :=
    ⟨rfl, rfl, rfl, rfl, List.prefix_refl _, .inl rfl, List.prefix_refl _, fun _ _ => rfl,
      fun _ _ => rfl, fun _ _ => rfl, fun _ _ => List.prefix_refl _, fun _ _ _ => rfl⟩
  refine ⟨⟨l, hs.congr halike, ⟨?_, fun c' hc' => ?_⟩, hc.mono hs hmoves⟩, h.sound, h.answers,
    h.removed, h.crowded⟩
  · change (s.block s.tailBlock).FrontOlder _ _
    rw [hflight', ← hflight s.tailBlock]
    exact hp.older
  · obtain rfl := Option.some.inj (henq.symm.trans hc')
    have hle : s.enqueued.length ≤ s.enqueued.length - s.removed.length + s.removed.length := by
      omega
    exact ⟨hle, hat⟩

theorem Inv.dequeue (h : Inv size least s) (hnone : s.dequeuing = none) (removal : Removal) :
    Inv size least (s.dequeue removal) := by
  obtain ⟨l, hs, hp, hc⟩ := h.layout
  let pc : DequeuePc α :=
    if (s.block s.frontBlock).front ≠ (s.block s.frontBlock).localTail then
      .nonEmpty s.frontBlock (s.block s.frontBlock).front
    else .drained s.frontBlock (s.block s.frontBlock).front
  let d : DequeueCall α := ⟨removal, s.enqueued.length, s.removed.length, pc⟩
  have hat : (∀ b, pc.hole b = false) ∧ s.ConsumerAt l d := by
    by_cases hne : (s.block s.frontBlock).front = (s.block s.frontBlock).localTail
    · have hpc : pc = .drained s.frontBlock (s.block s.frontBlock).front := if_neg (not_not.2 hne)
      refine ⟨fun _ => hpc ▸ rfl, ?_⟩
      rw [ConsumerAt, show d.pc = _ from hpc]
      exact ⟨rfl, rfl⟩
    · have hpc : pc = .nonEmpty s.frontBlock (s.block s.frontBlock).front := if_pos hne
      refine ⟨fun _ => hpc ▸ rfl, ?_⟩
      rw [ConsumerAt, show d.pc = _ from hpc]
      exact ⟨rfl, rfl, hne⟩
  have hhole : ∀ b, s.hole b = false := by
    intro b
    rw [hole, hnone]
    rfl
  have halike : s.Alike (s.dequeue removal) :=
    ⟨fun _ => .refl _, rfl, rfl, rfl, rfl, fun b => (hat.1 b).trans (hhole b).symm, fun _ => rfl,
      fun _ => rfl, rfl, rfl, rfl⟩
  have hmoves : s.ConsumerMoves (s.dequeue removal) l l :=
    ⟨rfl, rfl, rfl, rfl, rfl, Nat.le_refl _, fun _ => id, List.prefix_refl _, fun _ => rfl,
      fun _ => rfl, fun _ => rfl, fun _ => rfl, fun _ _ => rfl, fun _ _ => rfl, id, fun _ => id⟩
  refine ⟨⟨l, hs.congr halike, hp.mono hs hmoves, ⟨hc.older, fun d' hd' => ?_⟩⟩, h.sound, h.answers,
    h.removed, h.crowded⟩
  obtain rfl : d = d' := Option.some.inj hd'
  exact ⟨rfl, Nat.le_refl _, hat.2⟩

theorem Inv.step (h : Inv size least s) (hmax : maxBlockSize ≤ 2 ^ 63)
    (hstep : step maxBlockSize a s = some s') :
    Inv size least s' := by
  cases a with
  | enqueue canAlloc x =>
    rw [ReaderWriterQueue.step, Option.ite_none_right_eq_some] at hstep
    obtain ⟨hnone, hs'⟩ := hstep
    cases hs'
    exact h.enqueue (Option.isNone_iff_eq_none.1 hnone) canAlloc x
  | produce malloc =>
    obtain ⟨c, henq, rfl⟩ := Option.map_eq_some_iff.1 hstep
    exact h.produced hmax henq
  | dequeue removal =>
    rw [ReaderWriterQueue.step, Option.ite_none_right_eq_some] at hstep
    obtain ⟨hnone, hs'⟩ := hstep
    cases hs'
    exact h.dequeue (Option.isNone_iff_eq_none.1 hnone) removal
  | consume =>
    obtain ⟨d, hdeq, rfl⟩ := Option.map_eq_some_iff.1 hstep
    exact h.consumed hdeq

/-! ## The constructor -/

/-- The circle of blocks that the constructor makes. -/
theorem inv_makeBlocks {n k : ℕ} (hn : 0 < n) (hk : k ≤ 63) (hleast : least = 2 ^ k)
    (htwo : 2 ≤ least) (hroomy : size ≤ max 1 (n - 1) * (least - 1)) :
    Inv size least ({ block := makeBlocks least n
                      made := n
                      frontBlock := 0
                      tailBlock := 0
                      largestBlockSize := least } : ReaderWriterQueue α) := by
  let s : ReaderWriterQueue α :=
    { block := makeBlocks least n, made := n, frontBlock := 0, tailBlock := 0
      largestBlockSize := least }
  let l : Layout α := ⟨[0], List.range' 1 (n - 1), fun _ => []⟩
  obtain ⟨m, rfl⟩ : ∃ m, n = m + 1 := ⟨n - 1, by omega⟩
  have hcircle : l.live ++ l.spare = List.range (m + 1) := by
    rw [List.range_eq_range', List.range'_succ]
    rfl
  have hmem : ∀ b, b ∈ l.live ++ l.spare → b < m + 1 := by
    intro b hb
    rwa [hcircle, List.mem_range] at hb
  have hblock : ∀ b < m + 1, s.block b =
      { makeBlock least with next := if b + 1 = m + 1 then 0 else b + 1 } := fun b hb =>
    makeBlocks_eq least hb
  have hsize : ∀ b < m + 1, (s.block b).size = least := by
    intro b hb
    rw [hblock b hb]
    change least - 1 + 1 = least
    omega
  have hstored : Stored size least s l :=
    { nodup := hcircle ▸ List.nodup_range
      next := by
        rw [hcircle, List.isChain_append]
        refine ⟨(List.isChain_range_succ _ m).2 fun b hb => ?_, .singleton 0, fun b hb c hc => ?_⟩
        · rw [hblock b (by omega)]
          exact if_neg (by omega)
        · rw [List.range_succ, List.getLast?_concat] at hb
          obtain rfl := Option.some.inj hb
          obtain rfl := Option.some.inj hc
          rw [hblock m (Nat.lt_succ_self m)]
          exact if_pos rfl
      head := rfl
      last := rfl
      made := hmem
      count := by
        rw [hcircle, List.length_range]
        rfl
      two_le := htwo
      least_le := fun b hb => (hsize b hb).ge
      two_pow := fun b hb => ⟨k, hk, (hsize b hb).trans hleast⟩
      largest_le := Nat.le_refl _
      largest_two_pow := ⟨k, hk, hleast⟩
      roomy := by
        rw [hcircle, List.length_range]
        exact hroomy
      holds := fun b hb => by
        rw [Holding, hsize b (hmem b hb), hblock b (hmem b hb)]
        exact holds_nil (by omega)
      hole := fun b hb => absurd hb Bool.false_ne_true
      early := fun _ _ => rfl
      spare := fun _ _ => rfl
      filled := fun b hb hne => absurd (List.mem_singleton.1 hb) hne
      full := fun b hb hne => absurd (List.mem_singleton.1 hb) hne
      queue := rfl }
  have hzero := hblock 0 (Nat.succ_pos m)
  refine ⟨⟨l, hstored, ⟨?_, fun c hc => by cases hc⟩, ⟨?_, fun d hd => by cases hd⟩⟩, rfl,
    fun a ha => absurd ha List.not_mem_nil, rfl, fun held hheld => absurd hheld List.not_mem_nil⟩
  · exact .of_eq hstored.tail_holds (by rw [hzero]; rfl)
  · exact .of_eq hstored.front_holds (by rw [hzero]; rfl)

/-- The size of a block is a power of two, and the largest one fits `size_t` twice. -/
def BlockSizeOk (maxBlockSize : ℕ) : Prop := ∃ k < 62, maxBlockSize = 2 ^ (k + 1)

theorem BlockSizeOk.le (hmax : BlockSizeOk maxBlockSize) : maxBlockSize ≤ 2 ^ 63 := by
  obtain ⟨k, hk, rfl⟩ := hmax
  exact Nat.pow_le_pow_right (by decide) (by omega)

theorem inv_construct (hmax : BlockSizeOk maxBlockSize) (hpos : 0 < size) (hlt : size < 2 ^ 63) :
    ∃ least, Inv size least (construct maxBlockSize size : ReaderWriterQueue α) := by
  obtain ⟨k, hk, rfl⟩ := hmax
  have hmaxLe : 2 ^ (k + 1) ≤ 2 ^ 62 := Nat.pow_le_pow_right (by decide) (by omega)
  have hmaxGe : 2 ≤ 2 ^ (k + 1) := by
    have := Nat.two_pow_pos k
    rw [Nat.pow_succ]
    omega
  have hceil : ceilToPow2 ((size + 1) % 2 ^ 64) = 2 ^ Nat.clog 2 (size + 1) := by
    rw [Nat.mod_eq_of_lt (by omega), ceilToPow2_eq (Nat.succ_pos size) (by omega)]
  have hle : size + 1 ≤ 2 ^ Nat.clog 2 (size + 1) := Nat.le_pow_clog (by decide) _
  have hclog : Nat.clog 2 (size + 1) ≤ 63 := Nat.clog_le_of_le_pow (by omega)
  unfold construct
  simp only [hceil]
  split_ifs with hgt
  · refine ⟨2 ^ (k + 1), ?_⟩
    generalize hmaxBlockSize : 2 ^ (k + 1) = maxBlockSize at *
    have hcount : (size + maxBlockSize * 2 + (2 ^ 64 - 3)) % 2 ^ 64 / (maxBlockSize - 1) =
        (size - 1) / (maxBlockSize - 1) + 2 := by
      have hsum : (size + maxBlockSize * 2 + (2 ^ 64 - 3)) % 2 ^ 64 =
          size - 1 + 2 * (maxBlockSize - 1) := by omega
      rw [hsum, Nat.add_mul_div_right _ _ (by omega)]
    rw [hcount]
    refine inv_makeBlocks (Nat.succ_pos _) (by omega) hmaxBlockSize.symm hmaxGe ?_
    have hdiv := Nat.lt_div_mul_add (a := size - 1) (b := maxBlockSize - 1) (by omega)
    rw [Nat.add_succ_sub_one, Nat.max_eq_right (Nat.le_add_left 1 _), Nat.succ_mul]
    omega
  · refine ⟨_, inv_makeBlocks Nat.one_pos hclog rfl (by omega) ?_⟩
    simp only [Nat.sub_self, Nat.max_zero, Nat.one_mul]
    omega

theorem inv_of_run (hmax : BlockSizeOk maxBlockSize) (hpos : 0 < size) (hlt : size < 2 ^ 63)
    {as : List (Action α)}
    (hrun : Machine.run (step maxBlockSize) as (construct maxBlockSize size) = some s) :
    ∃ least, Inv size least s := by
  obtain ⟨least, h⟩ := inv_construct (α := α) hmax hpos hlt
  exact ⟨least, Machine.invariant_of_run (fun _ _ _ h hstep => h.step hmax.le hstep) h hrun⟩

/-! ## A run -/

/-- In blocks of two cells: the producer makes a second block while the consumer is at the first
one, which the consumer has emptied when it looks at the second. -/
def relay : List (Action ℕ) :=
  [.enqueue true 7, .produce true, .dequeue .tryDequeue, .produce true, .enqueue true 8, .consume,
    .produce true, .produce true, .produce true, .consume, .produce true, .consume, .dequeue .peek,
    .produce true, .consume, .consume, .consume, .consume, .consume]

theorem run_relay : ∃ s : ReaderWriterQueue ℕ,
    Machine.run (step 2) relay (construct 2 1) = some s ∧
      s.enqueued = [7, 8] ∧ s.enqueuing.isNone ∧ s.dequeuing.isNone ∧
      s.answers.map Answer.found = [some 7, some 8] :=
  Machine.exists_of_any (step 2) relay (construct 2 1) _ (by decide +kernel)

/-! ## What every run comes to -/

/-- The elements are taken out once each and in the order in which they have been put in, whatever
the order of the steps, and the assertions of the queue hold on the way. -/
theorem taken_prefix_of_run (hmax : BlockSizeOk maxBlockSize) (hpos : 0 < size)
    (hlt : size < 2 ^ 63) {as : List (Action α)}
    (hrun : Machine.run (step maxBlockSize) as (construct maxBlockSize size) = some s) :
    taken s.answers <+: s.enqueued ∧ s.sound = true := by
  obtain ⟨least, h⟩ := inv_of_run hmax hpos hlt hrun
  obtain ⟨l, hs, -⟩ := h.layout
  refine ⟨?_, h.sound⟩
  rw [← h.removed, hs.queue]
  exact List.prefix_append _ _

theorem taken_prefix_of_run_relay : ∃ s : ReaderWriterQueue ℕ,
    Machine.run (step 2) relay (construct 2 1) = some s ∧ s.enqueued = [7, 8] ∧
      taken s.answers <+: s.enqueued ∧ s.sound = true := by
  obtain ⟨s, hrun, henqueued, -⟩ := run_relay
  exact ⟨s, hrun, henqueued,
    taken_prefix_of_run ⟨0, by decide, rfl⟩ Nat.one_pos (by decide) hrun⟩

/-- A call of the consumer finds nothing only when all that had been put in when it began had been
taken out, and else it finds the next element to be taken out; what `peek` has shown is what is
taken out next. -/
theorem answered_of_run (hmax : BlockSizeOk maxBlockSize) (hpos : 0 < size) (hlt : size < 2 ^ 63)
    {as : List (Action α)}
    (hrun : Machine.run (step maxBlockSize) as (construct maxBlockSize size) = some s)
    {answer : Answer α} (hanswer : answer ∈ s.answers) :
    (answer.found = none → answer.enqueued ≤ answer.removed) ∧
      ∀ x, answer.found = some x → s.enqueued[answer.removed]? = some x ∧
        ∀ y, (taken s.answers)[answer.removed]? = some y → y = x := by
  obtain ⟨least, h⟩ := inv_of_run hmax hpos hlt hrun
  obtain ⟨l, hs, -⟩ := h.layout
  obtain ⟨hnone, hsome⟩ := h.answers answer hanswer
  refine ⟨hnone, fun x hx => ⟨hsome x hx, fun y hy => ?_⟩⟩
  have hnext := hsome x hx
  rw [← h.removed] at hy
  rw [hs.queue, List.getElem?_append_left (List.getElem?_eq_some_iff.1 hy).1, hy] at hnext
  exact Option.some.inj hnext

theorem answered_of_run_relay : ∃ (s : ReaderWriterQueue ℕ) (answer : Answer ℕ),
    Machine.run (step 2) relay (construct 2 1) = some s ∧ answer ∈ s.answers ∧
      answer.found = some 7 ∧ (answer.found = none → answer.enqueued ≤ answer.removed) ∧
      ∀ x, answer.found = some x → s.enqueued[answer.removed]? = some x ∧
        ∀ y, (taken s.answers)[answer.removed]? = some y → y = x := by
  obtain ⟨s, hrun, -, -, -, hanswers⟩ := run_relay
  obtain ⟨answer, answers, hcons, hfound, -⟩ := List.map_eq_cons_iff.1 hanswers
  have hmem : answer ∈ s.answers := hcons ▸ List.mem_cons_self
  exact ⟨s, answer, hrun, hmem, hfound,
    answered_of_run ⟨0, by decide, rfl⟩ Nat.one_pos (by decide) hrun hmem⟩

/-- A call of the producer that is refused or makes a block began when the queue held as many
elements as it has been constructed for; `enqueue` is refused only when there is no memory. -/
theorem size_le_of_run (hmax : BlockSizeOk maxBlockSize) (hpos : 0 < size) (hlt : size < 2 ^ 63)
    {as : List (Action α)}
    (hrun : Machine.run (step maxBlockSize) as (construct maxBlockSize size) = some s)
    {c : EnqueueCall α} (hcall : s.enqueuing = some c) {malloc : Bool}
    (hstep : step maxBlockSize (.produce malloc) s = some s') :
    (s'.made ≠ s.made → size ≤ c.held) ∧
      (s'.enqueuing = none → s'.enqueued = s.enqueued →
        size ≤ c.held ∧ (c.canAlloc = true → malloc = false)) := by
  obtain ⟨least, h⟩ := inv_of_run hmax hpos hlt hrun
  have h' := h.step hmax.le hstep
  obtain ⟨l, hs, hp, -⟩ := h.layout
  obtain ⟨-, hat⟩ := hp.call c hcall
  rw [step, hcall] at hstep
  obtain rfl := Option.some.inj hstep
  have happend : ∀ xs : List α, xs ++ [c.element] ≠ xs := fun xs heq => by
    have := congrArg List.length heq
    simp at this
  unfold produce at h' ⊢
  unfold ProducerAt at hat
  split at h'
  case h_4 =>
    rename_i b hpc
    dsimp only
    split_ifs at h' ⊢ with hnext halloc
    · exact ⟨fun hmade => absurd rfl hmade, fun hnone => by cases hnone⟩
    · exact ⟨fun hmade => absurd rfl hmade, fun hnone => by cases hnone⟩
    · refine ⟨fun hmade => absurd rfl hmade, fun _ _ => ⟨?_, fun htrue => absurd htrue halloc⟩⟩
      exact h'.crowded c.held (List.mem_append_right _ (List.mem_singleton_self _))
  case h_8 =>
    rename_i b hpc
    rw [hpc] at hat
    have hle := h.crowded c.held hat.2.1
    refine ⟨fun _ => hle, fun hnone _ => ⟨hle, fun _ => ?_⟩⟩
    dsimp only at hnone
    split_ifs at hnone with hmalloc
    · cases hnone
    · simpa using hmalloc
  case h_3 | h_10 =>
    exact ⟨fun hmade => absurd rfl hmade, fun _ heq => absurd heq (happend s.enqueued)⟩
  all_goals exact ⟨fun hmade => absurd rfl hmade, fun hnone => by cases hnone⟩

theorem size_le_of_run_relay : ∃ (s s' : ReaderWriterQueue ℕ) (c : EnqueueCall ℕ),
    s.enqueuing = some c ∧ step 2 (.produce true) s = some s' ∧
      (s'.made ≠ s.made → 1 ≤ c.held) ∧
      (s'.enqueuing = none → s'.enqueued = s.enqueued →
        1 ≤ c.held ∧ (c.canAlloc = true → true = false)) := by
  let as : List (Action ℕ) :=
    [.enqueue true 7, .produce true, .produce true, .enqueue true 8, .produce true, .produce true]
  obtain ⟨s, hrun, hsome⟩ : ∃ s : ReaderWriterQueue ℕ,
      Machine.run (step 2) as (construct 2 1) = some s ∧ s.enqueuing.isSome :=
    Machine.exists_of_any (step 2) as (construct 2 1) _ (by decide +kernel)
  obtain ⟨c, hc⟩ := Option.isSome_iff_exists.1 hsome
  have hstep : step 2 (.produce true) s = some (s.produce 2 true c) := by
    rw [step, hc]
    rfl
  exact ⟨s, _, c, hc, hstep,
    size_le_of_run ⟨0, by decide, rfl⟩ Nat.one_pos (by decide) hrun hc hstep⟩

end ReaderWriterQueue

end Yasio
