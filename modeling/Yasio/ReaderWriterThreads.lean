import Yasio.ReaderWriterBlocks

/-!
# The two threads of the lock-free queue

What the producer knows at each place of its code, and what the consumer knows, with what each of
them may rely on while the other one takes its steps.
-/

namespace Yasio

namespace ReaderWriterQueue

open Function CircularBuffer

variable {α : Type*} {s s' : ReaderWriterQueue α} {l l' : Layout α} {b n size least : ℕ} {x : α}

/-! ## The copies of `front` and `tail` -/

/-- `localFront` is a `front` that the block has had, and counted from it the block is not full. -/
def Block.FrontOlder (block : Block α) (xs flight : List α) : Prop :=
  block.localFront < block.size ∧
    ∃ k, block.front = (block.localFront + k) % block.size ∧
      k + xs.length + flight.length < block.size

/-- `localTail` is a `tail` that the block has had since `front`. -/
def Block.TailOlder (block : Block α) (xs : List α) : Prop :=
  ∃ m ≤ xs.length, block.localTail = (block.front + m) % block.size

theorem Block.FrontOlder.of_eq {block : Block α} {hole : Bool} {xs flight : List α}
    (h : Holds block.size block.front block.tail block.data hole xs flight)
    (heq : block.localFront = block.front) : block.FrontOlder xs flight := by
  have hlt := h.front_lt
  have hlen := h.length_lt
  refine ⟨heq ▸ hlt, 0, ?_, by omega⟩
  rw [heq, Nat.add_zero, Nat.mod_eq_of_lt hlt]

theorem Block.TailOlder.of_eq {block : Block α} {hole : Bool} {xs flight : List α}
    (h : Holds block.size block.front block.tail block.data hole xs flight)
    (heq : block.localTail = block.tail) : block.TailOlder xs :=
  ⟨xs.length, Nat.le_refl _, heq.trans h.tail_eq⟩

/-! ## What each thread knows -/

/-- The producer has found the tail block full, or the consumer has not left it. -/
def TailFull (s : ReaderWriterQueue α) (l : Layout α) : Prop :=
  s.tailBlock ≠ s.frontBlock → (l.items s.tailBlock).length + 1 = (s.block s.tailBlock).size

def ProducerAt (s : ReaderWriterQueue α) (l : Layout α) (c : EnqueueCall α) : Prop :=
  match c.pc with
  | .full b t t' => b = s.tailBlock ∧ t = (s.block b).tail ∧ t' = (t + 1) % (s.block b).size
  | .room b t t' =>
    b = s.tailBlock ∧ t = (s.block b).tail ∧ t' = (t + 1) % (s.block b).size ∧
      t' ≠ (s.block b).localFront
  | .built b t' => b = s.tailBlock ∧ t' = ((s.block b).tail + 1) % (s.block b).size
  | .behind b => b = s.tailBlock ∧ (s.block b).size ≤ c.held + 1 ∧ s.TailFull l
  | .ahead n => l.spare.head? = some n ∧ s.TailFull l
  | .clear n t =>
    l.spare.head? = some n ∧ s.TailFull l ∧ (s.block n).localFront = (s.block n).front ∧
      t = (s.block n).tail
  | .filled n t' =>
    l.spare.head? = some n ∧ s.TailFull l ∧ (s.block n).localFront = (s.block n).front ∧
      t' = ((s.block n).tail + 1) % (s.block n).size
  | .make b => b = s.tailBlock ∧ c.held ∈ s.crowded ∧ s.TailFull l
  | .link b n =>
    b = s.tailBlock ∧ s.TailFull l ∧ (s.block n).localFront = (s.block n).front ∧
      n ∉ l.live ++ l.spare ∧ n < s.made ∧ (s.block n).next = (s.block b).next ∧
      Holds (s.block n).size (s.block n).front (s.block n).tail (s.block n).data false
        [c.element] []
  | .advance n =>
    l.spare.head? = some n ∧ s.TailFull l ∧ (s.block n).localFront = (s.block n).front

structure Producing (s : ReaderWriterQueue α) (l : Layout α) : Prop where
  older : (s.block s.tailBlock).FrontOlder (l.items s.tailBlock) (s.flight s.tailBlock)
  call : ∀ c, s.enqueuing = some c →
    s.enqueued.length ≤ c.held + s.removed.length ∧ s.ProducerAt l c

def ConsumerAt (s : ReaderWriterQueue α) (l : Layout α) (c : DequeueCall α) : Prop :=
  match c.pc with
  | .drained b i => b = s.frontBlock ∧ i = (s.block b).front
  | .compare b => b = s.frontBlock ∧ (b ≠ s.tailBlock ∨ c.enqueued ≤ s.removed.length)
  | .reload => s.frontBlock ≠ s.tailBlock
  | .empty b => b = s.frontBlock ∧ s.frontBlock ≠ s.tailBlock ∧ l.items s.frontBlock = []
  | .next n => (∃ rest, l.live = s.frontBlock :: n :: rest) ∧ l.items s.frontBlock = []
  | .leave n i =>
    (∃ rest, l.live = s.frontBlock :: n :: rest) ∧ l.items s.frontBlock = [] ∧
      i = (s.block n).front ∧ i ≠ (s.block n).localTail ∧ (s.block n).TailOlder (l.items n)
  | .nonEmpty b i =>
    b = s.frontBlock ∧ i = (s.block b).front ∧ i ≠ (s.block b).localTail
  | .taken b i result =>
    b = s.frontBlock ∧ i = (s.block b).front ∧ i ≠ (s.block b).localTail ∧
      result = (l.items b).head? ∧ c.removal ≠ .peek

structure Consuming (s : ReaderWriterQueue α) (l : Layout α) : Prop where
  older : (s.block s.frontBlock).TailOlder (l.items s.frontBlock)
  call : ∀ c, s.dequeuing = some c →
    c.removed = s.removed.length ∧ c.enqueued ≤ s.enqueued.length ∧ s.ConsumerAt l c

/-! ## What each thread relies on -/

/-- What a step of the producer leaves alone. -/
structure ProducerMoves (s s' : ReaderWriterQueue α) (l l' : Layout α) : Prop where
  frontBlock : s'.frontBlock = s.frontBlock
  dequeuing : s'.dequeuing = s.dequeuing
  removed : s'.removed = s.removed
  answers : s'.answers = s.answers
  enqueued : s.enqueued <+: s'.enqueued
  tailBlock : s'.tailBlock = s.tailBlock ∨ s'.tailBlock ∉ l.live
  live : l.live <+: l'.live
  front : ∀ b ∈ l.live, (s'.block b).front = (s.block b).front
  localTail : ∀ b ∈ l.live, (s'.block b).localTail = (s.block b).localTail
  sizeMask : ∀ b ∈ l.live, (s'.block b).sizeMask = (s.block b).sizeMask
  items : ∀ b ∈ l.live, l.items b <+: l'.items b
  items_eq : ∀ b ∈ l.live, b ≠ s.tailBlock → l'.items b = l.items b

/-- What a step of the consumer leaves alone. -/
structure ConsumerMoves (s s' : ReaderWriterQueue α) (l l' : Layout α) : Prop where
  tailBlock : s'.tailBlock = s.tailBlock
  enqueuing : s'.enqueuing = s.enqueuing
  enqueued : s'.enqueued = s.enqueued
  made : s'.made = s.made
  crowded : s'.crowded = s.crowded
  removed : s.removed.length ≤ s'.removed.length
  circle : ∀ b, b ∈ l'.live ++ l'.spare → b ∈ l.live ++ l.spare
  spare : l.spare <+: l'.spare
  tail : ∀ b, (s'.block b).tail = (s.block b).tail
  localFront : ∀ b, (s'.block b).localFront = (s.block b).localFront
  next : ∀ b, (s'.block b).next = (s.block b).next
  sizeMask : ∀ b, (s'.block b).sizeMask = (s.block b).sizeMask
  front : ∀ b ≠ s.frontBlock, (s'.block b).front = (s.block b).front
  data : ∀ b ≠ s.frontBlock, (s'.block b).data = (s.block b).data
  full : s.TailFull l → s'.TailFull l'
  older : ∀ flight, (s.block s.tailBlock).FrontOlder (l.items s.tailBlock) flight →
    (s'.block s.tailBlock).FrontOlder (l'.items s.tailBlock) flight

theorem ProducerMoves.size_eq (h : s.ProducerMoves s' l l') (hb : b ∈ l.live) :
    (s'.block b).size = (s.block b).size := by
  rw [Block.size, Block.size, h.sizeMask b hb]

theorem ConsumerMoves.size_eq (h : s.ConsumerMoves s' l l') (b : ℕ) :
    (s'.block b).size = (s.block b).size := by
  rw [Block.size, Block.size, h.sizeMask b]

theorem head_eq_of_initial {xs ys : List α} (h : xs <+: ys) (hx : xs.head? = some x) :
    ys.head? = some x := by
  obtain ⟨zs, rfl⟩ := h
  rw [List.head?_append, hx]
  rfl

theorem Block.TailOlder.mono {block block' : Block α} {xs ys : List α} (h : block.TailOlder xs)
    (hfront : block'.front = block.front) (htail : block'.localTail = block.localTail)
    (hsize : block'.size = block.size) (hle : xs <+: ys) : block'.TailOlder ys := by
  obtain ⟨m, hm, heq⟩ := h
  exact ⟨m, hm.trans hle.length_le, by rw [hfront, htail, hsize, heq]⟩

/-- The consumer knows what it has known. -/
theorem Consuming.mono (h : s.Consuming l) (hs : Stored size least s l)
    (hm : s.ProducerMoves s' l l') : s'.Consuming l' := by
  have hmem := hs.frontBlock_mem
  have hfront : ∀ b, b = s.frontBlock → (s'.block b).front = (s.block b).front := by
    rintro b rfl
    exact hm.front _ hmem
  have hlocal : ∀ b, b = s.frontBlock → (s'.block b).localTail = (s.block b).localTail := by
    rintro b rfl
    exact hm.localTail _ hmem
  have hne : s.frontBlock ≠ s.tailBlock → s.frontBlock ≠ s'.tailBlock := by
    rintro hne heq
    rcases hm.tailBlock with htail | htail
    · exact hne (heq.trans htail)
    · exact htail (heq ▸ hmem)
  have hnext : ∀ n, (∃ rest, l.live = s.frontBlock :: n :: rest) →
      ∃ rest, l'.live = s.frontBlock :: n :: rest := by
    rintro n ⟨rest, hlive⟩
    obtain ⟨bs, hbs⟩ := hm.live
    exact ⟨rest ++ bs, by rw [← hbs, hlive, List.cons_append, List.cons_append]⟩
  have hnil : s.frontBlock ≠ s.tailBlock → l.items s.frontBlock = [] →
      l'.items s.frontBlock = [] := fun hne hitems =>
    (hm.items_eq _ hmem hne).trans hitems
  have htwo : ∀ n, (∃ rest, l.live = s.frontBlock :: n :: rest) → s.frontBlock ≠ s.tailBlock := by
    rintro n ⟨rest, hlive⟩ heq
    rw [hs.live_eq_of_eq heq] at hlive
    simp at hlive
  constructor
  case older =>
    rw [hm.frontBlock]
    exact h.older.mono (hfront _ rfl) (hlocal _ rfl) (hm.size_eq hmem) (hm.items _ hmem)
  case call =>
    intro c hc
    obtain ⟨hremoved, henqueued, hat⟩ := h.call c (hm.dequeuing ▸ hc)
    refine ⟨hm.removed ▸ hremoved, henqueued.trans hm.enqueued.length_le, ?_⟩
    obtain ⟨removal, enqueued, removed, pc⟩ := c
    unfold ConsumerAt at hat ⊢
    rw [hm.frontBlock]
    cases pc with
    | drained b i => exact ⟨hat.1, hat.2.trans (hfront b hat.1).symm⟩
    | compare b =>
      obtain ⟨rfl, hat⟩ := hat
      exact ⟨rfl, hat.imp hne (fun hle => hm.removed ▸ hle)⟩
    | reload => exact hne hat
    | empty b => exact ⟨hat.1, hne hat.2.1, hnil hat.2.1 hat.2.2⟩
    | next n => exact ⟨hnext n hat.1, hnil (htwo n hat.1) hat.2⟩
    | leave n i =>
      obtain ⟨hlive, hitems, hi, hlocalTail, holder⟩ := hat
      have hn : n ∈ l.live := by
        obtain ⟨rest, hlive⟩ := hlive
        rw [hlive]
        exact List.mem_cons_of_mem _ List.mem_cons_self
      refine ⟨hnext n hlive, hnil (htwo n hlive) hitems, hi.trans (hm.front n hn).symm, ?_, ?_⟩
      · rwa [hm.localTail n hn]
      · exact holder.mono (hm.front n hn) (hm.localTail n hn) (hm.size_eq hn) (hm.items n hn)
    | nonEmpty b i =>
      obtain ⟨hb, hi, hlocalTail⟩ := hat
      exact ⟨hb, hi.trans (hfront b hb).symm, (hlocal b hb).symm ▸ hlocalTail⟩
    | taken b i result =>
      obtain ⟨rfl, hi, hlocalTail, hresult, hpeek⟩ := hat
      refine ⟨rfl, hi.trans (hfront _ rfl).symm, (hlocal _ rfl).symm ▸ hlocalTail, ?_, hpeek⟩
      have hne : l.items s.frontBlock ≠ [] := by
        have hhold := hs.front_holds
        obtain ⟨m, hle, heq⟩ := h.older
        refine hhold.ne_nil_of_older hle ?_
        rw [← heq, ← hi]
        exact hlocalTail.symm
      obtain ⟨y, ys, hys⟩ := List.exists_cons_of_ne_nil hne
      rw [hresult, hys, List.head?_cons]
      exact (head_eq_of_initial (hm.items _ hmem) (by rw [hys, List.head?_cons])).symm

/-- The producer knows what it has known. -/
theorem Producing.mono (h : s.Producing l) (hs : Stored size least s l)
    (hm : s.ConsumerMoves s' l l') : s'.Producing l' := by
  have hflight : ∀ b, s'.flight b = s.flight b := by
    intro b
    rw [flight, flight, hm.enqueuing]
  have hspare : ∀ n, l.spare.head? = some n →
      l'.spare.head? = some n ∧ (s'.block n).front = (s.block n).front := fun n hn =>
    ⟨head_eq_of_initial hm.spare hn, hm.front n (hs.ne_frontBlock_of_spare (List.mem_of_head? hn))⟩
  constructor
  case older =>
    rw [hm.tailBlock, hflight]
    exact hm.older _ h.older
  case call =>
    intro c hc
    obtain ⟨hheld, hat⟩ := h.call c (hm.enqueuing ▸ hc)
    refine ⟨?_, ?_⟩
    · rw [hm.enqueued]
      exact hheld.trans (Nat.add_le_add_left hm.removed _)
    · obtain ⟨element, canAlloc, held, pc⟩ := c
      unfold ProducerAt at hat ⊢
      rw [hm.tailBlock]
      cases pc with
      | full b t t' =>
        dsimp only
        rwa [hm.tail, hm.size_eq]
      | room b t t' =>
        dsimp only
        rwa [hm.tail, hm.size_eq, hm.localFront]
      | built b t' =>
        dsimp only
        rwa [hm.tail, hm.size_eq]
      | behind b =>
        dsimp only
        rw [hm.size_eq]
        exact ⟨hat.1, hat.2.1, hm.full hat.2.2⟩
      | ahead n => exact ⟨(hspare n hat.1).1, hm.full hat.2⟩
      | clear n t =>
        obtain ⟨hn, hfull, hlocal, ht⟩ := hat
        dsimp only
        rw [hm.localFront, (hspare n hn).2, hm.tail]
        exact ⟨(hspare n hn).1, hm.full hfull, hlocal, ht⟩
      | filled n t' =>
        obtain ⟨hn, hfull, hlocal, ht⟩ := hat
        dsimp only
        rw [hm.localFront, (hspare n hn).2, hm.tail, hm.size_eq]
        exact ⟨(hspare n hn).1, hm.full hfull, hlocal, ht⟩
      | make b => exact ⟨hat.1, hm.crowded ▸ hat.2.1, hm.full hat.2.2⟩
      | link b n =>
        obtain ⟨hb, hfull, hlocal, hn, hmade, hnext, hhold⟩ := hat
        have hne : n ≠ s.frontBlock := by
          rintro rfl
          exact hn (Stored.mem_of_live hs.frontBlock_mem)
        dsimp only
        rw [hm.localFront, hm.front n hne, hm.tail, hm.size_eq, hm.data n hne, hm.made, hm.next,
          hm.next]
        exact ⟨hb, hm.full hfull, hlocal, fun hmem => hn (hm.circle n hmem), hmade, hnext, hhold⟩
      | advance n =>
        obtain ⟨hn, hfull, hlocal⟩ := hat
        dsimp only
        rw [hm.localFront, (hspare n hn).2]
        exact ⟨(hspare n hn).1, hm.full hfull, hlocal⟩

end ReaderWriterQueue

end Yasio
