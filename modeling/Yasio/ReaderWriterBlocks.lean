import Mathlib.Data.List.Chain
import Mathlib.Data.List.Nodup
import Yasio.Lib.CircularBuffer
import Yasio.ReaderWriterQueue

/-!
# The circle of blocks

The blocks are linked in a circle.  From `frontBlock` to `tailBlock` they are `live`: what is in the
queue stands in them, block after block.  The `spare` ones behind are empty.  Here is what the steps
do to the circle and to the cells, whatever the other thread is about.
-/

namespace Yasio

namespace ReaderWriterQueue

open Function CircularBuffer

variable {α : Type*} {s s' : ReaderWriterQueue α} {a b n : ℕ} {x : α}

/-- The number of cells. -/
def Block.size (block : Block α) : ℕ := block.sizeMask + 1

/-- A power of two that fits `size_t`. -/
def PowerOfTwo (n : ℕ) : Prop := ∃ k ≤ 63, n = 2 ^ k

theorem Block.and_sizeMask {block : Block α} (h : PowerOfTwo block.size) (i : ℕ) :
    i &&& block.sizeMask = i % block.size := by
  obtain ⟨k, -, hk⟩ := h
  have hmask : block.sizeMask = 2 ^ k - 1 := by
    unfold Block.size at hk
    omega
  rw [hmask, Nat.and_two_pow_sub_one_eq_mod, hk]

theorem Block.succ_eq {block : Block α} (h : PowerOfTwo block.size) (i : ℕ) :
    block.succ i = (i + 1) % block.size := block.and_sizeMask h (i + 1)

/-- The blocks in the order of their links, and the elements whose `tail` has been stored. -/
structure Layout (α : Type*) where
  live : List ℕ
  spare : List ℕ
  items : ℕ → List α

/-- One block holds something else. -/
def Layout.put (l : Layout α) (b : ℕ) (xs : List α) : Layout α :=
  { l with items := update l.items b xs }

@[simp] theorem Layout.put_self (l : Layout α) (b : ℕ) (xs : List α) :
    (l.put b xs).items b = xs := by
  simp [put]

theorem Layout.put_of_ne (l : Layout α) (hne : a ≠ b) (xs : List α) :
    (l.put b xs).items a = l.items a := by
  simp [put, hne]

theorem Layout.put_eq_self (l : Layout α) (b : ℕ) : l.put b (l.items b) = l := by
  rw [Layout.put, update_eq_self]

/-- The consumer has taken the first element out of the block. -/
def DequeuePc.hole : DequeuePc α → ℕ → Bool
  | .taken b _ _, c => b == c
  | _, _ => false

/-- The element that the producer has put into the block before storing its `tail`. -/
def EnqueueCall.flight (c : EnqueueCall α) (b : ℕ) : List α :=
  match c.pc with
  | .built b' _ => if b' = b then [c.element] else []
  | .filled b' _ => if b' = b then [c.element] else []
  | _ => []

/-- The element that stands in a block before it is the tail block. -/
def EnqueueCall.early (c : EnqueueCall α) (b : ℕ) : List α :=
  match c.pc with
  | .advance b' => if b' = b then [c.element] else []
  | _ => []

/-- The block that the producer has made and not yet linked. -/
def EnqueueCall.unlinked (c : EnqueueCall α) : ℕ :=
  match c.pc with
  | .link .. => 1
  | _ => 0

def hole (s : ReaderWriterQueue α) (b : ℕ) : Bool := s.dequeuing.any (·.pc.hole b)

def flight (s : ReaderWriterQueue α) (b : ℕ) : List α := s.enqueuing.elim [] (·.flight b)

def early (s : ReaderWriterQueue α) (b : ℕ) : List α := s.enqueuing.elim [] (·.early b)

def unlinked (s : ReaderWriterQueue α) : ℕ := s.enqueuing.elim 0 (·.unlinked)

theorem flight_of_some {c : EnqueueCall α} (henq : s.enqueuing = some c) (b : ℕ) :
    s.flight b = c.flight b := by
  rw [flight, henq]
  rfl

theorem early_of_some {c : EnqueueCall α} (henq : s.enqueuing = some c) (b : ℕ) :
    s.early b = c.early b := by
  rw [early, henq]
  rfl

theorem unlinked_of_some {c : EnqueueCall α} (henq : s.enqueuing = some c) :
    s.unlinked = c.unlinked := by
  rw [unlinked, henq]
  rfl

/-- The call has put nothing into a cell that is not yet in the queue. -/
def EnqueuePc.Quiet : EnqueuePc → Prop
  | .built .. | .filled .. | .link .. | .advance .. => False
  | _ => True

theorem nothing_of_quiet {c : EnqueueCall α} {pc : EnqueuePc} (henq : s.enqueuing = some c)
    (hpc : c.pc = pc) (hquiet : pc.Quiet) :
    (∀ b, s.flight b = []) ∧ (∀ b, s.early b = []) ∧ s.unlinked = 0 := by
  subst hpc
  refine ⟨?_, ?_, ?_⟩
  · intro b
    rw [flight_of_some henq, EnqueueCall.flight]
    split
    · rename_i heq
      rw [heq] at hquiet
      exact hquiet.elim
    · rename_i heq
      rw [heq] at hquiet
      exact hquiet.elim
    · rfl
  · intro b
    rw [early_of_some henq, EnqueueCall.early]
    split
    · rename_i heq
      rw [heq] at hquiet
      exact hquiet.elim
    · rfl
  · rw [unlinked_of_some henq, EnqueueCall.unlinked]
    split
    · rename_i heq
      rw [heq] at hquiet
      exact hquiet.elim
    · rfl

theorem hole_of_some {c : DequeueCall α} (hdeq : s.dequeuing = some c) (b : ℕ) :
    s.hole b = c.pc.hole b := by
  rw [hole, hdeq]
  rfl

/-- The cells of a block hold what the layout says. -/
def Holding (s : ReaderWriterQueue α) (b : ℕ) (xs : List α) : Prop :=
  Holds (s.block b).size (s.block b).front (s.block b).tail (s.block b).data (s.hole b) xs
    (s.flight b)

/-- The circle of blocks and what stands in them.  A queue that is to hold `size` elements has
blocks of at least `least` cells; only the front block and the tail block of the live ones may have
room. -/
structure Stored (size least : ℕ) (s : ReaderWriterQueue α) (l : Layout α) : Prop where
  nodup : (l.live ++ l.spare).Nodup
  next : (l.live ++ l.spare ++ [s.frontBlock]).IsChain fun a b => (s.block a).next = b
  head : l.live.head? = some s.frontBlock
  last : l.live.getLast? = some s.tailBlock
  made : ∀ b ∈ l.live ++ l.spare, b < s.made
  count : (l.live ++ l.spare).length + s.unlinked = s.made
  two_le : 2 ≤ least
  least_le : ∀ b < s.made, least ≤ (s.block b).size
  two_pow : ∀ b < s.made, PowerOfTwo (s.block b).size
  largest_le : least ≤ s.largestBlockSize
  largest_two_pow : PowerOfTwo s.largestBlockSize
  roomy : size ≤ max 1 ((l.live ++ l.spare).length - 1) * (least - 1)
  holds : ∀ b ∈ l.live ++ l.spare, s.Holding b (l.items b)
  hole : ∀ b, s.hole b = true → b = s.frontBlock
  early : ∀ b ∈ l.live, s.early b = []
  spare : ∀ b ∈ l.spare, l.items b = s.early b
  filled : ∀ b ∈ l.live, b ≠ s.frontBlock → l.items b ≠ []
  full : ∀ b ∈ l.live, b ≠ s.frontBlock → b ≠ s.tailBlock →
    (l.items b).length + 1 = (s.block b).size
  queue : s.enqueued = s.removed ++ l.live.flatMap l.items

namespace Stored

variable {size least : ℕ} {l : Layout α}

theorem exists_cons (h : Stored size least s l) : ∃ rest, l.live = s.frontBlock :: rest :=
  List.head?_eq_some_iff.1 h.head

theorem exists_append (h : Stored size least s l) : ∃ pre, l.live = pre ++ [s.tailBlock] :=
  List.getLast?_eq_some_iff.1 h.last

theorem frontBlock_mem (h : Stored size least s l) : s.frontBlock ∈ l.live :=
  List.mem_of_head? h.head

theorem tailBlock_mem (h : Stored size least s l) : s.tailBlock ∈ l.live :=
  List.mem_of_getLast? h.last

theorem mem_of_live (hb : b ∈ l.live) : b ∈ l.live ++ l.spare := List.mem_append_left _ hb

theorem mem_of_spare (hb : b ∈ l.spare) : b ∈ l.live ++ l.spare := List.mem_append_right _ hb

theorem not_live_of_spare (h : Stored size least s l) (hb : b ∈ l.spare) : b ∉ l.live :=
  fun hlive => (List.nodup_append.1 h.nodup).2.2 b hlive b hb rfl

theorem ne_frontBlock_of_spare (h : Stored size least s l) (hb : b ∈ l.spare) :
    b ≠ s.frontBlock := by
  rintro rfl
  exact h.not_live_of_spare hb h.frontBlock_mem

theorem ne_tailBlock_of_spare (h : Stored size least s l) (hb : b ∈ l.spare) :
    b ≠ s.tailBlock := by
  rintro rfl
  exact h.not_live_of_spare hb h.tailBlock_mem

theorem front_holds (h : Stored size least s l) : s.Holding s.frontBlock (l.items s.frontBlock) :=
  h.holds _ (mem_of_live h.frontBlock_mem)

theorem tail_holds (h : Stored size least s l) : s.Holding s.tailBlock (l.items s.tailBlock) :=
  h.holds _ (mem_of_live h.tailBlock_mem)

theorem succ_eq (h : Stored size least s l) (hb : b ∈ l.live ++ l.spare) (i : ℕ) :
    (s.block b).succ i = (i + 1) % (s.block b).size :=
  Block.succ_eq (h.two_pow b (h.made b hb)) i

/-- One block is live. -/
theorem live_eq_of_eq (h : Stored size least s l) (heq : s.frontBlock = s.tailBlock) :
    l.live = [s.frontBlock] := by
  obtain ⟨rest, hrest⟩ := h.exists_cons
  have hnodup : l.live.Nodup := (List.nodup_append.1 h.nodup).1
  cases rest with
  | nil => exact hrest
  | cons n rest =>
    have hmem : s.tailBlock ∈ n :: rest := by
      have hlast := h.last
      rw [hrest, List.getLast?_cons_cons] at hlast
      exact List.mem_of_getLast? hlast
    rw [hrest, List.nodup_cons, heq] at hnodup
    exact absurd hmem hnodup.1

/-- The block behind the front block when it is not the tail block. -/
theorem live_eq_of_ne (h : Stored size least s l) (hne : s.frontBlock ≠ s.tailBlock) :
    ∃ rest, l.live = s.frontBlock :: (s.block s.frontBlock).next :: rest := by
  obtain ⟨rest, hrest⟩ := h.exists_cons
  cases rest with
  | nil =>
    have hlast := h.last
    rw [hrest, List.getLast?_singleton] at hlast
    exact absurd (Option.some.inj hlast) hne
  | cons n rest =>
    have hnext := h.next
    rw [hrest, List.cons_append, List.cons_append, List.cons_append, List.cons_append,
      List.isChain_cons_cons] at hnext
    exact ⟨rest, by rw [hrest, hnext.1]⟩

/-- The block behind the tail block. -/
theorem next_tailBlock (h : Stored size least s l) :
    (l.spare ++ [s.frontBlock]).head? = some (s.block s.tailBlock).next := by
  have hnext := h.next
  rw [List.append_assoc, List.isChain_append] at hnext
  cases hspare : l.spare ++ [s.frontBlock] with
  | nil => simp at hspare
  | cons n rest =>
    have := hnext.2.2 s.tailBlock (by rw [h.last]; rfl) n (by rw [hspare]; rfl)
    rw [this]
    rfl

theorem spare_eq_nil (h : Stored size least s l)
    (heq : (s.block s.tailBlock).next = s.frontBlock) : l.spare = [] := by
  have hnext := h.next_tailBlock
  cases hspare : l.spare with
  | nil => rfl
  | cons n rest =>
    rw [hspare, List.cons_append, List.head?_cons, heq] at hnext
    have hn : n ∈ l.spare := hspare ▸ List.mem_cons_self
    exact absurd (Option.some.inj hnext) (h.ne_frontBlock_of_spare hn)

theorem spare_head? (h : Stored size least s l)
    (hne : (s.block s.tailBlock).next ≠ s.frontBlock) :
    l.spare.head? = some (s.block s.tailBlock).next := by
  have hnext := h.next_tailBlock
  cases hspare : l.spare with
  | nil =>
    rw [hspare] at hnext
    exact absurd (Option.some.inj hnext).symm hne
  | cons n rest =>
    rw [hspare] at hnext
    exact hnext

end Stored

/-! ## Steps that keep the circle -/

/-- The two threads' own copies of `tail` and `front` aside, the blocks are the same. -/
structure Block.Agrees (block block' : Block α) : Prop where
  front : block.front = block'.front
  tail : block.tail = block'.tail
  next : block.next = block'.next
  data : block.data = block'.data
  sizeMask : block.sizeMask = block'.sizeMask

theorem Block.Agrees.refl (block : Block α) : block.Agrees block := ⟨rfl, rfl, rfl, rfl, rfl⟩

theorem modify_block_self (s : ReaderWriterQueue α) (b : ℕ) (f : Block α → Block α) :
    (s.modify b f).block b = f (s.block b) := update_self ..

theorem modify_block_of_ne (s : ReaderWriterQueue α) (hne : a ≠ b) (f : Block α → Block α) :
    (s.modify b f).block a = s.block a := update_of_ne hne ..

/-- What every block keeps when one is stored to. -/
theorem block_eq_of_update {β : Type*} {g : Block α → β} {block : Block α}
    (hblock : s'.block = update s.block b block) (hg : g block = g (s.block b)) (a : ℕ) :
    g (s'.block a) = g (s.block a) := by
  rw [hblock]
  rcases eq_or_ne a b with rfl | hne
  · rw [update_self, hg]
  · rw [update_of_ne hne]

theorem agrees_modify (s : ReaderWriterQueue α) (b : ℕ) {f : Block α → Block α}
    (hf : (f (s.block b)).Agrees (s.block b)) (c : ℕ) :
    ((s.modify b f).block c).Agrees (s.block c) := by
  rcases eq_or_ne c b with rfl | hne
  · rwa [modify_block_self]
  · rw [modify_block_of_ne s hne]
    exact .refl _

/-- The two states differ in the threads' own copies, in where the calls are and in what is noted of
them. -/
structure Alike (s s' : ReaderWriterQueue α) : Prop where
  block : ∀ b, (s'.block b).Agrees (s.block b)
  made : s'.made = s.made
  frontBlock : s'.frontBlock = s.frontBlock
  tailBlock : s'.tailBlock = s.tailBlock
  largestBlockSize : s'.largestBlockSize = s.largestBlockSize
  hole : ∀ b, s'.hole b = s.hole b
  flight : ∀ b, s'.flight b = s.flight b
  early : ∀ b, s'.early b = s.early b
  enqueued : s'.enqueued = s.enqueued
  removed : s'.removed = s.removed
  unlinked : s'.unlinked = s.unlinked

/-- The last element of a chain need not be linked to another one. -/
theorem isChain_imp {ι : Type*} {R R' : ι → ι → Prop} {l : List ι} {i : ι}
    (h : (l ++ [i]).IsChain R) (himp : ∀ j ∈ l, ∀ k, R j k → R' j k) : (l ++ [i]).IsChain R' := by
  induction l with
  | nil => exact .singleton i
  | cons j l ih =>
    have himp' : ∀ j ∈ l, ∀ k, R j k → R' j k := fun k hk => himp k (List.mem_cons_of_mem j hk)
    cases l with
    | nil =>
      exact List.isChain_cons_cons.2
        ⟨himp j List.mem_cons_self i (List.isChain_cons_cons.1 h).1, .singleton i⟩
    | cons k l =>
      have h := List.isChain_cons_cons.1 h
      exact List.isChain_cons_cons.2 ⟨himp j List.mem_cons_self k h.1, ih h.2 himp'⟩

/-- One block changes, and what is under way in it. -/
structure Changes (s s' : ReaderWriterQueue α) (b : ℕ) (block' : Block α) : Prop where
  block : s'.block = update s.block b block'
  next : block'.next = (s.block b).next
  sizeMask : block'.sizeMask = (s.block b).sizeMask
  made : s'.made = s.made
  frontBlock : s'.frontBlock = s.frontBlock
  tailBlock : s'.tailBlock = s.tailBlock
  largestBlockSize : s'.largestBlockSize = s.largestBlockSize
  hole : ∀ c ≠ b, s'.hole c = s.hole c
  hole_imp : s'.hole b = true → b = s.frontBlock
  flight : ∀ c ≠ b, s'.flight c = s.flight c
  early : ∀ c ≠ b, s'.early c = s.early c
  unlinked : s'.unlinked = s.unlinked

namespace Changes

variable {block : Block α}

theorem block_self (hs : s.Changes s' b block) : s'.block b = block := by
  rw [hs.block, update_self]

theorem block_of_ne (hs : s.Changes s' b block) (hne : a ≠ b) : s'.block a = s.block a := by
  rw [hs.block, update_of_ne hne]

theorem size_eq (hs : s.Changes s' b block) (a : ℕ) : (s'.block a).size = (s.block a).size :=
  block_eq_of_update (g := Block.size) hs.block (congrArg (· + 1) hs.sizeMask) a

theorem next_eq (hs : s.Changes s' b block) (a : ℕ) : (s'.block a).next = (s.block a).next :=
  block_eq_of_update (g := Block.next) hs.block hs.next a

end Changes

theorem Block.Agrees.size {block block' : Block α} (h : block.Agrees block') :
    block.size = block'.size := by
  rw [Block.size, Block.size, h.sizeMask]

namespace Stored

variable {size least : ℕ} {l : Layout α}

theorem congr (h : Stored size least s l) (hs : s.Alike s') : Stored size least s' l where
  nodup := h.nodup
  next := by
    have hnext : (fun a b => (s'.block a).next = b) = fun a b => (s.block a).next = b := by
      funext a b
      rw [(hs.block a).next]
    rw [hnext, hs.frontBlock]
    exact h.next
  head := hs.frontBlock ▸ h.head
  last := hs.tailBlock ▸ h.last
  made := hs.made ▸ h.made
  count := by
    rw [hs.unlinked, hs.made]
    exact h.count
  two_le := h.two_le
  least_le b hb := (hs.block b).size ▸ h.least_le b (hs.made ▸ hb)
  two_pow b hb := (hs.block b).size ▸ h.two_pow b (hs.made ▸ hb)
  largest_le := hs.largestBlockSize ▸ h.largest_le
  largest_two_pow := hs.largestBlockSize ▸ h.largest_two_pow
  roomy := h.roomy
  holds b hb := by
    have hb := h.holds b hb
    rw [Holding] at hb ⊢
    rwa [(hs.block b).size, (hs.block b).front, (hs.block b).tail, (hs.block b).data, hs.hole,
      hs.flight]
  hole b hb := (h.hole b (hs.hole b ▸ hb)).trans hs.frontBlock.symm
  early b hb := (hs.early b).trans (h.early b hb)
  spare b hb := (h.spare b hb).trans (hs.early b).symm
  filled b hb hne := h.filled b hb (hs.frontBlock ▸ hne)
  full b hb hne hne' :=
    (h.full b hb (hs.frontBlock ▸ hne) (hs.tailBlock ▸ hne')).trans (hs.block b).size.symm
  queue := by
    rw [hs.enqueued, hs.removed]
    exact h.queue

/-- One block and what it holds changes. -/
theorem change (h : Stored size least s l) {block : Block α} (hs : s.Changes s' b block)
    (xs : List α)
    (hb : Holds block.size block.front block.tail block.data (s'.hole b) xs (s'.flight b))
    (hlive : b ∈ l.live → s'.early b = [] ∧ (b ≠ s.frontBlock → xs ≠ []) ∧
      (b ≠ s.frontBlock → b ≠ s.tailBlock → xs.length + 1 = (s.block b).size))
    (hspare : b ∈ l.spare → xs = s'.early b)
    (hqueue : s'.enqueued = s'.removed ++ l.live.flatMap (l.put b xs).items) :
    Stored size least s' (l.put b xs) where
  nodup := h.nodup
  next := by
    have hnext : (fun a b => (s'.block a).next = b) = fun a b => (s.block a).next = b := by
      funext c d
      rw [hs.next_eq]
    rw [hnext, hs.frontBlock]
    exact h.next
  head := hs.frontBlock ▸ h.head
  last := hs.tailBlock ▸ h.last
  made := hs.made ▸ h.made
  count := by
    rw [hs.unlinked, hs.made]
    exact h.count
  two_le := h.two_le
  least_le c hc := hs.size_eq c ▸ h.least_le c (hs.made ▸ hc)
  two_pow c hc := hs.size_eq c ▸ h.two_pow c (hs.made ▸ hc)
  largest_le := hs.largestBlockSize ▸ h.largest_le
  largest_two_pow := hs.largestBlockSize ▸ h.largest_two_pow
  roomy := h.roomy
  holds c hc := by
    rcases eq_or_ne c b with rfl | hne
    · rwa [Layout.put_self, Holding, hs.block_self]
    · have hc := h.holds c hc
      rw [Holding] at hc ⊢
      rwa [hs.block_of_ne hne, hs.hole c hne, hs.flight c hne, l.put_of_ne hne]
  hole c hc := by
    rw [hs.frontBlock]
    rcases eq_or_ne c b with rfl | hne
    · exact hs.hole_imp hc
    · exact h.hole c (hs.hole c hne ▸ hc)
  early c hc := by
    rcases eq_or_ne c b with rfl | hne
    · exact (hlive hc).1
    · exact (hs.early c hne).trans (h.early c hc)
  spare c hc := by
    rcases eq_or_ne c b with rfl | hne
    · rw [Layout.put_self]
      exact hspare hc
    · rw [l.put_of_ne hne, hs.early c hne]
      exact h.spare c hc
  filled c hc hcf := by
    rcases eq_or_ne c b with rfl | hne
    · rw [Layout.put_self]
      exact (hlive hc).2.1 (hs.frontBlock ▸ hcf)
    · rw [l.put_of_ne hne]
      exact h.filled c hc (hs.frontBlock ▸ hcf)
  full c hc hcf hct := by
    rw [hs.size_eq c]
    rcases eq_or_ne c b with rfl | hne
    · rw [Layout.put_self]
      exact (hlive hc).2.2 (hs.frontBlock ▸ hcf) (hs.tailBlock ▸ hct)
    · rw [l.put_of_ne hne]
      exact h.full c hc (hs.frontBlock ▸ hcf) (hs.tailBlock ▸ hct)
  queue := hqueue

/-! ## The steps of the producer -/

/-- The element is put into a block, which its `tail` does not show yet. -/
theorem constructed (h : Stored size least s l) (hb : b ∈ l.live ++ l.spare)
    (hflight : ∀ d, s.flight d = []) (hroom : (l.items b).length + 1 < (s.block b).size)
    {c : EnqueueCall α} {pc : EnqueuePc}
    (hflight' : ∀ d, EnqueueCall.flight { c with pc } d = if b = d then [c.element] else [])
    (hearly : ∀ d, EnqueueCall.early { c with pc } d = s.early d)
    (hunlinked : EnqueueCall.unlinked { c with pc } = s.unlinked) :
    Stored size least ((s.constructAt b (s.block b).tail c.element).enqueueAt c pc) l := by
  have hhold := h.holds b hb
  rw [Holding, hflight] at hhold
  have hs : s.Changes ((s.constructAt b (s.block b).tail c.element).enqueueAt c pc) b
      { s.block b with data := update (s.block b).data (s.block b).tail (some c.element) } :=
    { block := rfl, next := rfl, sizeMask := rfl, made := rfl, frontBlock := rfl, tailBlock := rfl,
      largestBlockSize := rfl, hole := fun _ _ => rfl, hole_imp := h.hole _
      flight := fun d hd => (hflight' d).trans ((if_neg hd.symm).trans (hflight d).symm)
      early := fun d _ => hearly d, unlinked := hunlinked }
  have h' := h.change hs (l.items b)
    (by
      change Holds _ _ _ _ _ _ (EnqueueCall.flight { c with pc } b)
      rw [hflight', if_pos rfl]
      exact hhold.construct hroom c.element)
    (fun hlive => ⟨(hearly b).trans (h.early b hlive), h.filled b hlive, h.full b hlive⟩)
    (fun hspare => (h.spare b hspare).trans (hearly b).symm)
    (by rw [l.put_eq_self]; exact h.queue)
  rwa [l.put_eq_self] at h'

variable {c : EnqueueCall α} {t : ℕ}

theorem flatMap_put_append {pre : List ℕ} (hnodup : (pre ++ [b]).Nodup) (xs : List α) :
    (pre ++ [b]).flatMap (l.put b xs).items = pre.flatMap l.items ++ xs := by
  have hpre : ∀ a ∈ pre, (l.put b xs).items a = l.items a := by
    rintro a ha
    refine l.put_of_ne ?_ xs
    rintro rfl
    exact (List.nodup_append.1 hnodup).2.2 a ha a (List.mem_singleton_self a) rfl
  rw [List.flatMap_append, List.flatMap_congr hpre, List.flatMap_singleton, Layout.put_self]

/-- The `tail` of the tail block is stored. -/
theorem published (h : Stored size least s l) (henq : s.enqueuing = some c)
    (hpc : c.pc = .built s.tailBlock t)
    (ht : t = ((s.block s.tailBlock).tail + 1) % (s.block s.tailBlock).size) :
    Stored size least ((s.modify s.tailBlock ({ · with tail := t })).enqueueTrue c)
      (l.put s.tailBlock (l.items s.tailBlock ++ [c.element])) := by
  have hflight : ∀ d, s.flight d = if s.tailBlock = d then [c.element] else [] := by
    intro d
    rw [flight_of_some henq, EnqueueCall.flight, hpc]
  have hearly : ∀ d, s.early d = [] := by
    intro d
    rw [early_of_some henq, EnqueueCall.early, hpc]
  have hhold := h.tail_holds
  rw [Holding, hflight, if_pos rfl] at hhold
  have hs : s.Changes ((s.modify s.tailBlock ({ · with tail := t })).enqueueTrue c) s.tailBlock
      { s.block s.tailBlock with tail := t } :=
    { block := rfl, next := rfl, sizeMask := rfl, made := rfl, frontBlock := rfl, tailBlock := rfl,
      largestBlockSize := rfl, hole := fun _ _ => rfl, hole_imp := h.hole _
      flight := fun d hd => ((hflight d).trans (if_neg hd.symm)).symm
      early := fun d _ => (hearly d).symm
      unlinked := by
        rw [unlinked_of_some henq, EnqueueCall.unlinked, hpc]
        rfl }
  obtain ⟨pre, hpre⟩ := h.exists_append
  refine h.change hs _ (by rw [ht]; exact hhold.publish) (fun _ => ⟨rfl, fun _ => by simp, ?_⟩)
    ?_ ?_
  · exact fun _ hne => absurd rfl hne
  · exact fun hspare => absurd rfl (h.ne_tailBlock_of_spare hspare)
  · have hnodup := (List.nodup_append.1 h.nodup).1
    have hqueue := h.queue
    rw [hpre] at hnodup hqueue ⊢
    rw [flatMap_put_append hnodup]
    change s.enqueued ++ _ = s.removed ++ _
    rw [hqueue, List.flatMap_append, List.flatMap_singleton]
    simp only [List.append_assoc]

theorem flatMap_put_of_not_mem {bs : List ℕ} (hb : b ∉ bs) (xs : List α) :
    bs.flatMap (l.put b xs).items = bs.flatMap l.items := by
  refine List.flatMap_congr fun a ha => l.put_of_ne ?_ xs
  rintro rfl
  exact hb ha

/-- The `tail` of the block behind the tail block is stored. -/
theorem stocked (h : Stored size least s l) (henq : s.enqueuing = some c) (hb : b ∈ l.spare)
    (hpc : c.pc = .filled b t) (ht : t = ((s.block b).tail + 1) % (s.block b).size) :
    Stored size least ((s.modify b ({ · with tail := t })).enqueueAt c (.advance b))
      (l.put b [c.element]) := by
  have hflight : ∀ d, s.flight d = if b = d then [c.element] else [] := by
    intro d
    rw [flight_of_some henq, EnqueueCall.flight, hpc]
  have hearly : ∀ d, s.early d = [] := by
    intro d
    rw [early_of_some henq, EnqueueCall.early, hpc]
  have hhold := h.holds b (mem_of_spare hb)
  rw [Holding, hflight, if_pos rfl, h.spare b hb, hearly] at hhold
  have hs : s.Changes ((s.modify b ({ · with tail := t })).enqueueAt c (.advance b)) b
      { s.block b with tail := t } :=
    { block := rfl, next := rfl, sizeMask := rfl, made := rfl, frontBlock := rfl, tailBlock := rfl,
      largestBlockSize := rfl, hole := fun _ _ => rfl, hole_imp := h.hole _
      flight := fun d hd => ((hflight d).trans (if_neg hd.symm)).symm
      early := fun d hd => (if_neg hd.symm).trans (hearly d).symm
      unlinked := by
        rw [unlinked_of_some henq, EnqueueCall.unlinked, hpc]
        rfl }
  refine h.change hs _ (by rw [ht]; exact hhold.publish) ?_ (fun _ => (if_pos rfl).symm) ?_
  · exact fun hlive => absurd hlive (h.not_live_of_spare hb)
  · rw [flatMap_put_of_not_mem (h.not_live_of_spare hb)]
    exact h.queue

/-- A block is made, which is not yet linked. -/
theorem blockMade (h : Stored size least s l) (henq : s.enqueuing = some c) (hpc : c.pc = .make b)
    {block : Block α} (hle : least ≤ block.size) (hpow : PowerOfTwo block.size) :
    Stored size least
      ({ s with
        block := update s.block s.made block
        made := s.made + 1
        largestBlockSize := block.size }.enqueueAt c (.link b s.made)) l := by
  obtain ⟨hflight, hearly, hunlinked⟩ := nothing_of_quiet henq hpc trivial
  have hold : ∀ d ∈ l.live ++ l.spare, update s.block s.made block d = s.block d := fun d hd =>
    update_of_ne (Nat.ne_of_lt (h.made d hd)) block s.block
  have hsizes : ∀ P : ℕ → Prop, P block.size → (∀ d < s.made, P (s.block d).size) →
      ∀ d < s.made + 1, P (update s.block s.made block d).size := by
    intro P hnew hP d hd
    rcases Nat.lt_succ_iff_lt_or_eq.1 hd with hlt | rfl
    · rw [update_of_ne (Nat.ne_of_lt hlt)]
      exact hP d hlt
    · rwa [update_self]
  exact
    { h with
      next := by
        refine isChain_imp h.next fun a ha d had => ?_
        rw [← had]
        exact congrArg Block.next (hold a ha)
      made := fun d hd => Nat.lt_succ_of_lt (h.made d hd)
      count := by
        have hcount := h.count
        rw [hunlinked] at hcount
        exact congrArg (· + 1) hcount
      least_le := hsizes (least ≤ ·) hle h.least_le
      two_pow := hsizes PowerOfTwo hpow h.two_pow
      largest_le := hle
      largest_two_pow := hpow
      holds := fun d hd => by
        have hhold := h.holds d hd
        rw [Holding, hflight] at hhold
        let block' := update s.block s.made block d
        change Holds block'.size block'.front block'.tail block'.data (s.hole d) (l.items d) []
        rwa [show block' = s.block d from hold d hd]
      early := fun _ _ => rfl
      spare := fun d hd => (h.spare d hd).trans (hearly d)
      full := fun d hd hf ht => by
        change _ = (update s.block s.made block d).size
        rw [hold d (mem_of_live hd)]
        exact h.full d hd hf ht }

/-- The new block is linked behind the tail block. -/
theorem linked (h : Stored size least s l) (henq : s.enqueuing = some c)
    (hpc : c.pc = .link s.tailBlock n) (hn : n ∉ l.live ++ l.spare) (hmade : n < s.made)
    (hnext : (s.block n).next = (s.block s.tailBlock).next)
    (hhold : Holds (s.block n).size (s.block n).front (s.block n).tail (s.block n).data false
      [c.element] []) :
    Stored size least
      ((s.modify s.tailBlock ({ · with next := n })).enqueueAt c (.advance n))
      ⟨l.live, n :: l.spare, (l.put n [c.element]).items⟩ := by
  have hflight : ∀ d, s.flight d = [] := by
    intro d
    rw [flight_of_some henq, EnqueueCall.flight, hpc]
  have hearly : ∀ d, s.early d = [] := by
    intro d
    rw [early_of_some henq, EnqueueCall.early, hpc]
  let s' := (s.modify s.tailBlock ({ · with next := n })).enqueueAt c (.advance n)
  have hearly' : ∀ d, s'.early d = if n = d then [c.element] else [] := fun _ => rfl
  have hself : s'.block s.tailBlock = { s.block s.tailBlock with next := n } := update_self ..
  have hblock : ∀ d, (s'.block d).Agrees { s.block d with next := (s'.block d).next } := by
    intro d
    rcases eq_or_ne d s.tailBlock with rfl | hne
    · rw [hself]
      exact .refl _
    · rw [show s'.block d = s.block d from update_of_ne hne ..]
      exact .refl _
  have hsize : ∀ d, (s'.block d).size = (s.block d).size := fun d => (hblock d).size
  have hlive : n ∉ l.live := fun hmem => hn (mem_of_live hmem)
  have hspare : n ∉ l.spare := fun hmem => hn (mem_of_spare hmem)
  have hne : ∀ d, d ∈ l.live ++ l.spare → d ≠ n := by
    rintro d hd rfl
    exact hn hd
  have hnextAt : ∀ d ≠ s.tailBlock, (s'.block d).next = (s.block d).next := fun d hd =>
    congrArg Block.next (update_of_ne hd ..)
  obtain ⟨pre, hpre⟩ := h.exists_append
  have hchain := h.next
  rw [hpre] at hchain
  have htail : ∀ d ∈ pre ++ l.spare, d ≠ s.tailBlock := by
    have hnodup := h.nodup
    rw [hpre, List.append_assoc, List.singleton_append, List.nodup_middle, List.nodup_cons]
      at hnodup
    rintro d hd rfl
    exact hnodup.1 hd
  constructor
  case nodup => exact List.nodup_middle.2 (List.nodup_cons.2 ⟨hn, h.nodup⟩)
  case next =>
    change (l.live ++ (n :: l.spare) ++ [s.frontBlock]).IsChain _
    rw [hpre, List.append_assoc, List.append_assoc, List.singleton_append, List.cons_append,
      List.isChain_append_cons_cons]
    have hsplit : (pre ++ [s.tailBlock]).IsChain (fun a b => (s.block a).next = b) ∧
        (l.spare ++ [s.frontBlock]).IsChain (fun a b => (s.block a).next = b) := by
      rw [List.append_assoc, List.isChain_append] at hchain
      exact ⟨hchain.1, hchain.2.1⟩
    refine ⟨isChain_imp hsplit.1 fun a ha d had => ?_, ?_, ?_⟩
    · rw [hnextAt a (htail a (List.mem_append_left _ ha)), had]
    · exact congrArg Block.next hself
    · rw [List.isChain_cons]
      have hhead := h.next_tailBlock
      refine ⟨fun d hd => ?_, isChain_imp hsplit.2 fun a ha d had => ?_⟩
      · rw [hhead] at hd
        rw [hnextAt n (fun heq => hlive (heq ▸ h.tailBlock_mem)), hnext]
        exact Option.some.inj hd
      · rw [hnextAt a (htail a (List.mem_append_right _ ha)), had]
  case head => exact h.head
  case last => exact h.last
  case made =>
    intro d hd
    rcases List.mem_cons.1 ((List.perm_middle.mem_iff).1 hd) with rfl | hd
    · exact hmade
    · exact h.made d hd
  case count =>
    have hcount : (l.live ++ l.spare).length + 1 = s.made := by
      have hcount := h.count
      rwa [unlinked_of_some henq, EnqueueCall.unlinked, hpc] at hcount
    change (l.live ++ n :: l.spare).length + 0 = s.made
    rw [← hcount, List.length_append, List.length_append, List.length_cons]
    omega
  case two_le => exact h.two_le
  case least_le => exact fun d hd => hsize d ▸ h.least_le d hd
  case two_pow => exact fun d hd => hsize d ▸ h.two_pow d hd
  case largest_le => exact h.largest_le
  case largest_two_pow => exact h.largest_two_pow
  case roomy =>
    refine h.roomy.trans (Nat.mul_le_mul_right _ ?_)
    simp only [List.length_append, List.length_cons]
    omega
  case holds =>
    intro d hd
    rw [Holding, hsize, (hblock d).front, (hblock d).tail, (hblock d).data]
    change Holds _ _ _ _ (s.hole d) _ []
    rcases List.mem_cons.1 ((List.perm_middle.mem_iff).1 hd) with rfl | hd
    · have hhole : s.hole d = false := by
        rw [← Bool.not_eq_true]
        intro hhole
        exact hlive (h.hole d hhole ▸ h.frontBlock_mem)
      rw [Layout.put_self, hhole]
      exact hhold
    · have hhold := h.holds d hd
      rw [Holding, hflight] at hhold
      rwa [l.put_of_ne (hne d hd)]
  case hole => exact h.hole
  case early =>
    intro d hd
    exact if_neg (hne d (mem_of_live hd)).symm
  case spare =>
    intro d hd
    rw [hearly']
    rcases List.mem_cons.1 hd with rfl | hd
    · rw [Layout.put_self, if_pos rfl]
    · rw [l.put_of_ne (hne d (mem_of_spare hd)), if_neg (hne d (mem_of_spare hd)).symm,
        h.spare d hd, hearly]
  case filled =>
    intro d hd hdf
    rw [l.put_of_ne (hne d (mem_of_live hd))]
    exact h.filled d hd hdf
  case full =>
    intro d hd hdf hdt
    rw [l.put_of_ne (hne d (mem_of_live hd)), hsize]
    exact h.full d hd hdf hdt
  case queue =>
    change s.enqueued = s.removed ++ l.live.flatMap (l.put n [c.element]).items
    rw [flatMap_put_of_not_mem hlive]
    exact h.queue

/-- `tailBlock` is stored: the elements of the block behind the tail block are in the queue. -/
theorem advanced (h : Stored size least s l) (henq : s.enqueuing = some c)
    (hpc : c.pc = .advance n) {spare : List ℕ} (hspare : l.spare = n :: spare)
    (hfull : s.tailBlock ≠ s.frontBlock →
      (l.items s.tailBlock).length + 1 = (s.block s.tailBlock).size) :
    Stored size least ({ s with tailBlock := n }.enqueueTrue c)
      ⟨l.live ++ [n], spare, l.items⟩ := by
  have hflight : ∀ d, s.flight d = [] := by
    intro d
    rw [flight_of_some henq, EnqueueCall.flight, hpc]
  have hearly : ∀ d, s.early d = if n = d then [c.element] else [] := by
    intro d
    rw [early_of_some henq, EnqueueCall.early, hpc]
  have hcircle : l.live ++ [n] ++ spare = l.live ++ l.spare := by
    rw [hspare, List.append_assoc, List.singleton_append]
  have hn : n ∈ l.spare := hspare ▸ List.mem_cons_self
  have hitems : l.items n = [c.element] := by
    rw [h.spare n hn, hearly, if_pos rfl]
  exact
    { h with
      nodup := hcircle ▸ h.nodup
      next := hcircle ▸ h.next
      head := by
        change (l.live ++ [n]).head? = _
        rw [List.head?_append, h.head]
        rfl
      last := List.getLast?_concat
      made := hcircle ▸ h.made
      count := by
        have hcount := h.count
        rw [unlinked_of_some henq, EnqueueCall.unlinked, hpc] at hcount
        rw [hcircle]
        exact hcount
      roomy := hcircle ▸ h.roomy
      holds := fun d hd => by
        have hhold := h.holds d (hcircle ▸ hd)
        rw [Holding, hflight] at hhold
        exact hhold
      early := fun _ _ => rfl
      spare := fun d hd => by
        have hnodup := (List.nodup_append.1 h.nodup).2.1
        rw [hspare, List.nodup_cons] at hnodup
        have hne : n ≠ d := by
          rintro rfl
          exact hnodup.1 hd
        rw [h.spare d (hspare ▸ List.mem_cons_of_mem n hd), hearly, if_neg hne]
        rfl
      filled := fun d hd hdf => by
        rcases List.mem_append.1 hd with hd | hd
        · exact h.filled d hd hdf
        · rw [List.mem_singleton.1 hd, hitems]
          exact List.cons_ne_nil _ _
      full := fun d hd hdf hdn => by
        rcases List.mem_append.1 hd with hd | hd
        · rcases eq_or_ne d s.tailBlock with rfl | hdt
          · exact hfull hdf
          · exact h.full d hd hdf hdt
        · exact absurd (List.mem_singleton.1 hd) hdn
      queue := by
        change s.enqueued ++ [c.element] = s.removed ++ (l.live ++ [n]).flatMap l.items
        rw [h.queue, List.flatMap_append, List.flatMap_singleton, hitems, List.append_assoc] }

/-! ## The steps of the consumer -/

variable {d : DequeueCall α} {rest : List ℕ}

/-- `frontBlock` is stored: the producer may use the block again. -/
theorem passed (h : Stored size least s l) (hdeq : s.dequeuing = some d)
    (hpc : d.pc = .leave n i) (hlive : l.live = s.frontBlock :: n :: rest)
    (hitems : l.items s.frontBlock = []) :
    Stored size least ({ s with frontBlock := n }.dequeueAt d (.nonEmpty n i))
      ⟨n :: rest, l.spare ++ [s.frontBlock], l.items⟩ := by
  have hhole : ∀ b, s.hole b = false := by
    intro b
    rw [hole_of_some hdeq, hpc]
    rfl
  have hperm : (n :: rest ++ (l.spare ++ [s.frontBlock])).Perm (l.live ++ l.spare) := by
    rw [hlive, ← List.append_assoc]
    exact List.perm_append_singleton _ _
  have hmem : ∀ b, b ∈ n :: rest ++ (l.spare ++ [s.frontBlock]) ↔ b ∈ l.live ++ l.spare := fun b =>
    hperm.mem_iff
  have hnodup : (s.frontBlock :: n :: rest).Nodup := hlive ▸ (List.nodup_append.1 h.nodup).1
  have hchain := h.next
  rw [hlive, List.cons_append, List.cons_append, List.cons_append, List.cons_append,
    List.isChain_cons_cons] at hchain
  have hfilled : ∀ b ∈ n :: rest, b ≠ s.frontBlock := by
    rintro b hb rfl
    exact (List.nodup_cons.1 hnodup).1 hb
  exact
    { h with
      nodup := hperm.nodup_iff.2 h.nodup
      next := by
        change (n :: rest ++ (l.spare ++ [s.frontBlock]) ++ [n]).IsChain _
        rw [← List.append_assoc, List.isChain_append]
        refine ⟨hchain.2, .singleton n, ?_⟩
        intro a ha b hb
        rw [List.getLast?_concat] at ha
        obtain rfl : s.frontBlock = a := Option.some.inj ha
        obtain rfl : n = b := Option.some.inj hb
        exact hchain.1
      head := rfl
      last := by
        have hlast := h.last
        rwa [hlive, List.getLast?_cons_cons] at hlast
      made := fun b hb => h.made b ((hmem b).1 hb)
      count := by
        rw [hperm.length_eq]
        exact h.count
      roomy := by
        rw [hperm.length_eq]
        exact h.roomy
      holds := fun b hb => by
        have hhold := h.holds b ((hmem b).1 hb)
        rw [Holding, hhole] at hhold
        exact hhold
      hole := fun b hb => absurd hb Bool.false_ne_true
      early := fun b hb => h.early b (hlive ▸ List.mem_cons_of_mem _ hb)
      spare := fun b hb => by
        rcases List.mem_append.1 hb with hb | hb
        · exact h.spare b hb
        · obtain rfl := List.mem_singleton.1 hb
          exact hitems.trans (h.early _ h.frontBlock_mem).symm
      filled := fun b hb _ => h.filled b (hlive ▸ List.mem_cons_of_mem _ hb) (hfilled b hb)
      full := fun b hb _ => h.full b (hlive ▸ List.mem_cons_of_mem _ hb) (hfilled b hb)
      queue := by
        have hqueue := h.queue
        rwa [hlive, List.flatMap_cons, hitems, List.nil_append] at hqueue }

/-- The first element is taken out of its cell. -/
theorem took (h : Stored size least s l) (hdeq : s.dequeuing = some d)
    (hpc : d.pc = .nonEmpty s.frontBlock (s.block s.frontBlock).front)
    (hitems : l.items s.frontBlock ≠ []) {p : Prop} [Decidable p] {result : Option α} :
    Stored size least
      (((s.check p).modify s.frontBlock fun block =>
        { block with data := update block.data (s.block s.frontBlock).front none }).dequeueAt d
        (.taken s.frontBlock (s.block s.frontBlock).front result)) l := by
  have hhole : ∀ b, s.hole b = false := by
    intro b
    rw [hole_of_some hdeq, hpc]
    rfl
  have hhold := h.front_holds
  rw [Holding, hhole] at hhold
  have hs : s.Changes
      (((s.check p).modify s.frontBlock fun block =>
        { block with data := update block.data (s.block s.frontBlock).front none }).dequeueAt d
        (.taken s.frontBlock (s.block s.frontBlock).front result)) s.frontBlock
      { s.block s.frontBlock with
        data := update (s.block s.frontBlock).data (s.block s.frontBlock).front none } :=
    { block := rfl, next := rfl, sizeMask := rfl, made := rfl, frontBlock := rfl, tailBlock := rfl,
      largestBlockSize := rfl
      hole := fun b hb => (beq_eq_false_iff_ne.2 hb.symm).trans (hhole b).symm
      hole_imp := fun _ => rfl
      flight := fun _ _ => rfl, early := fun _ _ => rfl, unlinked := rfl }
  have h' := h.change hs (l.items s.frontBlock)
    (by
      change Holds _ _ _ _ (s.frontBlock == s.frontBlock) _ _
      rw [beq_self_eq_true]
      exact hhold.take hitems)
    (fun hlive => ⟨h.early _ hlive, h.filled _ hlive, h.full _ hlive⟩)
    (fun hspare => h.spare _ hspare)
    (by rw [l.put_eq_self]; exact h.queue)
  rwa [l.put_eq_self] at h'

/-- The `front` of the front block is stored. -/
theorem released (h : Stored size least s l) (hdeq : s.dequeuing = some d)
    {result : Option α} (hpc : d.pc = .taken s.frontBlock i result) {xs : List α}
    (hitems : l.items s.frontBlock = x :: xs) (hresult : result = some x) {block : Block α}
    (hblock : block =
      { s.block s.frontBlock with
        front := ((s.block s.frontBlock).front + 1) % (s.block s.frontBlock).size }) :
    Stored size least
      (({ s with removed := s.removed ++ result.toList }.modify s.frontBlock fun _ =>
        block).answer d result) (l.put s.frontBlock xs) := by
  have hhole : ∀ b, s.hole b = (s.frontBlock == b) := by
    intro b
    rw [hole_of_some hdeq, hpc]
    rfl
  have hhold := h.front_holds
  rw [Holding, hhole, beq_self_eq_true, hitems] at hhold
  have hs : s.Changes
      (({ s with removed := s.removed ++ result.toList }.modify s.frontBlock fun _ =>
        block).answer d result) s.frontBlock block :=
    { block := rfl
      next := by rw [hblock]
      sizeMask := by rw [hblock]
      made := rfl, frontBlock := rfl, tailBlock := rfl, largestBlockSize := rfl
      hole := fun b hb => ((hhole b).trans (beq_eq_false_iff_ne.2 hb.symm)).symm
      hole_imp := fun _ => rfl
      flight := fun _ _ => rfl, early := fun _ _ => rfl, unlinked := rfl }
  obtain ⟨bs, hbs⟩ := h.exists_cons
  refine h.change hs _ ?_ (fun hlive => ⟨h.early _ hlive, ?_, ?_⟩) ?_ ?_
  · rw [hblock]
    exact hhold.release
  · exact fun hne => absurd rfl hne
  · exact fun hne => absurd rfl hne
  · exact fun hspare => absurd rfl (h.ne_frontBlock_of_spare hspare)
  · have hnodup := (List.nodup_append.1 h.nodup).1
    have hqueue := h.queue
    rw [hbs, List.nodup_cons] at hnodup
    rw [hbs, List.flatMap_cons, hitems] at hqueue
    rw [hbs, List.flatMap_cons, Layout.put_self, flatMap_put_of_not_mem hnodup.1]
    change s.enqueued = s.removed ++ result.toList ++ _
    rw [hqueue, hresult]
    simp

end Stored

end ReaderWriterQueue

end Yasio
