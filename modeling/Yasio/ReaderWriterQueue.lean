import Mathlib.Data.Nat.Bitwise
import Mathlib.Data.Nat.Log
import Yasio.Lib.Machine

/-!
# The lock-free event queue

`moodycamel::ReaderWriterQueue<T, MAX_BLOCK_SIZE>`, the queue of one producer and one consumer that
`concurrent_queue` is when `YASIO_USE_SPSC_QUEUE` is defined.  Each step of a thread makes one
access to what the other thread may write, and the accesses take place one after the other.  What a
thread alone writes it reads in the step before.  A pointer to a block is the number of the block.
-/

namespace Yasio

open Function

namespace ReaderWriterQueue

/-- `ReaderWriterQueue<T>::Block` with the cells of its `data`; a cell that holds no object is
`none`. -/
structure Block (α : Type*) where
  front : ℕ := 0
  localTail : ℕ := 0
  tail : ℕ := 0
  localFront : ℕ := 0
  next : ℕ := 0
  data : ℕ → Option α := fun _ => none
  sizeMask : ℕ

/-- `make_block`, unless `malloc` fails. -/
def makeBlock {α : Type*} (capacity : ℕ) : Block α := { sizeMask := capacity - 1 }

/-- The position after `i` in a block. -/
def Block.succ {α : Type*} (block : Block α) (i : ℕ) : ℕ := (i + 1) &&& block.sizeMask

/-- Where a call of `inner_enqueue` is. -/
inductive EnqueuePc
  /-- about to load the `front` of a block that looks full -/
  | full (tailBlock_ blockTail nextBlockTail : ℕ)
  /-- about to construct the element in the tail block -/
  | room (tailBlock_ blockTail nextBlockTail : ℕ)
  /-- about to store `tail` -/
  | built (tailBlock_ nextBlockTail : ℕ)
  /-- about to compare the next block with `frontBlock` -/
  | behind (tailBlock_ : ℕ)
  /-- about to load the `front` of the next block -/
  | ahead (tailBlockNext : ℕ)
  /-- about to construct the element in the next block -/
  | clear (tailBlockNext nextBlockTail : ℕ)
  /-- about to store the `tail` of the next block -/
  | filled (tailBlockNext nextBlockTail : ℕ)
  /-- about to make a block -/
  | make (tailBlock_ : ℕ)
  /-- about to store the `next` of the tail block -/
  | link (tailBlock_ newBlock : ℕ)
  /-- about to store `tailBlock` -/
  | advance (block : ℕ)

/-- A call of `inner_enqueue` with its arguments and the number of elements that the queue held when
it began. -/
structure EnqueueCall (α : Type*) where
  element : α
  canAlloc : Bool
  held : ℕ
  pc : EnqueuePc

/-- The calls of the consumer. -/
inductive Removal
  | tryDequeue
  | pop
  | peek
  deriving DecidableEq

/-- Where a call of the consumer is. -/
inductive DequeuePc (α : Type*)
  /-- about to load the `tail` of a block that looks empty -/
  | drained (frontBlock_ blockFront : ℕ)
  /-- about to compare the block with `tailBlock` -/
  | compare (frontBlock_ : ℕ)
  /-- about to load the `tail` of the front block once more -/
  | reload
  /-- about to load the `next` of the front block -/
  | empty (frontBlock_ : ℕ)
  /-- about to load the `tail` of the next block -/
  | next (nextBlock : ℕ)
  /-- about to store `frontBlock` -/
  | leave (nextBlock nextBlockFront : ℕ)
  /-- at `non_empty_front_block`, or past `frontBlock = frontBlock_ = nextBlock` -/
  | nonEmpty (frontBlock_ blockFront : ℕ)
  /-- about to store `front` -/
  | taken (frontBlock_ blockFront : ℕ) (result : Option α)

/-- A call of the consumer with the numbers of elements that had been enqueued and removed when it
began. -/
structure DequeueCall (α : Type*) where
  removal : Removal
  enqueued : ℕ
  removed : ℕ
  pc : DequeuePc α

/-- What a call of the consumer has answered: the element that it has removed or, as `peek` does,
has a pointer to. -/
structure Answer (α : Type*) where
  removal : Removal
  enqueued : ℕ
  removed : ℕ
  found : Option α

end ReaderWriterQueue

open ReaderWriterQueue in
/-- The queue with the calls that are under way, the elements in the order in which they have been
enqueued and removed, the answers of the consumer's calls, what the queue held at each of the
producer's calls that found every block taken, and whether every assertion has held, every element
has been constructed in a free cell and taken from a cell that holds one. -/
structure ReaderWriterQueue (α : Type*) where
  block : ℕ → Block α
  made : ℕ
  frontBlock : ℕ
  tailBlock : ℕ
  largestBlockSize : ℕ
  enqueuing : Option (EnqueueCall α) := none
  dequeuing : Option (DequeueCall α) := none
  enqueued : List α := []
  removed : List α := []
  answers : List (Answer α) := []
  crowded : List ℕ := []
  sound : Bool := true

namespace ReaderWriterQueue

variable {α : Type*}

/-! ## The constructor -/

/-- `ceilToPow2`, on a `size_t` of 64 bits -/
def ceilToPow2 (x : ℕ) : ℕ :=
  let x := (x + (2 ^ 64 - 1)) % 2 ^ 64
  let x := x ||| x >>> 1
  let x := x ||| x >>> 2
  let x := x ||| x >>> 4
  let x := x ||| x >>> (1 <<< 3)
  let x := x ||| x >>> (2 <<< 3)
  let x := x ||| x >>> (4 <<< 3)
  (x + 1) % 2 ^ 64

/-- The loop of the constructor: `firstBlock` has the number zero and `lastBlock` the one before. -/
def makeBlocks (capacity : ℕ) : ℕ → ℕ → Block α
  | 0 => fun _ => makeBlock capacity
  | i + 1 =>
    let blocks := makeBlocks capacity i
    let linked := if i = 0 then blocks else update blocks (i - 1) { blocks (i - 1) with next := i }
    update linked i { makeBlock capacity with next := 0 }

/-- The constructor. -/
def construct (maxBlockSize size : ℕ) : ReaderWriterQueue α :=
  let largestBlockSize := ceilToPow2 ((size + 1) % 2 ^ 64)
  if largestBlockSize > maxBlockSize * 2 % 2 ^ 64 then
    let initialBlockCount :=
      (size + maxBlockSize * 2 + (2 ^ 64 - 3)) % 2 ^ 64 / (maxBlockSize - 1)
    { block := makeBlocks maxBlockSize initialBlockCount
      made := initialBlockCount
      frontBlock := 0
      tailBlock := 0
      largestBlockSize := maxBlockSize }
  else
    { block := makeBlocks largestBlockSize 1
      made := 1
      frontBlock := 0
      tailBlock := 0
      largestBlockSize }

/-! ## The producer -/

/-- A field of a block is stored. -/
def modify (s : ReaderWriterQueue α) (b : ℕ) (f : Block α → Block α) : ReaderWriterQueue α :=
  { s with block := update s.block b (f (s.block b)) }

/-- The debug build stops when the condition does not hold. -/
def check (s : ReaderWriterQueue α) (p : Prop) [Decidable p] : ReaderWriterQueue α :=
  { s with sound := s.sound && decide p }

def enqueueAt (s : ReaderWriterQueue α) (c : EnqueueCall α) (pc : EnqueuePc) :
    ReaderWriterQueue α :=
  { s with enqueuing := some { c with pc } }

/-- `return true` -/
def enqueueTrue (s : ReaderWriterQueue α) (c : EnqueueCall α) : ReaderWriterQueue α :=
  { s with enqueuing := none, enqueued := s.enqueued ++ [c.element] }

/-- `return false` -/
def enqueueFalse (s : ReaderWriterQueue α) : ReaderWriterQueue α := { s with enqueuing := none }

/-- `new (location) T(...)` -/
def constructAt (s : ReaderWriterQueue α) (b i : ℕ) (x : α) : ReaderWriterQueue α :=
  (s.check ((s.block b).data i).isNone).modify b fun block =>
    { block with data := update block.data i (some x) }

def newBlockSize (maxBlockSize largestBlockSize : ℕ) : ℕ :=
  if largestBlockSize ≥ maxBlockSize then largestBlockSize else largestBlockSize * 2

/-- `inner_enqueue` up to its first load of what the consumer writes -/
def enqueue (s : ReaderWriterQueue α) (canAlloc : Bool) (element : α) : ReaderWriterQueue α :=
  let tailBlock_ := s.tailBlock
  let blockFront := (s.block tailBlock_).localFront
  let blockTail := (s.block tailBlock_).tail
  let nextBlockTail := (s.block tailBlock_).succ blockTail
  { s with
    enqueuing := some
      { element
        canAlloc
        held := s.enqueued.length - s.removed.length
        pc :=
          if nextBlockTail ≠ blockFront then .room tailBlock_ blockTail nextBlockTail
          else .full tailBlock_ blockTail nextBlockTail } }

/-- The next step of `inner_enqueue`; `malloc` is whether it returns memory. -/
def produce (maxBlockSize : ℕ) (malloc : Bool) (s : ReaderWriterQueue α) (c : EnqueueCall α) :
    ReaderWriterQueue α :=
  match c.pc with
  | .full b blockTail nextBlockTail =>
    let front := (s.block b).front
    (s.modify b ({ · with localFront := front })).enqueueAt c
      (if nextBlockTail ≠ front then .room b blockTail nextBlockTail else .behind b)
  | .room b blockTail nextBlockTail =>
    (s.constructAt b blockTail c.element).enqueueAt c (.built b nextBlockTail)
  | .built b nextBlockTail => (s.modify b ({ · with tail := nextBlockTail })).enqueueTrue c
  | .behind b =>
    if (s.block b).next ≠ s.frontBlock then s.enqueueAt c (.ahead (s.block b).next)
    else
      let s := { s with crowded := s.crowded ++ [c.held] }
      if c.canAlloc then s.enqueueAt c (.make b) else s.enqueueFalse
  | .ahead b =>
    let nextBlockFront := (s.block b).front
    let nextBlockTail := (s.block b).tail
    ((s.modify b ({ · with localFront := nextBlockFront })).check
      (nextBlockFront = nextBlockTail)).enqueueAt c (.clear b nextBlockTail)
  | .clear b nextBlockTail =>
    (s.constructAt b nextBlockTail c.element).enqueueAt c
      (.filled b ((s.block b).succ nextBlockTail))
  | .filled b tail => (s.modify b ({ · with tail })).enqueueAt c (.advance b)
  | .make b =>
    if malloc then
      -- no other thread sees the block before it is linked
      { s with
        block := update s.block s.made
          { (makeBlock (newBlockSize maxBlockSize s.largestBlockSize) : Block α) with
            data := update (fun _ => none) 0 (some c.element)
            tail := 1
            localTail := 1
            next := (s.block b).next }
        made := s.made + 1
        largestBlockSize := newBlockSize maxBlockSize s.largestBlockSize }.enqueueAt c
        (.link b s.made)
    else s.enqueueFalse
  | .link b newBlock => (s.modify b ({ · with next := newBlock })).enqueueAt c (.advance newBlock)
  | .advance b => { s with tailBlock := b }.enqueueTrue c

/-! ## The consumer -/

def dequeueAt (s : ReaderWriterQueue α) (c : DequeueCall α) (pc : DequeuePc α) :
    ReaderWriterQueue α :=
  { s with dequeuing := some { c with pc } }

/-- The call returns. -/
def answer (s : ReaderWriterQueue α) (c : DequeueCall α) (found : Option α) :
    ReaderWriterQueue α :=
  { s with
    dequeuing := none
    answers := s.answers ++ [⟨c.removal, c.enqueued, c.removed, found⟩] }

/-- The call of the consumer up to its first load of what the producer writes. -/
def dequeue (s : ReaderWriterQueue α) (removal : Removal) : ReaderWriterQueue α :=
  let frontBlock_ := s.frontBlock
  let blockTail := (s.block frontBlock_).localTail
  let blockFront := (s.block frontBlock_).front
  { s with
    dequeuing := some
      { removal
        enqueued := s.enqueued.length
        removed := s.removed.length
        pc :=
          if blockFront ≠ blockTail then .nonEmpty frontBlock_ blockFront
          else .drained frontBlock_ blockFront } }

/-- The next step of `try_dequeue`, `pop` or `peek`. -/
def consume (s : ReaderWriterQueue α) (c : DequeueCall α) : ReaderWriterQueue α :=
  match c.pc with
  | .drained b blockFront =>
    let tail := (s.block b).tail
    (s.modify b ({ · with localTail := tail })).dequeueAt c
      (if blockFront ≠ tail then .nonEmpty b blockFront else .compare b)
  | .compare b => if b ≠ s.tailBlock then s.dequeueAt c .reload else s.answer c none
  | .reload =>
    let b := s.frontBlock
    let blockTail := (s.block b).tail
    let blockFront := (s.block b).front
    (s.modify b ({ · with localTail := blockTail })).dequeueAt c
      (if blockFront ≠ blockTail then .nonEmpty b blockFront else .empty b)
  | .empty b => s.dequeueAt c (.next (s.block b).next)
  | .next b =>
    let nextBlockFront := (s.block b).front
    let nextBlockTail := (s.block b).tail
    if c.removal = .peek then
      ((s.check (nextBlockFront ≠ nextBlockTail)).check
        ((s.block b).data nextBlockFront).isSome).answer c ((s.block b).data nextBlockFront)
    else
      ((s.modify b ({ · with localTail := nextBlockTail })).check
        (nextBlockFront ≠ nextBlockTail)).dequeueAt c (.leave b nextBlockFront)
  | .leave b nextBlockFront => { s with frontBlock := b }.dequeueAt c (.nonEmpty b nextBlockFront)
  | .nonEmpty b blockFront =>
    let element := (s.block b).data blockFront
    if c.removal = .peek then (s.check element.isSome).answer c element
    else
      ((s.check element.isSome).modify b fun block =>
        { block with data := update block.data blockFront none }).dequeueAt c
        (.taken b blockFront element)
  | .taken b blockFront result =>
    ({ s with removed := s.removed ++ result.toList }.modify b fun block =>
      { block with front := block.succ blockFront }).answer c result

/-! ## The two threads -/

inductive Action (α : Type*)
  /-- the producer calls `try_enqueue` or `enqueue` -/
  | enqueue (canAlloc : Bool) (element : α)
  | produce (malloc : Bool)
  | dequeue (removal : Removal)
  | consume

def step (maxBlockSize : ℕ) (a : Action α) (s : ReaderWriterQueue α) :
    Option (ReaderWriterQueue α) :=
  match a with
  | .enqueue canAlloc element =>
    if s.enqueuing.isNone then some (s.enqueue canAlloc element) else none
  | .produce malloc => s.enqueuing.map (s.produce maxBlockSize malloc)
  | .dequeue removal => if s.dequeuing.isNone then some (s.dequeue removal) else none
  | .consume => s.dequeuing.map s.consume

/-! ## Loops over the blocks -/

/-- The blocks that a loop visits from one on, until `next` leads to `frontBlock`. -/
def blocksFrom (s : ReaderWriterQueue α) : ℕ → ℕ → Option (List ℕ)
  | 0, _ => none
  | fuel + 1, b =>
    if (s.block b).next = s.frontBlock then some [b]
    else (s.blocksFrom fuel (s.block b).next).map (b :: ·)

/-- `(blockTail - blockFront) & block->sizeMask` -/
def Block.count (block : Block α) : ℕ :=
  (block.tail + (2 ^ 64 - block.front)) % 2 ^ 64 &&& block.sizeMask

/-- `size_approx` -/
def sizeApprox (s : ReaderWriterQueue α) (fuel : ℕ) : Option ℕ :=
  (s.blocksFrom fuel s.frontBlock).map fun blocks =>
    blocks.foldl (fun result b => (result + (s.block b).count) % 2 ^ 64) 0

/-- The cells whose objects the destructor destroys in a block. -/
def Block.destroyFrom (block : Block α) : ℕ → ℕ → Option (List (Option α))
  | 0, _ => none
  | fuel + 1, i =>
    if i = block.tail then some []
    else (block.destroyFrom fuel (block.succ i)).map (block.data i :: ·)

def destroyBlocks (s : ReaderWriterQueue α) (fuel : ℕ) : List ℕ → Option (List (Option α))
  | [] => some []
  | b :: bs =>
    ((s.block b).destroyFrom fuel (s.block b).front).bind fun cells =>
      (s.destroyBlocks fuel bs).map (cells ++ ·)

/-- The destructor: the cells whose objects it destroys and the blocks that it frees. -/
def destroy (s : ReaderWriterQueue α) (fuel : ℕ) : Option (List (Option α) × List ℕ) :=
  (s.blocksFrom fuel s.frontBlock).bind fun blocks =>
    (s.destroyBlocks fuel blocks).map (·, blocks)

/-! ## The blocks of the constructor -/

/-- Each bit of `z` says whether one of the `k` bits of `y` from it on is set. -/
def Smeared (y k z : ℕ) : Prop :=
  ∀ i, z.testBit i = true ↔ ∃ j, i ≤ j ∧ j < i + k ∧ y.testBit j = true

theorem smeared_one (y : ℕ) : Smeared y 1 y := by
  intro i
  constructor
  · exact fun h => ⟨i, Nat.le_refl i, Nat.lt_succ_self i, h⟩
  · rintro ⟨j, hij, hj, h⟩
    obtain rfl : j = i := by omega
    exact h

theorem Smeared.double {y k z : ℕ} (h : Smeared y k z) : Smeared y (k + k) (z ||| z >>> k) := by
  intro i
  rw [Nat.testBit_or, Nat.testBit_shiftRight, Bool.or_eq_true, h, h]
  constructor
  · rintro (⟨j, hij, hj, hbit⟩ | ⟨j, hij, hj, hbit⟩)
    · exact ⟨j, hij, by omega, hbit⟩
    · exact ⟨j, by omega, by omega, hbit⟩
  · rintro ⟨j, hij, hj, hbit⟩
    rcases Nat.lt_or_ge j (i + k) with hlt | hge
    · exact .inl ⟨j, hij, hlt, hbit⟩
    · exact .inr ⟨j, by omega, by omega, hbit⟩

/-- All bits from the highest one down are set. -/
theorem Smeared.eq_two_pow_sub_one {y k z : ℕ} (h : Smeared y k z) (hy : y < 2 ^ k) :
    z = 2 ^ Nat.clog 2 (y + 1) - 1 := by
  apply Nat.eq_of_testBit_eq
  intro i
  rw [Nat.testBit_two_pow_sub_one, Bool.eq_iff_iff, h, decide_eq_true_iff,
    Nat.lt_clog_iff_pow_lt (by decide)]
  constructor
  · rintro ⟨j, hij, -, hbit⟩
    have hj : 2 ^ j ≤ y := Nat.ge_two_pow_of_testBit hbit
    have hi : 2 ^ i ≤ 2 ^ j := Nat.pow_le_pow_right (by decide) hij
    omega
  · intro hlt
    have hne : y ≠ 0 := by
      have : 0 < 2 ^ i := Nat.two_pow_pos i
      omega
    have hk : y.log2 < k := (Nat.log2_lt hne).2 hy
    exact ⟨y.log2, (Nat.le_log2 hne).2 (by omega), by omega, Nat.testBit_log2 hne⟩

theorem ceilToPow2_eq {x : ℕ} (hx : 0 < x) (hlt : x ≤ 2 ^ 63) :
    ceilToPow2 x = 2 ^ Nat.clog 2 x := by
  unfold ceilToPow2
  extract_lets y z1 z2 z3 z4 z5 z6
  have hy : y = x - 1 := by omega
  have h1 : Smeared y 2 z1 := (smeared_one y).double
  have h2 : Smeared y 4 z2 := h1.double
  have h3 : Smeared y 8 z3 := h2.double
  have h4 : Smeared y 16 z4 := h3.double
  have h5 : Smeared y 32 z5 := h4.double
  have h6 : Smeared y 64 z6 := h5.double
  have heq : z6 = 2 ^ Nat.clog 2 x - 1 := by
    rw [h6.eq_two_pow_sub_one (by omega), hy, Nat.sub_add_cancel hx]
  have hle : 2 ^ Nat.clog 2 x ≤ 2 ^ 63 :=
    Nat.pow_le_pow_right (by decide) (Nat.clog_le_of_le_pow hlt)
  have hpos : 0 < 2 ^ Nat.clog 2 x := Nat.two_pow_pos _
  rw [heq, Nat.sub_add_cancel hpos]
  exact Nat.mod_eq_of_lt (by omega)

theorem makeBlocks_eq (capacity : ℕ) {n i : ℕ} (hi : i < n) :
    makeBlocks (α := α) capacity n i =
      { makeBlock capacity with next := if i + 1 = n then 0 else i + 1 } := by
  induction n with
  | zero => exact absurd hi (Nat.not_lt_zero i)
  | succ n ih =>
    unfold makeBlocks
    dsimp only
    rcases eq_or_ne i n with rfl | hne
    · rw [update_self, if_pos rfl]
    · have hi : i < n := by omega
      rw [update_of_ne hne, if_neg (by omega : n ≠ 0), if_neg (by omega : i + 1 ≠ n + 1)]
      rcases eq_or_ne i (n - 1) with rfl | hne'
      · rw [update_self, ih hi, Nat.sub_add_cancel (by omega)]
      · rw [update_of_ne hne', ih hi, if_neg (by omega)]

end ReaderWriterQueue

end Yasio
