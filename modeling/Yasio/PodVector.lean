import Yasio.Lib.Throwing
import Yasio.Lib.Overwrite
import Mathlib.Algebra.Order.Ring.Int
import Mathlib.Logic.Function.Basic

/-!
# `pod_vector`

The calls of a `pod_vector` over any allocator and with arguments that are given by reference; with
`buffer_allocator` the blocks come from `realloc`.  The heap holds the cells of each live block.  A
call reallocates at most once; what `realloc` answers is given to the call.
-/

namespace Yasio

open Memory (overwrite)

/-! ## The allocator -/

/-- The cells of each live block. -/
abbrev Heap (α : Type) := ℕ → Option (List α)

/-- A block that `realloc` gives, and what is in the cells that are new. -/
structure Grant (α : Type) where
  block : ℕ
  fresh : ℕ → α

/-- `buffer_allocator::reallocate`: the new block or null, and the heap.  `realloc` of no bytes
frees the block and returns null. -/
def reallocBlock {α : Type} (sizeof : ℕ) (heap : Heap α) (block : Option ℕ) (newSize : ℕ)
    (grant : Option (Grant α)) : Option ℕ × Heap α :=
  -- `new_size * sizeof(value_type)` is a `size_t`.
  let bytes := newSize * sizeof % 2 ^ 64
  let cells := (block.bind heap).getD []
  let freed := match block with
    | some b => Function.update heap b none
    | none => heap
  if bytes = 0 ∧ block.isSome then (none, freed)
  else
    match grant with
    | none => (none, heap)
    | some g =>
      let n := bytes / sizeof
      (some g.block, Function.update freed g.block
        (some (cells.take n ++ (List.range (n - cells.length)).map g.fresh)))

/-! ## The vector -/

/-- `_Myfirst`, which is a block or null, `_Mysize` and `_Myres`. -/
@[ext]
structure PodVector where
  first : Option ℕ := none
  size : ℕ := 0
  res : ℕ := 0
  deriving DecidableEq, Repr

inductive PodError
  | outOfRange
  | lengthError
  | badAlloc
  deriving DecidableEq, Repr

/-- A vector and the heap around it. -/
structure PodState (α : Type) where
  vec : PodVector
  heap : Heap α

abbrev Podding (α β : Type) := Throwing PodError (PodState α) β

inductive ReallocationPolicy
  | atLeast
  | exactly
  deriving DecidableEq, Repr

/-- An iterator, counted from `_Myfirst`. -/
abbrev Iterator := Int

/-- What `_Alloc::reallocate(block, size, new_size)` answers, and the heap. -/
abbrev Reallocate (β : Type) := Heap β → Option ℕ → ℕ → ℕ → Option ℕ × Heap β

/-- `buffer_allocator::reallocate` -/
def bufferAllocator {β : Type} (sizeof : ℕ) (grant : Option (Grant β)) : Reallocate β :=
  fun heap block _ newSize => reallocBlock sizeof heap block newSize grant

/-- The allocator of a call, how an argument is read when the call comes to it, and whether it is
the element at `_Myfirst`. -/
structure PodMemory (α β : Type) where
  reallocate : Reallocate β
  read : α → Podding β β
  isFirst : α → Bool

/-- The call has a copy of the argument. -/
def PodMemory.copied {α β : Type} (mem : PodMemory α β) : PodMemory β β where
  reallocate := mem.reallocate
  read := pure
  isFirst _ := false

namespace PodVector

variable {α β : Type} (sizeof : ℕ)

/-- `buffer_allocator`, and arguments that do not lie in the vector. -/
def buffer (grant : Option (Grant α)) : PodMemory α α where
  reallocate := bufferAllocator sizeof grant
  read := pure
  isFirst _ := false

/-- `buffer_allocator_traits::max_size` -/
def maxSize : ℕ := (2 ^ 64 - 1) / sizeof

/-- The result of storing an integer in a `size_t`. -/
def sizeT (x : Int) : ℕ := (x % 2 ^ 64).toNat

def calculateGrowth (oldCap newSize : ℕ) : ℕ :=
  -- Geometric growth would overflow.
  if sizeT ((maxSize sizeof : Int) - (oldCap / 2 : ℕ)) < oldCap then maxSize sizeof
  else
    let geometric := sizeT (oldCap + (oldCap / 2 : ℕ) : ℕ)
    if geometric < newSize then newSize else geometric

def newCapacity (v : PodVector) (size : ℕ) : ReallocationPolicy → ℕ
  | .exactly => size
  | .atLeast => calculateGrowth sizeof v.res size

/-! ### Parts of the calls -/

/-- `_YASIO_VERIFY_RANGE` -/
def verifyRange (cond : Prop) [Decidable cond] : Podding α Unit :=
  if cond then return else throw .outOfRange

/-- `_Eos` -/
def eos (size : ℕ) : Podding α Unit :=
  modify fun s => { s with vec := { s.vec with size := size } }

/-- A copy of elements from outside to the cells from `_Myfirst + offset` on. -/
def store (offset : ℕ) (d : List α) : Podding α Unit :=
  modify fun s =>
    match s.vec.first with
    | some b => { s with
        heap := Function.update s.heap b ((s.heap b).map fun cells => overwrite cells offset d) }
    | none => s

/-- The `n` cells from `_Myfirst + offset` on. -/
def load (s : PodState α) (offset n : ℕ) : List α :=
  (((s.vec.first.bind s.heap).getD []).drop offset).take n

/-- `std::copy_n` and `std::move` from the vector to itself. -/
def copyWithin (source n target : ℕ) : Podding α Unit := do
  let s ← get
  store target (load s source n)

/-- `_Tidy` -/
def tidy : Podding α Unit :=
  modify fun s =>
    match s.vec.first with
    | some b => { vec := {}, heap := Function.update s.heap b none }
    | none => s

variable (mem : PodMemory α β)

/-- `_Reallocate` -/
def reallocate (policy : ReallocationPolicy) (size : ℕ) : Podding β Unit := do
  let s ← get
  let newCap := newCapacity sizeof s.vec size policy
  match mem.reallocate s.heap s.vec.first s.vec.res newCap with
  | (some b, heap) =>
    set ({ vec := { s.vec with first := some b, res := newCap }, heap := heap } : PodState β)
  | (none, heap) => do
    -- `_Myfirst` stays, also when `realloc` has freed the block.
    set ({ s with heap := heap } : PodState β)
    throw .badAlloc

/-- `_Resize_reallocate` -/
def resizeReallocate (policy : ReallocationPolicy) (size : ℕ) : Podding β Unit := do
  reallocate sizeof mem policy size
  eos size

/-! ### The calls -/

def resize (newSize : ℕ) : Podding β Unit := do
  let s ← get
  if s.vec.res < newSize then resizeReallocate sizeof mem .exactly newSize
  else eos newSize

def expand (count : ℕ) : Podding β Unit := do
  let s ← get
  let newSize := sizeT (s.vec.size + count : ℕ)
  if s.vec.res < newSize then resizeReallocate sizeof mem .atLeast newSize
  else eos newSize

/-- `resize` with a value -/
def resizeFill (newSize : ℕ) (val : α) : Podding β Unit := do
  let oldSize := (← get).vec.size
  if oldSize ≠ newSize then
    resize sizeof mem newSize
    if oldSize < newSize then
      store oldSize (List.replicate (newSize - oldSize) (← mem.read val))

/-- `expand` with a value -/
def expandFill (count : ℕ) (val : α) : Podding β Unit := do
  if count ≠ 0 then
    let oldSize := (← get).vec.size
    expand sizeof mem count
    store oldSize (List.replicate count (← mem.read val))

def reserve (newCap : ℕ) : Podding β Unit := do
  let s ← get
  if s.vec.res < newCap then reallocate sizeof mem .exactly newCap

def shrinkToFit : Podding β Unit := do
  let s ← get
  if s.vec.size ≠ s.vec.res then
    if s.vec.size = 0 then tidy
    else reallocate sizeof mem .exactly s.vec.size

/-- `resize_and_overwrite` with an operation that leaves these elements at the front and returns how
many they are. -/
def resizeAndOverwrite (newSize : ℕ) (written : List α) : Podding β Unit := do
  reallocate sizeof mem .exactly newSize
  store 0 (← written.mapM mem.read)
  eos written.length

def emplaceBackReallocate (val : α) : Podding β Unit := do
  let oldSize := (← get).vec.size
  if oldSize = maxSize sizeof then throw .lengthError
  resizeReallocate sizeof mem .atLeast (oldSize + 1)
  -- The argument is read when the old block is gone.
  store oldSize [← mem.read val]

/-- `emplace_back`, and `push_back` -/
def emplaceBack (val : α) : Podding β Unit := do
  let s ← get
  if s.vec.size < s.vec.res then
    eos (s.vec.size + 1)
    store s.vec.size [← mem.read val]
  else emplaceBackReallocate sizeof mem val

/-- `append` of a range, of which a single element is copied first. -/
def append (d : List α) : Podding β Unit := do
  match d with
  | [] => return
  | [val] => emplaceBack sizeof mem.copied (← mem.read val)
  | d =>
    let oldSize := (← get).vec.size
    expand sizeof mem d.length
    store oldSize (← d.mapM mem.read)

/-- `append` of copies of a value -/
def appendFill (count : ℕ) (val : α) : Podding β Unit := expandFill sizeof mem count val

/-- The cells from `offset` on move behind `count` new ones. -/
def openGap (offset count : ℕ) : Podding β Unit := do
  expand sizeof mem count
  let s ← get
  -- All that lies behind the gap, measured from the grown end.
  copyWithin offset (s.vec.size - (offset + count)) (offset + count)

/-- `insert` of a range, which is `none` when its end lies in front of its start. -/
def insertRange (pos : Iterator) (range : Option (List α)) : Podding β ℕ := do
  let s ← get
  verifyRange (0 ≤ pos ∧ pos ≤ s.vec.size ∧ range.isSome)
  let d := range.getD []
  if d ≠ [] then
    if pos = s.vec.size then append sizeof mem d
    else
      openGap sizeof mem pos.toNat d.length
      store pos.toNat (← d.mapM mem.read)
  return pos.toNat

/-- `insert` of copies of a value -/
def insertFill (pos : Iterator) (count : ℕ) (val : α) : Podding β ℕ := do
  let s ← get
  verifyRange (0 ≤ pos ∧ pos ≤ s.vec.size)
  if count ≠ 0 then
    if pos = s.vec.size then appendFill sizeof mem count val
    else
      openGap sizeof mem pos.toNat count
      store pos.toNat (List.replicate count (← mem.read val))
  return pos.toNat

/-- `std::rotate` of the last element to this offset -/
def rotateLast (offset : ℕ) : Podding α Unit := do
  let s ← get
  store offset (load s (s.vec.size - 1) 1 ++ load s offset (s.vec.size - 1 - offset))

/-- `emplace`, and `insert` of one value, with `YASIO__HAS_CXX20` or without it. -/
def emplace (cxx20 : Bool) (pos : Iterator) (val : α) : Podding β ℕ := do
  let s ← get
  -- The offset is compared as a `size_t`: one that is negative is out of range.
  verifyRange (0 ≤ pos ∧ pos ≤ s.vec.size)
  if cxx20 then
    emplaceBack sizeof mem val
    rotateLast pos.toNat
  else if pos = s.vec.size then emplaceBack sizeof mem val
  else
    openGap sizeof mem pos.toNat 1
    store pos.toNat [← mem.read val]
  return pos.toNat

/-- `erase` of a range -/
def eraseRange (first last : Iterator) : Podding α ℕ := do
  let s ← get
  verifyRange (first ≤ last ∧ 0 ≤ first ∧ last ≤ s.vec.size)
  copyWithin last.toNat (s.vec.size - last.toNat) first.toNat
  eos (first.toNat + (s.vec.size - last.toNat))
  return first.toNat

def erase (pos : Iterator) : Podding α ℕ := do
  let s ← get
  verifyRange (0 ≤ pos ∧ pos < s.vec.size)
  copyWithin (pos.toNat + 1) (s.vec.size - (pos.toNat + 1)) pos.toNat
  eos (pos.toNat + (s.vec.size - (pos.toNat + 1)))
  return pos.toNat

/-- `_Assign_range`, which does nothing with a range that starts at `_Myfirst`. -/
def assign (d : List α) : Podding β Unit := do
  if ¬ d.head?.any mem.isFirst then
    -- The elements are gone before the reallocation that may throw.
    eos 0
    if d ≠ [] then
      resize sizeof mem d.length
      store 0 (← d.mapM mem.read)

/-! ### Arguments outside -/

section

variable (grant : Option (Grant α))

theorem mapM_buffer_read (d : List α) :
    d.mapM (buffer sizeof grant).read = (pure d : Podding α (List α)) :=
  List.mapM_pure.trans (congrArg pure (List.map_id d))

theorem reallocate_buffer (policy : ReallocationPolicy) (size : ℕ) :
    reallocate sizeof (buffer sizeof grant) policy size = (do
      let s ← get
      let newCap := newCapacity sizeof s.vec size policy
      match reallocBlock sizeof s.heap s.vec.first newCap grant with
      | (some b, heap) =>
        set ({ vec := { s.vec with first := some b, res := newCap }, heap := heap } : PodState α)
      | (none, heap) => do
        set ({ s with heap := heap } : PodState α)
        throw .badAlloc) := rfl

theorem resizeAndOverwrite_buffer (newSize : ℕ) (written : List α) :
    resizeAndOverwrite sizeof (buffer sizeof grant) newSize written = (do
      reallocate sizeof (buffer sizeof grant) .exactly newSize
      store 0 written
      eos written.length) := by
  unfold resizeAndOverwrite
  simp only [mapM_buffer_read, pure_bind]

theorem append_buffer (a b : α) (d : List α) :
    append sizeof (buffer sizeof grant) (a :: b :: d) = (do
      let oldSize := (← get).vec.size
      expand sizeof (buffer sizeof grant) (a :: b :: d).length
      store oldSize (a :: b :: d)) := by
  unfold append
  simp only [mapM_buffer_read, pure_bind]

theorem insertRange_buffer (pos : Iterator) (range : Option (List α)) :
    insertRange sizeof (buffer sizeof grant) pos range = (do
      let s ← get
      verifyRange (0 ≤ pos ∧ pos ≤ s.vec.size ∧ range.isSome)
      let d := range.getD []
      if d ≠ [] then
        if pos = s.vec.size then append sizeof (buffer sizeof grant) d
        else
          openGap sizeof (buffer sizeof grant) pos.toNat d.length
          store pos.toNat d
      return pos.toNat) := by
  unfold insertRange
  simp only [mapM_buffer_read, pure_bind]

theorem assign_buffer (d : List α) :
    assign sizeof (buffer sizeof grant) d = (do
      eos 0
      if d ≠ [] then
        resize sizeof (buffer sizeof grant) d.length
        store 0 d) := by
  have houtside : ¬ d.head?.any (buffer sizeof grant).isFirst = true := by
    cases d with
    | nil => exact Bool.false_ne_true
    | cons val d => exact Bool.false_ne_true
  unfold assign
  rw [if_pos houtside]
  simp only [mapM_buffer_read, pure_bind]

end

/-- `at`, which `operator[]` is. -/
def atIndex (index : ℕ) : Podding α ℕ := do
  let s ← get
  verifyRange (index < s.vec.size)
  return index

/-- `front`, and `back` -/
def front : Podding α ℕ := do
  let s ← get
  verifyRange (s.vec.size ≠ 0)
  return 0

def back : Podding α ℕ := do
  let s ← get
  verifyRange (s.vec.size ≠ 0)
  return s.vec.size - 1

/-- `detach_abi` -/
def detachAbi : Podding α Unit := modify fun s => { s with vec := {} }

/-- `attach_abi` -/
def attachAbi (block : Option ℕ) (len : ℕ) : Podding α Unit := do
  tidy
  modify fun s => { s with vec := { first := block, size := len, res := len } }

end PodVector

/-- A call on one vector. -/
inductive PodOp (α : Type)
  | emplaceBack (val : α)
  | emplace (pos : Iterator) (val : α)
  | insertRange (pos : Iterator) (range : Option (List α))
  | insertFill (pos : Iterator) (count : ℕ) (val : α)
  | append (d : List α)
  | appendFill (count : ℕ) (val : α)
  | erase (pos : Iterator)
  | eraseRange (first last : Iterator)
  | resize (newSize : ℕ)
  | resizeFill (newSize : ℕ) (val : α)
  | expand (count : ℕ)
  | expandFill (count : ℕ) (val : α)
  | assign (d : List α)
  | clear
  | reserve (newCap : ℕ)
  | shrinkToFit
  | resizeAndOverwrite (newSize : ℕ) (written : List α)
  | atIndex (index : ℕ)
  | front
  | back
  | detachAbi
  | attachAbi (block : Option ℕ) (len : ℕ)

/-- The call, and the position that it returns. -/
def PodOp.runOver {α β : Type} (cxx20 : Bool) (sizeof : ℕ) (mem : PodMemory α β) :
    PodOp α → Podding β (Option ℕ)
  | emplaceBack val => do
    PodVector.emplaceBack sizeof mem val
    return none
  | emplace pos val => some <$> PodVector.emplace sizeof mem cxx20 pos val
  | insertRange pos range => some <$> PodVector.insertRange sizeof mem pos range
  | insertFill pos count val => some <$> PodVector.insertFill sizeof mem pos count val
  | append d => do
    PodVector.append sizeof mem d
    return none
  | appendFill count val => do
    PodVector.appendFill sizeof mem count val
    return none
  | erase pos => some <$> PodVector.erase pos
  | eraseRange first last => some <$> PodVector.eraseRange first last
  | resize newSize => do
    PodVector.resize sizeof mem newSize
    return none
  | resizeFill newSize val => do
    PodVector.resizeFill sizeof mem newSize val
    return none
  | expand count => do
    PodVector.expand sizeof mem count
    return none
  | expandFill count val => do
    PodVector.expandFill sizeof mem count val
    return none
  | assign d => do
    PodVector.assign sizeof mem d
    return none
  | clear => do
    PodVector.eos 0
    return none
  | reserve newCap => do
    PodVector.reserve sizeof mem newCap
    return none
  | shrinkToFit => do
    PodVector.shrinkToFit sizeof mem
    return none
  | resizeAndOverwrite newSize written => do
    PodVector.resizeAndOverwrite sizeof mem newSize written
    return none
  | atIndex index => some <$> PodVector.atIndex index
  | front => some <$> PodVector.front
  | back => some <$> PodVector.back
  | detachAbi => do
    PodVector.detachAbi
    return none
  | attachAbi block len => do
    PodVector.attachAbi block len
    return none

/-- The call over `buffer_allocator`, with arguments that do not lie in the vector. -/
def PodOp.run {α : Type} (cxx20 : Bool) (sizeof : ℕ) (grant : Option (Grant α)) (op : PodOp α) :
    Podding α (Option ℕ) :=
  op.runOver cxx20 sizeof (PodVector.buffer sizeof grant)

end Yasio
