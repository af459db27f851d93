import Mathlib.Algebra.Ring.Nat
import Mathlib.Data.List.Basic
import Mathlib.Data.List.Nodup
import Mathlib.Data.List.Perm.Basic
import Yasio.Lib.Chain
import Yasio.Lib.Machine

/-!
# `object_pool`

The blocks of a pool lie in chunks from the process heap.  The free ones form a linked list through
their own memory, and the chunks form one through their headers.
-/

namespace Yasio

open Linked

/-- `sizeof(void*)` -/
def sizeofPointer : ℕ := 8

/-- The constants of a pool.  `header` is `sizeof(chunk_link_node)`. -/
structure PoolShape where
  elementSize : ℕ
  elementCount : ℕ
  header : ℕ
  sizeLe : sizeofPointer ≤ elementSize
  countPos : 0 < elementCount
  headerLe : sizeofPointer ≤ header

/-- The members of the pool, the pointers in memory, and what has been allocated with `new` and not
been deleted, the last first. -/
structure ObjectPool where
  first : ℕ := 0
  chunk : ℕ := 0
  memory : ℕ → Option ℕ := fun _ => none
  heap : List ℕ := []

namespace PoolShape

variable (shape : PoolShape)

/-- How many bytes `new` is asked for. -/
def chunkBytes : ℕ := (shape.header + shape.elementSize * shape.elementCount) % 2 ^ 64

def firstof (chunk : ℕ) : ℕ := chunk + shape.header

/-- The loop of `tidy_chunk`. -/
def tidyLoop (ptr last : ℕ) (memory : ℕ → Option ℕ) : ℕ → Option ℕ :=
  if ptr < last then
    tidyLoop (ptr + shape.elementSize) last
      (store sizeofPointer ptr (ptr + shape.elementSize) memory)
  else memory
termination_by last - ptr
decreasing_by
  have hsize : 8 ≤ shape.elementSize := shape.sizeLe
  omega

def tidyChunk (chunk : ℕ) (memory : ℕ → Option ℕ) : ℕ × (ℕ → Option ℕ) :=
  let last := shape.firstof chunk + (shape.elementCount - 1) * shape.elementSize % 2 ^ 64
  (last, shape.tidyLoop (shape.firstof chunk) last memory)

end PoolShape

namespace ObjectPool

variable (shape : PoolShape)

def allocateFromChunk (current : ℕ) (s : ObjectPool) : Option (ℕ × ObjectPool) :=
  (s.memory current).map fun next => (current, { s with first := next })

/-- `new` answers with `newChunk`. -/
def allocateFromProcessHeap (newChunk : ℕ) (s : ObjectPool) : Option (ℕ × ObjectPool) :=
  let tidied := shape.tidyChunk newChunk s.memory
  let memory := store sizeofPointer tidied.1 0 tidied.2
  allocateFromChunk (shape.firstof newChunk)
    { s with
      memory := store sizeofPointer newChunk s.chunk memory
      chunk := newChunk
      heap := newChunk :: s.heap }

def get (newChunk : ℕ) (s : ObjectPool) : Option (ℕ × ObjectPool) :=
  if s.first ≠ 0 then allocateFromChunk s.first s else allocateFromProcessHeap shape newChunk s

def release (ptr : ℕ) (s : ObjectPool) : ObjectPool :=
  { s with memory := store sizeofPointer ptr s.first s.memory, first := ptr }

/-- The constructor that preallocates a chunk. -/
def create (newChunk : ℕ) : Option ObjectPool :=
  (allocateFromProcessHeap shape newChunk {}).map fun got => got.2.release got.1

/-- The loop of `purge`.  Deleting what is not allocated is undefined. -/
def purgeLoop : ℕ → ObjectPool → Option ObjectPool
  | 0, s => if s.chunk = 0 then some { s with first := 0 } else none
  | fuel + 1, s =>
    if s.chunk = 0 then some { s with first := 0 }
    else if s.chunk ∈ s.heap then
      (s.memory s.chunk).bind fun next =>
        purgeLoop fuel { s with chunk := next, heap := s.heap.erase s.chunk }
    else none

def purge (s : ObjectPool) : Option ObjectPool :=
  if s.chunk = 0 then some s else purgeLoop s.heap.length s

/-- The loop of `cleanup`. -/
def cleanupLoop : ℕ → ℕ → ℕ → (ℕ → Option ℕ) → Option (ℕ → Option ℕ)
  | 0, _, _, _ => none
  | fuel + 1, chunk, last, memory =>
    (memory chunk).bind fun next =>
      if next = 0 then some (store sizeofPointer last 0 memory)
      else
        let tidied := shape.tidyChunk next (store sizeofPointer last (shape.firstof next) memory)
        cleanupLoop fuel next tidied.1 tidied.2

def cleanup (s : ObjectPool) : Option ObjectPool :=
  if s.chunk = 0 then some s
  else
    let tidied := shape.tidyChunk s.chunk s.memory
    (cleanupLoop shape s.heap.length s.chunk tidied.1 tidied.2).map fun memory =>
      { s with memory, first := shape.firstof s.chunk }

end ObjectPool

/-! ## The pool and its users -/

/-- The pool, the blocks that were got and not released, and whether a call has read memory that
holds no pointer, deleted what is not allocated or not come to an end. -/
structure PoolWorld where
  pool : ObjectPool := {}
  outstanding : List ℕ := []
  fault : Bool := false

/-- The users' calls, and what they write to memory.  `get` knows what `new` will answer. -/
inductive PoolOp
  | get (newChunk : ℕ)
  | release (ptr : ℕ)
  | cleanup
  | purge
  | write (values : ℕ → Option ℕ)

namespace PoolWorld

variable (shape : PoolShape)

/-- So many bytes from an address on are not allocated. -/
def Fresh (newChunk : ℕ) (heap : List ℕ) : Prop :=
  newChunk ≠ 0 ∧ ∀ chunk ∈ heap, Apart shape.chunkBytes newChunk chunk

instance (newChunk : ℕ) (heap : List ℕ) : Decidable (Fresh shape newChunk heap) :=
  inferInstanceAs (Decidable (_ ∧ _))

/-- A pointer at the address lies in a chunk, and in no block that a user has. -/
def Kept (w : PoolWorld) (a : ℕ) : Prop :=
  (∃ chunk ∈ w.pool.heap, chunk ≤ a ∧ a + sizeofPointer ≤ chunk + shape.chunkBytes) ∧
    ∀ p ∈ w.outstanding, a + sizeofPointer ≤ p ∨ p + shape.elementSize ≤ a

instance (w : PoolWorld) (a : ℕ) : Decidable (w.Kept shape a) :=
  inferInstanceAs (Decidable (_ ∧ _))

def start : Option ℕ → PoolWorld
  | none => {}
  | some newChunk => ((ObjectPool.create shape newChunk).map fun pool => { pool }).getD
      { fault := true }

/-- After `cleanup` and `purge` no block is used that was got before. -/
def step : PoolOp → PoolWorld → Option PoolWorld
  | .get newChunk, w =>
    if Fresh shape newChunk w.pool.heap then
      some (match w.pool.get shape newChunk with
        | some (p, pool) => { w with pool, outstanding := p :: w.outstanding }
        | none => { w with fault := true })
    else none
  | .release ptr, w =>
    if ptr ∈ w.outstanding then
      some { w with pool := w.pool.release ptr, outstanding := w.outstanding.erase ptr }
    else none
  | .cleanup, w =>
    some (match w.pool.cleanup shape with
      | some pool => { w with pool, outstanding := [] }
      | none => { w with fault := true })
  | .purge, w =>
    some (match w.pool.purge with
      | some pool => { w with pool, outstanding := [] }
      | none => { w with fault := true })
  | .write values, w =>
    let memory := fun a => if w.Kept shape a then w.pool.memory a else values a
    some { w with pool := { w.pool with memory } }

end PoolWorld

/-! ## The blocks of the chunks -/

namespace PoolShape

variable {shape : PoolShape}

/-- The bytes of a chunk are a `size_t`. -/
def Fits (shape : PoolShape) : Prop :=
  shape.header + shape.elementSize * shape.elementCount < 2 ^ 64

def slotsOf (shape : PoolShape) (chunk : ℕ) : List ℕ :=
  (List.range shape.elementCount).map fun i => shape.firstof chunk + i * shape.elementSize

def slots (shape : PoolShape) (heap : List ℕ) : List ℕ := heap.flatMap shape.slotsOf

theorem chunkBytes_of_fits (hfits : shape.Fits) :
    shape.chunkBytes = shape.header + shape.elementSize * shape.elementCount :=
  Nat.mod_eq_of_lt hfits

theorem sizeofPointer_pos : 0 < sizeofPointer := by decide

/-- A block lies behind the header of its chunk and in the chunk. -/
theorem bounds_of_mem_slotsOf (hfits : shape.Fits) {chunk p : ℕ} (h : p ∈ shape.slotsOf chunk) :
    chunk + shape.header ≤ p ∧ p + shape.elementSize ≤ chunk + shape.chunkBytes := by
  obtain ⟨i, hi, rfl⟩ := List.mem_map.1 h
  have hlast : (i + 1) * shape.elementSize ≤ shape.elementCount * shape.elementSize :=
    Nat.mul_le_mul_right _ (List.mem_range.1 hi)
  rw [chunkBytes_of_fits hfits, firstof, Nat.mul_comm shape.elementSize]
  rw [Nat.succ_mul] at hlast
  omega

theorem pairwise_slotsOf (chunk : ℕ) :
    (shape.slotsOf chunk).Pairwise (Apart shape.elementSize) := by
  refine List.pairwise_map.2 (List.pairwise_lt_range.imp ?_)
  intro i j hij
  have hnext : (i + 1) * shape.elementSize ≤ j * shape.elementSize := Nat.mul_le_mul_right _ hij
  rw [Nat.succ_mul] at hnext
  exact .inl (by omega)

theorem eq_or_apart {width : ℕ} {l : List ℕ} (h : l.Pairwise (Apart width)) {a b : ℕ} (ha : a ∈ l)
    (hb : b ∈ l) : a = b ∨ Apart width a b := by
  have hor : l.Pairwise fun a b => a = b ∨ Apart width a b := h.imp .inr
  have hflip : l.Pairwise (flip fun a b => a = b ∨ Apart width a b) :=
    h.imp fun hab => .inr hab.symm
  exact List.Pairwise.forall_of_forall_of_flip (fun _ _ => .inl rfl) hor hflip ha hb

/-- Blocks of two chunks. -/
theorem apart_of_mem_slotsOf (hfits : shape.Fits) {c d p q : ℕ} (h : Apart shape.chunkBytes c d)
    (hp : p ∈ shape.slotsOf c) (hq : q ∈ shape.slotsOf d) : Apart shape.elementSize p q := by
  have hc := bounds_of_mem_slotsOf hfits hp
  have hd := bounds_of_mem_slotsOf hfits hq
  exact h.imp (fun _ => by omega) (fun _ => by omega)

theorem pairwise_slots (hfits : shape.Fits) {heap : List ℕ}
    (h : heap.Pairwise (Apart shape.chunkBytes)) :
    (shape.slots heap).Pairwise (Apart shape.elementSize) :=
  List.pairwise_flatMap.2 ⟨fun c _ => pairwise_slotsOf c,
    h.imp fun hcd _ hp _ hq => apart_of_mem_slotsOf hfits hcd hp hq⟩

/-- The header of a chunk and the blocks of all chunks. -/
theorem header_apart (hfits : shape.Fits) {heap : List ℕ}
    (h : heap.Pairwise (Apart shape.chunkBytes)) {c p : ℕ} (hc : c ∈ heap)
    (hp : p ∈ shape.slots heap) : c + sizeofPointer ≤ p ∨ p + shape.elementSize ≤ c := by
  obtain ⟨d, hd, hp⟩ := List.mem_flatMap.1 hp
  have hbounds := bounds_of_mem_slotsOf hfits hp
  have hheader := shape.headerLe
  rcases eq_or_apart h hd hc with rfl | hcd
  · exact .inl (by omega)
  · have hbytes := chunkBytes_of_fits hfits
    exact hcd.symm.imp (fun _ => by omega) (fun _ => by omega)

theorem apart_header (hfits : shape.Fits) {heap : List ℕ}
    (h : heap.Pairwise (Apart shape.chunkBytes)) {c p : ℕ} (hc : c ∈ heap)
    (hp : p ∈ shape.slots heap) : Apart sizeofPointer p c := by
  have hsize := shape.sizeLe
  exact (header_apart hfits h hc hp).symm.imp (fun _ => by omega) id

theorem length_slots (heap : List ℕ) :
    (shape.slots heap).length = heap.length * shape.elementCount := by
  induction heap with
  | nil => exact (Nat.zero_mul _).symm
  | cons c heap ih =>
    rw [slots, List.flatMap_cons, List.length_append, slotsOf, List.length_map, List.length_range,
      List.length_cons, Nat.succ_mul, Nat.add_comm]
    exact congrArg (· + _) ih

/-! ## Tidying a chunk -/

theorem tidyLoop_spec (n : ℕ) {ptr : ℕ} (hptr : ptr ≠ 0) (memory : ℕ → Option ℕ) :
    let tidied := shape.tidyLoop ptr (ptr + n * shape.elementSize) memory
    Chain tidied ptr ((List.range n).map fun i => ptr + i * shape.elementSize)
        (ptr + n * shape.elementSize) ∧
      ∀ a, (∀ i < n, Apart sizeofPointer (ptr + i * shape.elementSize) a) →
        tidied a = memory a := by
  induction n generalizing ptr memory with
  | zero =>
    rw [Nat.zero_mul, Nat.add_zero, tidyLoop, if_neg (Nat.lt_irrefl ptr)]
    exact ⟨rfl, fun a _ => rfl⟩
  | succ n ih =>
    have hsize : 8 ≤ shape.elementSize := shape.sizeLe
    have hlast : ptr + (n + 1) * shape.elementSize =
        ptr + shape.elementSize + n * shape.elementSize := by
      rw [Nat.succ_mul]
      omega
    have hnext : ∀ i, ptr + (i + 1) * shape.elementSize =
        ptr + shape.elementSize + i * shape.elementSize := by
      intro i
      rw [Nat.succ_mul]
      omega
    obtain ⟨hchain, hframe⟩ := ih (by omega : ptr + shape.elementSize ≠ 0)
      (store sizeofPointer ptr (ptr + shape.elementSize) memory)
    rw [tidyLoop, if_pos (by rw [hlast]; omega), hlast]
    constructor
    · rw [List.range_succ_eq_map, List.map_cons, List.map_map, Nat.zero_mul, Nat.add_zero]
      refine ⟨rfl, hptr, ptr + shape.elementSize, ?_, ?_⟩
      · rw [hframe ptr fun i _ => .inr ?_, store_same]
        change ptr + 8 ≤ _
        omega
      · simpa only [Function.comp_def, Nat.succ_eq_add_one, hnext] using hchain
    · intro a ha
      have hfirst : Apart sizeofPointer ptr a := by
        simpa only [Nat.zero_mul, Nat.add_zero] using ha 0 (Nat.succ_pos n)
      rw [hframe a fun i hi => hnext i ▸ ha (i + 1) (Nat.succ_lt_succ hi),
        store_of_apart sizeofPointer_pos hfirst]

/-- What `tidy_chunk` leaves: the blocks are linked up to the last, and no other memory is
written. -/
structure Tidied (shape : PoolShape) (chunk : ℕ) (memory : ℕ → Option ℕ) (last : ℕ)
    (memory' : ℕ → Option ℕ) : Prop where
  last_mem : last ∈ shape.slotsOf chunk
  linked : ∀ v, Chain (store sizeofPointer last v memory') (shape.firstof chunk)
    (shape.slotsOf chunk) v
  frame : ∀ a, (∀ p ∈ shape.slotsOf chunk, Apart sizeofPointer p a) → memory' a = memory a

theorem tidyChunk_spec (hfits : shape.Fits) {chunk : ℕ} (hchunk : chunk ≠ 0)
    (memory : ℕ → Option ℕ) :
    let tidied := shape.tidyChunk chunk memory
    shape.Tidied chunk memory tidied.1 tidied.2 := by
  obtain ⟨n, hn⟩ := Nat.exists_eq_add_one.2 shape.countPos
  have hoffset : (shape.elementCount - 1) * shape.elementSize % 2 ^ 64 = n * shape.elementSize := by
    rw [hn, Nat.add_sub_cancel]
    refine Nat.mod_eq_of_lt (Nat.lt_of_le_of_lt ?_ hfits)
    rw [hn, Nat.mul_comm shape.elementSize, Nat.succ_mul]
    omega
  have hslots : shape.slotsOf chunk =
      ((List.range n).map fun i => shape.firstof chunk + i * shape.elementSize) ++
        [shape.firstof chunk + n * shape.elementSize] := by
    rw [slotsOf, hn, List.range_succ, List.map_append]
    rfl
  have hfirst : shape.firstof chunk ≠ 0 := by
    unfold firstof
    omega
  obtain ⟨hchain, hframe⟩ := shape.tidyLoop_spec n hfirst memory
  have hpairs : (shape.slotsOf chunk).Pairwise (Apart shape.elementSize) := pairwise_slotsOf chunk
  rw [hslots, List.pairwise_append] at hpairs
  have hlast : shape.firstof chunk + n * shape.elementSize ≠ 0 := by omega
  intro tidied
  simp only [tidied, tidyChunk, hoffset]
  refine ⟨?_, fun v => ?_, fun a ha => hframe a fun i hi => ha _ ?_⟩
  · rw [hslots]
    exact List.mem_append_right _ (List.mem_singleton_self _)
  · rw [hslots]
    refine hchain.concat sizeofPointer_pos hlast fun x hx => ?_
    exact ((hpairs.2.2 x hx _ (List.mem_singleton_self _)).mono shape.sizeLe).symm
  · rw [hslots]
    exact List.mem_append_left _ (List.mem_map.2 ⟨i, List.mem_range.2 hi, rfl⟩)

end PoolShape

/-! ## Cleaning up -/

namespace ObjectPool

variable {shape : PoolShape}

theorem cleanupLoop_spec (hfits : shape.Fits) {chunk : ℕ} {chunks : List ℕ}
    (hapart : (chunk :: chunks).Pairwise (Apart shape.chunkBytes)) {memory₀ : ℕ → Option ℕ}
    {last : ℕ} {memory : ℕ → Option ℕ} (htidied : shape.Tidied chunk memory₀ last memory)
    (hchain : Chain memory chunk (chunk :: chunks) 0) :
    ∃ memory', cleanupLoop shape (chunk :: chunks).length chunk last memory = some memory' ∧
      Chain memory' (shape.firstof chunk) (shape.slots (chunk :: chunks)) 0 ∧
      ∀ a, (∀ p ∈ shape.slots (chunk :: chunks), Apart sizeofPointer p a) →
        memory' a = memory₀ a := by
  induction chunks generalizing chunk memory₀ last memory with
  | nil =>
    obtain ⟨-, -, next, hnext, hend⟩ := hchain
    obtain rfl : next = 0 := hend
    refine ⟨store sizeofPointer last 0 memory, ?_, ?_, fun a ha => ?_⟩
    · rw [List.length_singleton, cleanupLoop, hnext, Option.bind_some, if_pos rfl]
    · simpa [PoolShape.slots] using htidied.linked 0
    · have ha' : ∀ p ∈ shape.slotsOf chunk, Apart sizeofPointer p a := by
        simpa [PoolShape.slots] using ha
      rw [store_of_apart PoolShape.sizeofPointer_pos (ha' last htidied.last_mem),
        htidied.frame a ha']
  | cons chunk' chunks ih =>
    obtain ⟨-, -, next, hnext, hrest⟩ := hchain
    obtain rfl : next = chunk' := hrest.1
    have hmem : ∀ c ∈ next :: chunks, ∀ p ∈ shape.slots (chunk :: next :: chunks),
        Apart sizeofPointer p c := fun c hc p hp =>
      PoolShape.apart_header hfits hapart (List.mem_cons_of_mem chunk hc) hp
    have hfirst : ∀ p ∈ shape.slotsOf chunk, p ∈ shape.slots (chunk :: next :: chunks) :=
      fun p hp => List.mem_flatMap.2 ⟨chunk, List.mem_cons_self, hp⟩
    have hothers : ∀ p ∈ shape.slots (next :: chunks),
        p ∈ shape.slots (chunk :: next :: chunks) := by
      intro p hp
      rw [PoolShape.slots, List.flatMap_cons]
      exact List.mem_append_right _ hp
    have hnextSlots : ∀ p ∈ shape.slotsOf next, p ∈ shape.slots (next :: chunks) :=
      fun p hp => List.mem_flatMap.2 ⟨next, List.mem_cons_self, hp⟩
    -- the blocks of the first chunk lead to those of the next one
    have hlinked := htidied.linked (shape.firstof next)
    have htidied' := PoolShape.tidyChunk_spec hfits hrest.2.1
      (store sizeofPointer last (shape.firstof next) memory)
    obtain ⟨memory', hloop, hslots, hframe⟩ := ih (List.pairwise_cons.1 hapart).2 htidied' <|
      hrest.congr fun c hc => by
        rw [htidied'.frame c fun p hp => hmem c hc p (hothers p (hnextSlots p hp)),
          store_of_apart PoolShape.sizeofPointer_pos
            (hmem c hc last (hfirst last htidied.last_mem))]
    refine ⟨memory', ?_, ?_, fun a ha => ?_⟩
    · rw [List.length_cons, cleanupLoop, hnext, Option.bind_some, if_neg hrest.2.1]
      exact hloop
    · rw [PoolShape.slots, List.flatMap_cons]
      have hpairs := PoolShape.pairwise_slots hfits hapart
      rw [PoolShape.slots, List.flatMap_cons, List.pairwise_append] at hpairs
      refine (hlinked.congr fun p hp => hframe p fun q hq => ?_).append hslots
      exact ((hpairs.2.2 p hp q hq).mono shape.sizeLe).symm
    · rw [hframe a fun p hp => ha p (hothers p hp),
        store_of_apart PoolShape.sizeofPointer_pos (ha last (hfirst last htidied.last_mem)),
        htidied.frame a fun p hp => ha p (hfirst p hp)]

/-- The loop of `purge` deletes every chunk. -/
theorem purgeLoop_spec (memory : ℕ → Option ℕ) (first : ℕ) {chunk : ℕ} {heap : List ℕ}
    (h : Chain memory chunk heap 0) :
    purgeLoop heap.length { first, chunk, memory, heap } = some { memory } := by
  induction heap generalizing chunk with
  | nil =>
    obtain rfl : chunk = 0 := h
    exact if_pos rfl
  | cons c heap ih =>
    obtain ⟨rfl, hchunk, next, hnext, hrest⟩ := h
    rw [List.length_cons, purgeLoop, if_neg hchunk, if_pos List.mem_cons_self]
    dsimp only
    rw [hnext, Option.bind_some, List.erase_cons_head, ih hrest]

end ObjectPool

/-! ## The invariant -/

namespace PoolWorld

variable {shape : PoolShape} {w w' : PoolWorld}

/-- The free blocks and those that were got are the blocks of the chunks. -/
structure Inv (shape : PoolShape) (w : PoolWorld) (free : List ℕ) : Prop where
  noFault : w.fault = false
  chunks : Chain w.pool.memory w.pool.chunk w.pool.heap 0
  links : Chain w.pool.memory w.pool.first free 0
  perm : (free ++ w.outstanding).Perm (shape.slots w.pool.heap)
  apart : w.pool.heap.Pairwise (Apart shape.chunkBytes)

/-- What the pool promises. -/
def Sound (shape : PoolShape) (w : PoolWorld) : Prop :=
  w.fault = false ∧
    ∃ free : List ℕ,
      Chain w.pool.memory w.pool.first free 0 ∧ free.Nodup ∧
      Chain w.pool.memory w.pool.chunk w.pool.heap 0 ∧
      (∀ p ∈ free ++ w.outstanding, p ∈ shape.slots w.pool.heap) ∧
      w.outstanding.Pairwise (Apart shape.elementSize) ∧
      (∀ p ∈ w.outstanding, ∀ q ∈ free, Apart shape.elementSize p q) ∧
      free.length + w.outstanding.length = w.pool.heap.length * shape.elementCount

namespace Inv

variable {free : List ℕ}

theorem pairwise (h : Inv shape w free) (hfits : shape.Fits) :
    (free ++ w.outstanding).Pairwise (Apart shape.elementSize) :=
  (PoolShape.pairwise_slots hfits h.apart).perm h.perm.symm Apart.symm

theorem sound (h : Inv shape w free) (hfits : shape.Fits) : Sound shape w := by
  obtain ⟨hfree, hout, hboth⟩ := List.pairwise_append.1 (h.pairwise hfits)
  have hpos : 0 < shape.elementSize := Nat.lt_of_lt_of_le (by decide) shape.sizeLe
  have hlength := h.perm.length_eq
  rw [List.length_append, PoolShape.length_slots] at hlength
  exact ⟨h.noFault, free, h.links, hfree.imp fun hpq => hpq.ne hpos, h.chunks,
    fun p hp => h.perm.mem_iff.1 hp, hout, fun p hp q hq => (hboth q hq p hp).symm, hlength⟩

/-- The users write to their own blocks and to memory that is not the pool's. -/
theorem write (h : Inv shape w free) (hfits : shape.Fits) (values : ℕ → Option ℕ)
    (hstep : step shape (.write values) w = some w') : Inv shape w' free := by
  obtain rfl := Option.some.inj hstep
  have hbytes := PoolShape.chunkBytes_of_fits hfits
  have hheader := shape.headerLe
  have hsize := shape.sizeLe
  have hout : ∀ p ∈ w.outstanding, p ∈ shape.slots w.pool.heap :=
    fun p hp => h.perm.mem_iff.1 (List.mem_append_right free hp)
  have hchunks : ∀ c ∈ w.pool.heap, w.Kept shape c := fun c hc =>
    ⟨⟨c, hc, Nat.le_refl c, by omega⟩,
      fun p hp => PoolShape.header_apart hfits h.apart hc (hout p hp)⟩
  have hfree : ∀ q ∈ free, w.Kept shape q := by
    intro q hq
    obtain ⟨c, hc, hslot⟩ := List.mem_flatMap.1 (h.perm.mem_iff.1 (List.mem_append_left _ hq))
    have hbounds := PoolShape.bounds_of_mem_slotsOf hfits hslot
    refine ⟨⟨c, hc, by omega, by omega⟩, fun p hp => ?_⟩
    exact ((List.pairwise_append.1 (h.pairwise hfits)).2.2 q hq p hp).imp (fun _ => by omega) id
  exact ⟨h.noFault, h.chunks.congr fun c hc => if_pos (hchunks c hc),
    h.links.congr fun q hq => if_pos (hfree q hq), h.perm, h.apart⟩

theorem release (h : Inv shape w free) (hfits : shape.Fits) {ptr : ℕ}
    (hstep : step shape (.release ptr) w = some w') : Inv shape w' (ptr :: free) := by
  obtain ⟨hptr, hstep⟩ := Option.ite_none_right_eq_some.1 hstep
  obtain rfl := Option.some.inj hstep
  have hslot : ptr ∈ shape.slots w.pool.heap :=
    h.perm.mem_iff.1 (List.mem_append_right free hptr)
  have hfree : ∀ q ∈ free, Apart sizeofPointer ptr q := fun q hq =>
    ((List.pairwise_append.1 (h.pairwise hfits)).2.2 q hq ptr hptr).symm.mono shape.sizeLe
  have hnull : ptr ≠ 0 := by
    obtain ⟨c, hc, hslot⟩ := List.mem_flatMap.1 hslot
    have hbounds := PoolShape.bounds_of_mem_slotsOf hfits hslot
    have hne := h.chunks.ne_zero c hc
    omega
  refine ⟨h.noFault, h.chunks.store PoolShape.sizeofPointer_pos fun c hc =>
    PoolShape.apart_header hfits h.apart hc hslot,
    h.links.cons PoolShape.sizeofPointer_pos hnull hfree, ?_, h.apart⟩
  refine List.Perm.trans ?_ h.perm
  exact List.perm_middle.symm.trans ((List.perm_cons_erase hptr).symm.append_left free)

/-- Without a chunk there is no block. -/
theorem eq_nil (h : Inv shape w free) (hchunk : w.pool.chunk = 0) :
    w.pool.heap = [] ∧ free = [] := by
  have hchunks := h.chunks
  rw [hchunk] at hchunks
  have hperm := h.perm
  rw [hchunks.eq_nil] at hperm
  exact ⟨hchunks.eq_nil, (List.append_eq_nil_iff.1 (List.perm_nil.1 hperm)).1⟩

theorem purge (h : Inv shape w free) (hstep : step shape .purge w = some w') :
    Inv shape w' [] := by
  obtain ⟨⟨first, chunk, memory, heap⟩, outstanding, fault⟩ := w
  obtain rfl : fault = false := h.noFault
  obtain rfl := Option.some.inj hstep
  by_cases hchunk : chunk = 0
  · obtain rfl := hchunk
    obtain ⟨rfl, rfl⟩ : heap = [] ∧ free = [] := h.eq_nil rfl
    exact ⟨rfl, h.chunks, h.links, .refl _, .nil⟩
  · have hpurge : ObjectPool.purge { first, chunk, memory, heap } = some { memory } := by
      rw [ObjectPool.purge, if_neg hchunk]
      exact ObjectPool.purgeLoop_spec memory first h.chunks
    rw [hpurge]
    exact ⟨rfl, rfl, rfl, .refl _, .nil⟩

theorem cleanup (h : Inv shape w free) (hfits : shape.Fits)
    (hstep : step shape .cleanup w = some w') : Inv shape w' (shape.slots w.pool.heap) := by
  obtain ⟨⟨first, chunk, memory, heap⟩, outstanding, fault⟩ := w
  obtain rfl : fault = false := h.noFault
  obtain rfl := Option.some.inj hstep
  by_cases hchunk : chunk = 0
  · obtain rfl := hchunk
    obtain ⟨rfl, rfl⟩ : heap = [] ∧ free = [] := h.eq_nil rfl
    exact ⟨rfl, h.chunks, h.links, .refl _, .nil⟩
  · obtain ⟨chunks, next, hheap, -, -⟩ := h.chunks.exists_cons hchunk
    obtain rfl : heap = chunk :: chunks := hheap
    have hapart := h.apart
    have htidied := PoolShape.tidyChunk_spec hfits hchunk memory
    have hheaders : ∀ memory' : ℕ → Option ℕ,
        (∀ a, (∀ p ∈ shape.slots (chunk :: chunks), Apart sizeofPointer p a) →
          memory' a = memory a) → Chain memory' chunk (chunk :: chunks) 0 := fun memory' hframe =>
      h.chunks.congr fun c hc => hframe c fun p hp => PoolShape.apart_header hfits hapart hc hp
    have hfirst : ∀ p ∈ shape.slotsOf chunk, p ∈ shape.slots (chunk :: chunks) :=
      fun p hp => List.mem_flatMap.2 ⟨chunk, List.mem_cons_self, hp⟩
    obtain ⟨memory', hloop, hslots, hframe⟩ := ObjectPool.cleanupLoop_spec hfits hapart htidied
      (hheaders _ fun a ha => htidied.frame a fun p hp => ha p (hfirst p hp))
    have hcleanup : ObjectPool.cleanup shape { first, chunk, memory, heap := chunk :: chunks } =
        some { first := shape.firstof chunk, chunk, memory := memory',
               heap := chunk :: chunks } := by
      rw [ObjectPool.cleanup, if_neg hchunk]
      dsimp only
      rw [hloop]
      rfl
    rw [hcleanup]
    exact ⟨rfl, hheaders memory' hframe, hslots, by rw [List.append_nil], hapart⟩

/-- A block from the free list. -/
theorem allocateFromChunk (h : Inv shape w free) (hfirst : w.pool.first ≠ 0) :
    ∃ pool free', w.pool.allocateFromChunk w.pool.first = some (w.pool.first, pool) ∧
      Inv shape { w with pool, outstanding := w.pool.first :: w.outstanding } free' := by
  obtain ⟨free', next, rfl, hnext, hlinks⟩ := h.links.exists_cons hfirst
  refine ⟨{ w.pool with first := next }, free', ?_, h.noFault, h.chunks, hlinks, ?_, h.apart⟩
  · rw [ObjectPool.allocateFromChunk, hnext]
    rfl
  · exact List.perm_middle.trans h.perm

/-- The first block of a new chunk. -/
theorem allocateFromProcessHeap (h : Inv shape w []) (hfits : shape.Fits) {newChunk : ℕ}
    (hfresh : Fresh shape newChunk w.pool.heap) :
    ∃ p pool free', w.pool.allocateFromProcessHeap shape newChunk = some (p, pool) ∧
      Inv shape { w with pool, outstanding := p :: w.outstanding } free' := by
  obtain ⟨hnull, hapart⟩ := hfresh
  have hpairs : (newChunk :: w.pool.heap).Pairwise (Apart shape.chunkBytes) :=
    List.pairwise_cons.2 ⟨hapart, h.apart⟩
  have hheaders : ∀ c ∈ newChunk :: w.pool.heap, ∀ p ∈ shape.slotsOf newChunk,
      Apart sizeofPointer p c := fun c hc p hp =>
    PoolShape.apart_header hfits hpairs hc (List.mem_flatMap.2 ⟨newChunk, List.mem_cons_self, hp⟩)
  have htidied := PoolShape.tidyChunk_spec hfits hnull w.pool.memory
  have hlinks := (htidied.linked 0).store (v := w.pool.chunk) PoolShape.sizeofPointer_pos
    fun p hp => (hheaders newChunk List.mem_cons_self p hp).symm
  have hfirst : shape.firstof newChunk ≠ 0 := by
    unfold PoolShape.firstof
    omega
  have hwidth : sizeofPointer ≤ shape.chunkBytes := by
    rw [PoolShape.chunkBytes_of_fits hfits]
    exact Nat.le_trans shape.headerLe (Nat.le_add_right _ _)
  obtain ⟨rest, next, hslots, hnext, hrest⟩ := hlinks.exists_cons hfirst
  let tidied := shape.tidyChunk newChunk w.pool.memory
  refine ⟨shape.firstof newChunk,
    { first := next
      chunk := newChunk
      memory := store sizeofPointer newChunk w.pool.chunk (store sizeofPointer tidied.1 0 tidied.2)
      heap := newChunk :: w.pool.heap }, rest, ?_, h.noFault, ?_, hrest, ?_, hpairs⟩
  · rw [ObjectPool.allocateFromProcessHeap, ObjectPool.allocateFromChunk]
    dsimp only
    rw [hnext]
    rfl
  · refine ⟨rfl, hnull, w.pool.chunk, store_same _ _ _ _, h.chunks.congr fun c hc => ?_⟩
    have hc' := List.mem_cons_of_mem newChunk hc
    have hlast : store sizeofPointer tidied.1 0 tidied.2 c = w.pool.memory c := by
      rw [store_of_apart PoolShape.sizeofPointer_pos (hheaders c hc' _ htidied.last_mem)]
      exact htidied.frame c fun p hp => hheaders c hc' p hp
    exact (store_of_apart PoolShape.sizeofPointer_pos ((hapart c hc).mono hwidth)).trans hlast
  · rw [PoolShape.slots, List.flatMap_cons, hslots]
    exact List.perm_middle.trans ((h.perm.append_left rest).cons _)

theorem get (h : Inv shape w free) (hfits : shape.Fits) {newChunk : ℕ}
    (hstep : step shape (.get newChunk) w = some w') : ∃ free', Inv shape w' free' := by
  obtain ⟨hfresh, hstep⟩ := Option.ite_none_right_eq_some.1 hstep
  obtain rfl := Option.some.inj hstep
  by_cases hfirst : w.pool.first = 0
  · have hlinks := h.links
    rw [hfirst] at hlinks
    obtain rfl : free = [] := hlinks.eq_nil
    obtain ⟨p, pool, free', hpool, hinv⟩ := h.allocateFromProcessHeap hfits hfresh
    rw [ObjectPool.get, if_neg (not_not_intro hfirst), hpool]
    exact ⟨free', hinv⟩
  · obtain ⟨pool, free', hpool, hinv⟩ := h.allocateFromChunk hfirst
    rw [ObjectPool.get, if_pos hfirst, hpool]
    exact ⟨free', hinv⟩

end Inv

theorem inv_empty : Inv shape {} [] := ⟨rfl, rfl, rfl, .refl _, .nil⟩

theorem inv_start (hfits : shape.Fits) (prealloc : Option ℕ) (hnull : 0 ∉ prealloc) :
    ∃ free, Inv shape (start shape prealloc) free := by
  cases prealloc with
  | none => exact ⟨[], inv_empty⟩
  | some newChunk =>
    have hfresh : Fresh shape newChunk [] :=
      ⟨fun h => hnull (h ▸ rfl), fun c hc => absurd hc List.not_mem_nil⟩
    obtain ⟨p, pool, free, hpool, hinv⟩ := inv_empty.allocateFromProcessHeap hfits hfresh
    have hcreate : ObjectPool.create shape newChunk = some (pool.release p) := by
      rw [ObjectPool.create]
      dsimp only at hpool
      rw [hpool]
      rfl
    refine ⟨p :: free, ?_⟩
    rw [start, hcreate]
    refine hinv.release hfits ((if_pos List.mem_cons_self).trans ?_)
    rw [List.erase_cons_head]
    rfl

theorem inv_step (hfits : shape.Fits) (s : PoolWorld) (op : PoolOp) (s' : PoolWorld)
    (h : ∃ free, Inv shape s free) (hstep : step shape op s = some s') :
    ∃ free, Inv shape s' free := by
  obtain ⟨free, h⟩ := h
  cases op with
  | get newChunk => exact h.get hfits hstep
  | release ptr => exact ⟨ptr :: free, h.release hfits hstep⟩
  | cleanup => exact ⟨_, h.cleanup hfits hstep⟩
  | purge => exact ⟨[], h.purge hstep⟩
  | write values => exact ⟨free, h.write hfits values hstep⟩

/-- No run of a pool whose chunks can be allocated hands out a block twice. -/
theorem sound_of_run (hfits : shape.Fits) {prealloc : Option ℕ} (hnull : 0 ∉ prealloc)
    {ops : List PoolOp} (hrun : Machine.run (step shape) ops (start shape prealloc) = some w) :
    Sound shape w := by
  obtain ⟨free, h⟩ :=
    Machine.invariant_of_run (inv_step hfits) (inv_start hfits prealloc hnull) hrun
  exact h.sound hfits

/-- Three blocks of a pool with two to a chunk, one of them released before the pool is cleaned
up. -/
theorem sound_threeBlocks :
    let shape : PoolShape := ⟨16, 2, 32, by decide, by decide, by decide⟩
    ∃ w, Machine.run (step shape)
        [.get 4096, .get 4096, .get 4096, .release 112, .cleanup, .get 8192, .purge]
        (start shape (some 64)) = some w ∧ Sound shape w := by
  intro shape
  have hsome : (Machine.run (step shape)
      [.get 4096, .get 4096, .get 4096, .release 112, .cleanup, .get 8192, .purge]
      (start shape (some 64))).isSome := by decide +kernel
  obtain ⟨w, hrun⟩ := Option.isSome_iff_exists.1 hsome
  exact ⟨w, hrun, sound_of_run (by unfold PoolShape.Fits; decide) (by decide) hrun⟩

/-- Four blocks of `2^62` bytes and a header: `new` is asked for the header only.  A chunk may then
begin behind it, and its first block is one that was handed out. -/
theorem not_sound_wide : ¬ ∀ (shape : PoolShape) (prealloc : Option ℕ) (ops : List PoolOp)
    (w : PoolWorld), 0 ∉ prealloc →
      Machine.run (step shape) ops (start shape prealloc) = some w → Sound shape w := by
  intro hall
  let shape : PoolShape := ⟨2 ^ 62, 4, 32, by decide, by decide, by decide⟩
  let next := 1024 + 2 ^ 62
  obtain ⟨w, hrun, hout⟩ := Machine.exists_of_any (step shape)
    [.get 1024, .get next, .get next, .get next, .get next] (start shape none)
    (fun w => w.outstanding = [next + 32, 1056 + 3 * 2 ^ 62, 1056 + 2 * 2 ^ 62, next + 32, 1056])
    (by decide +kernel)
  obtain ⟨-, free, -, -, -, -, hapart, -⟩ := hall shape none _ w (by decide) hrun
  rw [hout] at hapart
  have hself : Apart (2 ^ 62) (next + 32) (next + 32) :=
    List.rel_of_pairwise_cons hapart (by simp)
  exact absurd hself (by decide)

end PoolWorld

end Yasio
