import Yasio.PodVector

/-!
# The other allocator

`std_buffer_allocator` is written by hand over `new` and `delete[]`.
-/

namespace Yasio

/-- The bytes of an element; one that nobody has written may be anything. -/
abbrev Element (sizeof : ℕ) := Fin sizeof → Option UInt8

def Element.unwritten (sizeof : ℕ) : Element sizeof := fun _ => none

/-- `memcpy` of `n` bytes between blocks of elements. -/
def memcpy {sizeof : ℕ} (target source : List (Element sizeof)) (n : ℕ) : List (Element sizeof) :=
  target.mapIdx fun i e byte =>
    if i * sizeof + byte < n then source.getD i (.unwritten sizeof) byte else e byte

/-- `std_buffer_allocator::reallocate`, when `new` has this block. -/
def stdBufferAllocator (sizeof : ℕ) (grant : Option ℕ) : Reallocate (Element sizeof) :=
  fun heap block size newSize =>
    -- `new` has no block for an array that is larger than the address space.
    let grant := if newSize ≤ PodVector.maxSize sizeof then grant else none
    let fresh := List.replicate newSize (Element.unwritten sizeof)
    match block with
    | none =>
      match grant with
      | none => (none, heap)
      | some b => (some b, Function.update heap b (some fresh))
    | some block =>
      let deleted := Function.update heap block none
      if newSize = 0 then (none, deleted)
      else if newSize ≤ size then (some block, heap)
      else
        match grant with
        | none => (none, deleted)
        | some b =>
          -- The third argument of `memcpy` is the number of elements.
          let copied := memcpy fresh ((heap block).getD []) size
          (some b, Function.update deleted b (some copied))

/-- What a parameter of a call refers to: something outside, or a cell of the block that the vector
has when it is called. -/
inductive Argument (sizeof : ℕ)
  | outside (val : Element sizeof)
  | inside (index : ℕ)

/-- What is read through a reference; of a block that has been freed it may be anything. -/
def Argument.read {sizeof : ℕ} (first : Option ℕ) :
    Argument sizeof → Podding (Element sizeof) (Element sizeof)
  | outside val => return val
  | inside index => do
    let s ← get
    return ((first.bind s.heap).getD []).getD index (.unwritten sizeof)

def Argument.isFirst {sizeof : ℕ} : Argument sizeof → Bool
  | inside 0 => true
  | _ => false

/-- An allocator, and arguments that may lie in this block. -/
def PodMemory.over {sizeof : ℕ} (reallocate : Reallocate (Element sizeof)) (first : Option ℕ) :
    PodMemory (Argument sizeof) (Element sizeof) where
  reallocate := reallocate
  read := Argument.read first
  isFirst := Argument.isFirst

end Yasio
