import Yasio.Blobs
import Yasio.Lib.Overwrite

/-!
# The two buffers of a writer

`binary_writer_impl` writes into a `fixed_buffer_span`, which is memory of the caller, or into a
`dynamic_buffer_span`, whose container grows.  The functions of the writer are the same for both.
-/

namespace Yasio

open Memory (overwrite)

/-! ## The buffers -/

/-- What `binary_writer_impl` uses of its `_BufferType`.  A call that throws leaves the buffer as it
was. -/
class BufferSpan (β : Type) where
  writeByte : UInt8 → β → Except StreamError β
  /-- `write_bytes` of the first `n` bytes behind `d` -/
  writeBytes : List UInt8 → Int → β → Except StreamError β
  /-- `write_bytes` at an offset -/
  writeBytesAt : ℕ → List UInt8 → β → Except StreamError β
  /-- `fill_bytes` of the `size_t` that an `int` is made to -/
  fillBytes : Int → UInt8 → β → Except StreamError β
  clear : β → β
  length : β → ℕ
  /-- `memcpy` to `data() + offset` -/
  store : ℕ → List UInt8 → β → β
  /-- The `length()` bytes at `data()`. -/
  data : β → List UInt8

/-- A `fixed_buffer_span`: the memory from `first_` to `last_`, and `pos_`. -/
structure FixedBuffer where
  memory : List UInt8
  pos : ℕ := 0
  deriving DecidableEq, Repr

namespace FixedBuffer

def maxSize (b : FixedBuffer) : ℕ := b.memory.length

def writeByte (value : UInt8) (b : FixedBuffer) : Except StreamError FixedBuffer :=
  if b.pos < b.maxSize then
    .ok { b with memory := overwrite b.memory b.pos [value], pos := b.pos + 1 }
  -- A full buffer drops the byte.
  else .ok b

def writeBytesAt (offset : ℕ) (d : List UInt8) (b : FixedBuffer) :
    Except StreamError FixedBuffer :=
  if b.maxSize < offset + d.length then .error .outOfRange
  -- The cursor moves wherever the offset is.
  else .ok { b with memory := overwrite b.memory offset d, pos := b.pos + d.length }

def writeBytes (d : List UInt8) (n : Int) (b : FixedBuffer) : Except StreamError FixedBuffer :=
  if 0 < n then b.writeBytesAt b.pos (d.take n.toNat) else .ok b

def fillBytes (n : Int) (val : UInt8) (b : FixedBuffer) : Except StreamError FixedBuffer :=
  -- `count + pos_` is `2^64 + n + pos_`, which is above every size, or it has wrapped around.
  if b.pos + n < 0 ∨ b.maxSize < b.pos + n then .error .outOfRange
  -- a `memset` of nearly `2^64` bytes
  else if n < 0 then .error .undefined
  else
    .ok { b with
      memory := overwrite b.memory b.pos (List.replicate n.toNat val)
      pos := b.pos + n.toNat }

instance : BufferSpan FixedBuffer where
  writeByte := writeByte
  writeBytes := writeBytes
  writeBytesAt := writeBytesAt
  fillBytes := fillBytes
  clear b := { b with pos := 0 }
  length b := b.pos
  store offset d b := { b with memory := overwrite b.memory offset d }
  data b := b.memory.take b.pos

end FixedBuffer

/-- A `dynamic_buffer_span`: the bytes in its container. -/
structure DynamicBuffer where
  outs : List UInt8 := []
  deriving DecidableEq, Repr

namespace DynamicBuffer

def writeBytesAt (offset : ℕ) (d : List UInt8) (b : DynamicBuffer) :
    Except StreamError DynamicBuffer :=
  if b.outs.length < offset + d.length then .error .outOfRange
  else .ok { outs := overwrite b.outs offset d }

def fillBytes (n : Int) (val : UInt8) (b : DynamicBuffer) : Except StreamError DynamicBuffer :=
  -- The new size is `2^64 + size() + n`, or it has wrapped around.
  if b.outs.length + n < 0 then .error .badAlloc
  -- a `fill_n` of nearly `2^64` bytes
  else if n < 0 then .error .undefined
  else .ok { outs := b.outs ++ List.replicate n.toNat val }

instance : BufferSpan DynamicBuffer where
  writeByte value b := .ok { outs := b.outs ++ [value] }
  writeBytes d n b := .ok { outs := b.outs ++ Yasio.writeBytes d n }
  writeBytesAt := writeBytesAt
  fillBytes := fillBytes
  clear _ := { outs := [] }
  length b := b.outs.length
  store offset d b := { outs := overwrite b.outs offset d }
  data b := b.outs

end DynamicBuffer

/-! ## The writer -/

/-- A `binary_writer_impl`: its buffer, and `offset_stack_` where that is built in. -/
structure Writer (β : Type) where
  outs : β
  offsetStack : List ℕ := []
  deriving DecidableEq, Repr

abbrev Writing (β α : Type) := Throwing StreamError (Writer β) α

namespace Writer

variable {β : Type} [BufferSpan β] (traits : ConvertTraits)

/-- A call on `outs_`. -/
def onBuffer (f : β → Except StreamError β) : Writing β Unit := do
  let w ← get
  match f w.outs with
  | .ok outs => set { w with outs := outs }
  | .error e => throw e

def writeByte (value : UInt8) : Writing β Unit := onBuffer (BufferSpan.writeByte value)

def writeBytes (d : List UInt8) (n : Int) : Writing β Unit := onBuffer (BufferSpan.writeBytes d n)

def writeBytesAt (offset : ℕ) (d : List UInt8) : Writing β Unit :=
  onBuffer (BufferSpan.writeBytesAt offset d)

def fillBytes (n : Int) (val : UInt8) : Writing β Unit := onBuffer (BufferSpan.fillBytes n val)

/-- `write<T>` of a number with these bits. -/
def write (size : IntSize) (value : ℕ) : Writing β Unit :=
  writeBytes (leBytes size.bytes (traits.swap size value)) size.bytes

/-- `write_ix_impl`, byte for byte. -/
def writeIx (v : ℕ) : Writing β Unit := (Yasio.writeIx v).forM writeByte

def writeVarint (value : BitVec 32) (size : Int) : Writing β Unit :=
  let size := clamp size 1 4
  writeBytes (leBytes 4 (traits.swapInt value.toNat size.toNat)) size

def writeV (d : List UInt8) : Writing β Unit := do
  let len := toInt32 d.length
  writeIx (BitVec.ofInt 32 len).toNat
  writeBytes d len

/-- `static_cast` to an unsigned integer of this size. -/
def castTo (size : IntSize) (x : Int) : ℕ := (x % 2 ^ (8 * size.bytes)).toNat

/-- `write_v_fx` -/
def writeVFx (width : LengthWidth) (d : List UInt8) : Writing β Unit := do
  let size := toInt32 d.length
  write traits width.size (castTo width.size size)
  if size ≠ 0 then writeBytes d size

/-- `pwrite`, which compares the offset with nothing. -/
def pwrite (size : IntSize) (offset value : ℕ) : Writing β Unit := do
  let w ← get
  set { w with
    outs := BufferSpan.store offset (leBytes size.bytes (traits.swap size value)) w.outs }

def clear : Writing β Unit := do
  let w ← get
  set ({ outs := BufferSpan.clear w.outs } : Writer β)

/-! ### Length fields whose offset the caller keeps -/

/-- `push<T>` -/
def push (size : IntSize) : Writing β ℕ := do
  let w ← get
  fillBytes size.bytes 0
  return BufferSpan.length w.outs

/-- `pop<T>` -/
def pop (size : IntSize) (offset : ℕ) : Writing β Unit := do
  let w ← get
  pwrite traits size offset (castTo size ((BufferSpan.length w.outs : Int) - offset - size.bytes))

/-! ### Length fields whose offset is on the stack -/

/-- `push8`, `push16` and `push32` -/
def pushFx (width : LengthWidth) : Writing β Unit := do
  let w ← get
  set { w with offsetStack := BufferSpan.length w.outs :: w.offsetStack }
  write traits width.size 0

/-- `push(int)` -/
def pushSized (size : Int) : Writing β Unit := do
  let size := clamp size 1 4
  let w ← get
  set { w with offsetStack := BufferSpan.length w.outs :: w.offsetStack }
  fillBytes size.toNat 0

/-- What a call does with `offset_stack_.top()` before it pops it.  There is a top. -/
def withTop (f : ℕ → Writing β Unit) : Writing β Unit := do
  let w ← get
  match w.offsetStack with
  | [] => return
  | offset :: rest => do
    f offset
    let w ← get
    set { w with offsetStack := rest }

/-- `pop8`, `pop16` and `pop32` without a value -/
def popFx (width : LengthWidth) : Writing β Unit :=
  withTop fun offset => pop traits width.size offset

/-- `pop8`, `pop16` and `pop32` with a value -/
def popFxValue (width : LengthWidth) (value : ℕ) : Writing β Unit :=
  withTop fun offset => pwrite traits width.size offset value

/-- `pop(int, int)` at this offset, for a size from 1 to 4 -/
def patchValue (value : BitVec 32) (size offset : ℕ) : Writing β Unit :=
  writeBytesAt offset ((leBytes 4 (traits.swapInt value.toNat size)).take size)

/-- `pop(int, int)` -/
def popSizedValue (value : BitVec 32) (size : Int) : Writing β Unit :=
  withTop (patchValue traits value (clamp size 1 4).toNat)

/-- `pop(int)` at this offset, for a size from 1 to 4 -/
def patchLength (size offset : ℕ) : Writing β Unit := do
  let w ← get
  let value := (BufferSpan.length w.outs : Int) - offset - size
  patchValue traits (BitVec.ofInt 32 value) size offset

/-- `pop(int)` -/
def popSized (size : Int) : Writing β Unit :=
  withTop (patchLength traits (clamp size 1 4).toNat)

end Writer

/-! ## Calls that append -/

/-- A call that writes at the end of the stream; `fill` is `fill_bytes` of a count that is not
negative, and `vFx` is `write_v8`, `write_v16` or `write_v32`. -/
inductive Output
  | int (size : IntSize) (value : Fin (2 ^ (8 * size.bytes)))
  | ix32 (value : BitVec 32)
  | ix64 (value : BitVec 64)
  | varint (value : BitVec 32) (size : Int)
  | byte (value : UInt8)
  | bytes (d : List UInt8)
  | fill (n : ℕ) (val : UInt8)
  | v (d : List UInt8)
  | vFx (width : LengthWidth) (d : List UInt8)
  deriving Repr

namespace Output

variable (traits : ConvertTraits)

def run {β : Type} [BufferSpan β] : Output → Writing β Unit
  | int size value => Writer.write traits size value
  | ix32 value => Writer.writeIx value.toNat
  | ix64 value => Writer.writeIx value.toNat
  | varint value size => Writer.writeVarint traits value size
  | byte value => Writer.writeByte value
  | bytes d => Writer.writeBytes d (toInt32 d.length)
  | fill n val => Writer.fillBytes n val
  | v d => Writer.writeV d
  | vFx width d => Writer.writeVFx traits width d

/-- What the call appends where there is room for it. -/
def emit : Output → List UInt8
  | int size value => writeBytes (leBytes size.bytes (traits.swap size value)) size.bytes
  | ix32 value => writeIx value.toNat
  | ix64 value => writeIx value.toNat
  | varint value size =>
    writeBytes (leBytes 4 (traits.swapInt value.toNat (clamp size 1 4).toNat)) (clamp size 1 4)
  | byte value => [value]
  | bytes d => writeBytes d (toInt32 d.length)
  | fill n val => List.replicate n val
  | v d => writeIx (BitVec.ofInt 32 (toInt32 d.length)).toNat ++ writeBytes d (toInt32 d.length)
  | vFx width d =>
    writeBytes (leBytes width.size.bytes
      (traits.swap width.size (Writer.castTo width.size (toInt32 d.length)))) width.size.bytes ++
      writeBytes d (toInt32 d.length)

end Output

end Yasio
