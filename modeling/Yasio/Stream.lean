import Yasio.FramingStream
import Yasio.Endpoint
import Yasio.Lib.Throwing

/-!
# The binary streams

`binary_writer_impl` on a growing buffer and `binary_reader_impl`, with the traits that swap the
bytes of a number or do not.  The host is little endian.  What a write call appends is a list of
bytes; a reader is the memory around its buffer, counted from `first_`.
-/

namespace Yasio

/-! ## Numbers in memory -/

/-- `memcpy` of the first `n` bytes of a number in memory. -/
def leBytes : ℕ → ℕ → List UInt8
  | 0, _ => []
  | n + 1, v => UInt8.ofNat v :: leBytes n (v / 256)

/-- `ntohll`, and `htonll` which is the same macro. -/
def ntohll (v : ℕ) : ℕ :=
  v % 256 * 2 ^ 56 + v / 2 ^ 8 % 256 * 2 ^ 48 + v / 2 ^ 16 % 256 * 2 ^ 40 +
    v / 2 ^ 24 % 256 * 2 ^ 32 + v / 2 ^ 32 % 256 * 2 ^ 24 + v / 2 ^ 40 % 256 * 2 ^ 16 +
    v / 2 ^ 48 % 256 * 2 ^ 8 + v / 2 ^ 56 % 256

/-- The tag of `convert_traits`. -/
inductive ConvertTraits
  | network
  | host
  deriving DecidableEq, Repr

/-- `sizeof` of an integer type. -/
inductive IntSize
  | one
  | two
  | four
  | eight
  deriving DecidableEq, Repr

def IntSize.bytes : IntSize → ℕ
  | one => 1
  | two => 2
  | four => 4
  | eight => 8

namespace ConvertTraits

/-- `convert_traits::to` and `from` on an integer of this size, as its bits; `htons`, `htonl` and
`htonll` are `ntohs`, `ntohl` and `ntohll`. -/
def swap : ConvertTraits → IntSize → ℕ → ℕ
  | network, .one, v => v
  | network, .two, v => ntohs v
  | network, .four, v => ntohl v
  | network, .eight, v => ntohll v
  | host, _, v => v

/-- `convert_traits::toint` and `fromint`, as the bits of the result. -/
def swapInt : ConvertTraits → ℕ → ℕ → ℕ
  | network, v, size => networkToHost v size
  | host, v, _ => v

end ConvertTraits

/-! ## Writing -/

/-- A string shorter than `2^31` bytes. -/
abbrev Blob := { d : List UInt8 // d.length < 2 ^ 31 }

/-- A call on an `obstream`. -/
inductive Write
  | int (size : IntSize) (value : Fin (2 ^ (8 * size.bytes)))
  | ix32 (value : BitVec 32)
  | ix64 (value : BitVec 64)
  | varint (value : BitVec 32) (size : Int)
  | byte (value : UInt8)
  | bytes (d : Blob)
  | v (d : Blob)

/-- `write_ix_impl` -/
def writeIx (v : ℕ) : List UInt8 :=
  if 0x80 ≤ v then UInt8.ofNat (v % 2 ^ 32 ||| 0x80) :: writeIx (v >>> 7) else [UInt8.ofNat v]
termination_by v
decreasing_by
  rw [Nat.shiftRight_eq_div_pow]
  omega

/-- `dynamic_buffer_span::write_bytes` of `n` bytes behind `d`. -/
def writeBytes (d : List UInt8) (n : Int) : List UInt8 := if 0 < n then d.take n.toNat else []

/-- What the call appends to the buffer. -/
def Write.emit (traits : ConvertTraits) : Write → List UInt8
  | int size value => writeBytes (leBytes size.bytes (traits.swap size value)) size.bytes
  | ix32 value => writeIx value.toNat
  | ix64 value => writeIx value.toNat
  | varint value size =>
    let size := clamp size 1 4
    writeBytes (leBytes 4 (traits.swapInt value.toNat size.toNat)) size
  | byte value => [value]
  | bytes d => writeBytes d (toInt32 d.val.length)
  | v d =>
    let len := toInt32 d.val.length
    writeIx (BitVec.ofInt 32 len).toNat ++ writeBytes d len

/-- The buffer after these calls. -/
def written (traits : ConvertTraits) (ws : List Write) : List UInt8 :=
  ws.flatMap (Write.emit traits)

/-! ## Reading -/

inductive StreamError
  | outOfRange
  | bad7BitInt32
  | bad7BitInt64
  | badAlloc
  /-- what the language leaves undefined -/
  | undefined
  deriving DecidableEq, Repr

/-- A `binary_reader_impl`: the memory, and `last_` and `ptr_`, counted from `first_`. -/
structure Reader where
  memory : Int → UInt8
  last : Int
  ptr : Int := 0

abbrev Reading (α : Type) := Throwing StreamError Reader α

/-- The third argument of `seek`. -/
inductive Whence
  | cur
  | ending
  | set
  | other
  deriving DecidableEq, Repr

/-- A call on an `ibstream`. -/
inductive Read
  | int (size : IntSize)
  | ix32
  | ix64
  | varint (size : Int)
  | byte
  | bytes (len : Int)
  | v
  | vFx (size : IntSize)
  | advance (offset : Int)
  | advanceV
  | seek (offset : Int) (whence : Whence)

/-- A `string_view`: where it starts, and the bytes that it shows. -/
structure View where
  start : Int := 0
  bytes : List UInt8 := []
  deriving DecidableEq, Repr

/-- What a call returns; integers of `read<T>` as their bits. -/
inductive Value
  | int (value : ℕ)
  | ix32 (value : BitVec 32)
  | ix64 (value : BitVec 64)
  | varint (value : BitVec 32)
  | byte (value : UInt8)
  | view (value : View)
  | position (value : Int)
  | unit
  deriving DecidableEq, Repr

namespace Reader

/-- A reader on a buffer, as `reset(data, size)` sets it: `last_` is `size` behind the data. -/
def reset (data : List UInt8) (size : Int) : Reader where
  memory i := data.getD i.toNat 0
  last := size

/-- The constructor of `ibstream_view`. -/
def ibstreamView (data : List UInt8) : Reader := reset data data.length

/-- The constructors of `basic_ibstream`, which pass the size as an `int`. -/
def ibstream (data : List UInt8) : Reader := reset data (toInt32 data.length)

/-- `memcpy` of `n` bytes behind `ptr`. -/
def load (r : Reader) (ptr : Int) (n : ℕ) : List UInt8 :=
  (List.range n).map fun i : ℕ => r.memory (ptr + i)

end Reader

/-- `consume` -/
def consume (size : ℕ) : Reading Int := do
  let r ← get
  if r.ptr + size ≤ r.last then
    set { r with ptr := r.ptr + size }
    return r.ptr
  else throw .outOfRange

/-- The bytes of the memory that `consume` has passed. -/
def take (n : ℕ) : Reading View := do
  let ptr ← consume n
  let r ← get
  return { start := ptr, bytes := r.load ptr n }

def readByte : Reading UInt8 := do
  let ptr ← consume 1
  let r ← get
  return r.memory ptr

/-- `read_ix_helper::read_ix` after the bytes below `shift`; `n` more may have the high bit set, and
the one behind them is at most `maxLast`. -/
def readIxFrom (maxLast : ℕ) (error : StreamError) : ℕ → ℕ → ℕ → Reading ℕ
  | n + 1, shift, result => do
    let byteReadJustNow := (← readByte).toNat
    let result := result ||| (byteReadJustNow &&& 0x7f) <<< shift
    if byteReadJustNow ≤ 0x7f then return result
    else readIxFrom maxLast error n (shift + 7) result
  | 0, shift, result => do
    let byteReadJustNow := (← readByte).toNat
    if byteReadJustNow ≤ maxLast then return result ||| byteReadJustNow <<< shift
    else throw error

/-- `read_ix<int32_t>` -/
def readIx32 : Reading (BitVec 32) := do
  return BitVec.ofNat 32 (← readIxFrom 0x0f .bad7BitInt32 4 0 0)

/-- `read_ix<int64_t>` -/
def readIx64 : Reading (BitVec 64) := do
  return BitVec.ofNat 64 (← readIxFrom 1 .bad7BitInt64 9 0 0)

/-- `read<T>`, as the bits of the result. -/
def readInt (traits : ConvertTraits) (size : IntSize) : Reading ℕ := do
  let view ← take size.bytes
  return traits.swap size (leNat view.bytes)

def readVarint (traits : ConvertTraits) (size : Int) : Reading (BitVec 32) := do
  let size := (clamp size 1 4).toNat
  let view ← take size
  return BitVec.ofNat 32 (traits.swapInt (leNat view.bytes) size)

/-- `read_bytes(int)` -/
def readBytes (len : Int) : Reading View := if 0 < len then take len.toNat else return {}

def readV : Reading View := do
  let count ← readIx32
  readBytes count.toInt

/-- `read_v_fx` for an unsigned length of this size; `read_bytes` takes an `int`. -/
def readVFx (traits : ConvertTraits) (size : IntSize) : Reading View := do
  let n ← readInt traits size
  if 0 < n then readBytes (toInt32 n) else return {}

def advance (offset : Int) : Reading Unit := do
  let r ← get
  set { r with ptr := r.ptr + offset }

def advanceV : Reading Unit := do
  let offset ← readIx32
  advance offset.toInt

/-- Where `seek` puts the cursor. -/
def Reader.target (r : Reader) (offset : Int) : Whence → Int
  | .cur =>
    if r.ptr + offset < 0 then 0
    else if r.last < r.ptr + offset then r.last
    else r.ptr + offset
  -- Only a `seek` from the cursor is kept inside the buffer.
  | .ending => r.last - offset
  | .set => offset
  | .other => r.ptr

def seek (offset : Int) (whence : Whence) : Reading Int := do
  let r ← get
  set { r with ptr := r.target offset whence }
  return r.target offset whence

def Read.run (traits : ConvertTraits) : Read → Reading Value
  | int size => return .int (← readInt traits size)
  | ix32 => return .ix32 (← readIx32)
  | ix64 => return .ix64 (← readIx64)
  | varint size => return .varint (← readVarint traits size)
  | byte => return .byte (← readByte)
  | bytes len => return .view (← readBytes len)
  | v => return .view (← readV)
  | vFx size => return .view (← readVFx traits size)
  | advance offset => do
    Yasio.advance offset
    return .unit
  | advanceV => do
    Yasio.advanceV
    return .unit
  | seek offset whence => return .position (← Yasio.seek offset whence)

end Yasio
