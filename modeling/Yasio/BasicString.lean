import Yasio.PodBlocks
import Yasio.Lib.Occurrences

/-!
# `basic_string`

A `basic_string` has the fields of a `pod_vector` and its allocator, and a terminator behind the
characters.  A call that does what the language leaves undefined goes on in the model, and the
string keeps a record of it.
-/

namespace Yasio

open Memory (overwrite)
open PodVector (sizeT maxSize calculateGrowth)

/-- What the language leaves undefined. -/
inductive StringFault
  /-- A write outside the block, or through a null pointer. -/
  | strayWrite
  | strayRead
  /-- `_Traits::copy` from a range to one that overlaps it. -/
  | overlap
  /-- An `int` that runs over. -/
  | overflow
  deriving DecidableEq, Repr

/-- A string, the heap around it, and what it has done that is undefined. -/
structure StringState (α : Type) extends PodState α where
  faults : List StringFault

abbrev Stringing (α β : Type) := Throwing PodError (StringState α) β

/-- A text that is somewhere else, or one in the block of the string itself. -/
inductive StringText (α : Type)
  | outside (d : List α)
  | own (start count : ℕ)

def StringText.length {α : Type} : StringText α → ℕ
  | outside d => d.length
  | own _ count => count

namespace BasicString

variable {α β : Type}

/-! ## Reading and writing -/

/-- A part of a call that has to do with the fields and the block only. -/
def onVec (m : Podding α β) : Stringing α β :=
  Throwing.zoom StringState.toPodState (fun s vec => { s with toPodState := vec }) m

def mark (fault : StringFault) (cond : Prop) [Decidable cond] : Stringing α Unit :=
  modify fun s => if cond then { s with faults := fault :: s.faults } else s

/-- `_YASIO_VERIFY_RANGE` -/
def verifyRange (cond : Prop) [Decidable cond] : Stringing α Unit :=
  onVec (PodVector.verifyRange cond)

def setSize (size : ℕ) : Stringing α Unit := onVec (PodVector.eos size)

/-- A copy to the cells from `_Myfirst + offset` on.  What lies outside the block is not written. -/
def write (offset : ℕ) (d : List α) : Stringing α Unit := do
  let s ← get
  mark .strayWrite (d ≠ [] ∧ s.cells.length < offset + d.length)
  onVec (PodVector.store offset (d.take (s.cells.length - offset)))

variable [Zero α]

/-- The `n` cells from `offset` on.  What lies outside the block is taken for 0. -/
def loaded (cells : List α) (offset n : ℕ) : List α := ((cells.drop offset).take n).rightpad n 0

def read (offset n : ℕ) : Stringing α (List α) := do
  let s ← get
  mark .strayRead (n ≠ 0 ∧ s.cells.length < offset + n)
  return loaded s.cells offset n

/-- `std::copy_n`, `std::move` and `_Traits::move` from the string to itself. -/
def move (target source n : ℕ) : Stringing α Unit := do
  write target (← read source n)

/-- `_Traits::copy` from the string to itself. -/
def copy (target source n : ℕ) : Stringing α Unit := do
  mark .overlap (source < target + n ∧ target < source + n)
  move target source n

/-- `_Eos` -/
def eos (size : ℕ) : Stringing α Unit := do
  setSize size
  write size [0]

/-- The `n` characters of a text from `k` on. -/
def readText (k n : ℕ) : StringText α → Stringing α (List α)
  | .outside d => do
    mark .strayRead (n ≠ 0 ∧ d.length < k + n)
    return loaded d k n
  | .own start _ => read (start + k) n

/-- `_Traits::copy` from a text. -/
def copyText (target k n : ℕ) : StringText α → Stringing α Unit
  | .outside d => do write target (← readText k n (.outside d))
  | .own start _ => copy target (start + k) n

/-- A text after the block of the string was reallocated. -/
def staleText : StringText α → Stringing α (List α)
  | .outside d => return d
  | .own _ count => do
    mark .strayRead (count ≠ 0)
    return List.replicate count 0

/-! ## Growing -/

variable (sizeof : ℕ) (grant : Option (Grant α))

/-- The capacity for which `_Reallocate` asks. -/
def newCapacity (res size : ℕ) : ReallocationPolicy → ℕ
  | .exactly => sizeT (size + 1 : ℕ)
  | .atLeast => max (calculateGrowth sizeof res size) (sizeT (size + 1 : ℕ))

omit [Zero α] in
/-- `_Reallocate` -/
def reallocate (policy : ReallocationPolicy) (size : ℕ) : Stringing α Unit := do
  let s ← get
  onVec (PodVector.reallocate sizeof (PodVector.buffer sizeof grant) .exactly
    (newCapacity sizeof s.vec.res size policy))

/-- `_Resize_reallocate` -/
def resizeReallocate (policy : ReallocationPolicy) (size : ℕ) : Stringing α Unit := do
  reallocate sizeof grant policy size
  eos size

def resize (newSize : ℕ) : Stringing α Unit := do
  let s ← get
  if s.vec.res < newSize then resizeReallocate sizeof grant .exactly newSize
  else eos newSize

def expand (count : ℕ) : Stringing α Unit := do
  let s ← get
  let newSize := sizeT (s.vec.size + count : ℕ)
  if s.vec.res < newSize then resizeReallocate sizeof grant .atLeast newSize
  else eos newSize

/-- `resize` with a value -/
def resizeFill (newSize : ℕ) (val : α) : Stringing α Unit := do
  let oldSize := (← get).vec.size
  if oldSize ≠ newSize then
    resize sizeof grant newSize
    if oldSize < newSize then write oldSize (List.replicate (newSize - oldSize) val)

/-- `expand` with a value, and `append` of copies of one -/
def expandFill (count : ℕ) (val : α) : Stringing α Unit := do
  if count ≠ 0 then
    let oldSize := (← get).vec.size
    expand sizeof grant count
    write oldSize (List.replicate count val)

omit [Zero α] in
def reserve (newCap : ℕ) : Stringing α Unit := do
  let s ← get
  if s.vec.res < newCap then reallocate sizeof grant .exactly newCap

omit [Zero α] in
def shrinkToFit : Stringing α Unit := do
  let s ← get
  if s.vec.size ≠ s.vec.res then
    if s.vec.size = 0 then onVec PodVector.tidy
    else reallocate sizeof grant .exactly s.vec.size

/-- `resize_and_overwrite` with an operation that leaves these characters at the front and returns
how many they are. -/
def resizeAndOverwrite (newSize : ℕ) (written : List α) : Stringing α Unit := do
  reallocate sizeof grant .exactly newSize
  write 0 written
  eos written.length

/-! ## Inserting and erasing -/

/-- `push_back`, which writes through `back()`. -/
def pushBack (val : α) : Stringing α Unit := do
  expand sizeof grant 1
  let s ← get
  verifyRange (s.vec.size ≠ 0)
  write (s.vec.size - 1) [val]

/-- `append` of a range -/
def append (d : List α) : Stringing α Unit := do
  match d with
  | [] => return
  | [val] => pushBack sizeof grant val
  | d =>
    let oldSize := (← get).vec.size
    expand sizeof grant d.length
    write oldSize d

/-- The characters from `offset` on move behind `count` new ones. -/
def openGap (offset count : ℕ) : Stringing α Unit := do
  expand sizeof grant count
  let s ← get
  move (offset + count) offset (s.vec.size - (offset + count))

/-- `insert` of a range, which is `none` when its end lies in front of its start. -/
def insertRange (pos : Iterator) (range : Option (List α)) : Stringing α ℕ := do
  let s ← get
  verifyRange (0 ≤ pos ∧ pos ≤ s.vec.size ∧ range.isSome)
  let d := range.getD []
  if d ≠ [] then
    if pos = s.vec.size then append sizeof grant d
    else
      openGap sizeof grant pos.toNat d.length
      write pos.toNat d
  return pos.toNat

/-- `insert` of copies of a character -/
def insertFill (pos : Iterator) (count : ℕ) (val : α) : Stringing α ℕ := do
  let s ← get
  verifyRange (0 ≤ pos ∧ pos ≤ s.vec.size)
  if count ≠ 0 then
    if pos = s.vec.size then expandFill sizeof grant count val
    else
      openGap sizeof grant pos.toNat count
      write pos.toNat (List.replicate count val)
  return pos.toNat

/-- `erase` of a range: what is behind it moves, and the size is what is left. -/
def eraseRange (first last : Iterator) : Stringing α ℕ := do
  let s ← get
  verifyRange (first ≤ last ∧ 0 ≤ first ∧ last ≤ s.vec.size)
  move first.toNat last.toNat (s.vec.size - last.toNat)
  setSize (first.toNat + (s.vec.size - last.toNat))
  return first.toNat

def erase (pos : Iterator) : Stringing α ℕ := do
  let s ← get
  verifyRange (0 ≤ pos ∧ pos < s.vec.size)
  move pos.toNat (pos.toNat + 1) (s.vec.size - (pos.toNat + 1))
  setSize (pos.toNat + (s.vec.size - (pos.toNat + 1)))
  return pos.toNat

/-- `_Assign_range` of these characters, which are read when they are copied.  A range that begins
at `_Myfirst` is left as it is. -/
def assign (atFirst : Bool) (d : List α) : Stringing α Unit := do
  if !atFirst then
    setSize 0
    if d ≠ [] then
      resize sizeof grant d.length
      write 0 d

/-- `to_lower`, `to_upper`, and `replace_all` of one character by another -/
def transform (f : α → α) : Stringing α Unit := do
  let s ← get
  let d ← read 0 s.vec.size
  write 0 (d.map f)

/-! ## Replacing -/

omit [Zero α] in
/-- How many characters of the text are not moved along with the suffix. -/
def shiftedAfter (size off nx : ℕ) : StringText α → ℕ
  | .outside d => d.length
  | .own start count =>
    if start + count ≤ off ∨ size < start then count
    else if off + nx ≤ start then 0
    else off + nx - start

/-- `_Reallocate_grow_by`, as `replace` calls it. -/
def reallocateGrowBy (growth off nx : ℕ) (text : StringText α) : Stringing α Unit := do
  let s ← get
  let size := s.vec.size
  if sizeT ((maxSize sizeof : Int) - size) < growth then throw .lengthError
  let newCap := calculateGrowth sizeof s.vec.res (size + growth)
  let (first, heap) := reallocBlock sizeof s.heap s.vec.first (sizeT (newCap + 1 : ℕ)) grant
  -- What `realloc` returns is taken as it is, also when it is null.
  set { s with vec := ⟨first, size + growth, newCap⟩, heap := heap }
  copy (off + text.length) (off + nx) (size - nx - off + 1)
  write off (← staleText text)

def replace (off nx : ℕ) (text : StringText α) : Stringing α Unit := do
  let s ← get
  let size := s.vec.size
  verifyRange (off < size)
  let nx := min nx (size - off)
  let count := text.length
  if nx = count then
    write off (← readText 0 count text)
  else
    let suffixSize := size - nx - off + 1
    if count < nx then
      write off (← readText 0 count text)
      move (off + count) (off + nx) suffixSize
      setSize (size - (nx - count))
    else
      let growth := count - nx
      if growth ≤ sizeT ((s.vec.res : Int) - size) then
        setSize (size + growth)
        let shifted := shiftedAfter size off nx text
        move (off + nx + growth) (off + nx) suffixSize
        write off (← readText 0 shifted text)
        copyText (off + shifted) (growth + shifted) (sizeT ((count : Int) - shifted)) text
      else reallocateGrowBy sizeof grant growth off nx text

end BasicString

namespace StringState

variable {α : Type} [Zero α]

/-- `c_str`, up to the end of the block.  For a string without a block it points to the null pointer
itself. -/
def cStr (s : StringState α) : List α := if s.vec.first.isSome then s.cells else [0]

def view (s : StringState α) : List α := s.cStr.take s.vec.size

end StringState

namespace BasicString

variable {α : Type} [DecidableEq α] [Zero α]

/-- `basic_string_view::find` -/
def find (needle : List α) (startAt : ℕ) (hay : List α) : Option ℕ :=
  if hay.length < needle.length ∨ hay.length - needle.length < startAt then none
  else (Text.occurrence needle (hay.drop startAt)).map (startAt + ·)

variable (sizeof : ℕ) (grants : ℕ → Option (Grant α)) (fromText toText : List α)

/-- The loop of `replace_all`, with what `realloc` has for each replacement.  It returns `hints`, or
`none` when it has not ended by then. -/
def replaceAllLoop : ℕ → ℕ → ℕ → Stringing α (Option ℕ)
  | 0, _, _ => return none
  | fuel + 1, hints, pos => do
    let s ← get
    match find fromText pos s.view with
    | none => return some hints
    | some pos => do
      replace sizeof (grants hints) pos fromText.length (.outside toText)
      mark .overflow (hints + 1 = 2 ^ 31)
      let predicate := if fromText = [] then 1 else 0
      replaceAllLoop fuel (hints + 1) (sizeT (pos + (toText.length + predicate) : ℕ))

def replaceAll (fuel : ℕ) : Stringing α (Option ℕ) :=
  if fromText = toText then return some 0
  else replaceAllLoop sizeof grants fromText toText fuel 0 0

end BasicString

/-- A call on one string. -/
inductive StringOp (α : Type)
  | resize (newSize : ℕ)
  | resizeFill (newSize : ℕ) (val : α)
  | expand (count : ℕ)
  | expandFill (count : ℕ) (val : α)
  | pushBack (val : α)
  | append (d : List α)
  | insertRange (pos : Iterator) (range : Option (List α))
  | insertFill (pos : Iterator) (count : ℕ) (val : α)
  | erase (pos : Iterator)
  | eraseRange (first last : Iterator)
  | assign (atFirst : Bool) (d : List α)
  | clear
  | reserve (newCap : ℕ)
  | shrinkToFit
  | resizeAndOverwrite (newSize : ℕ) (written : List α)
  | atIndex (index : ℕ)
  | front
  | back
  | transform (f : α → α)
  | replace (off nx : ℕ) (text : StringText α)
  | replaceAll (fuel : ℕ) (fromText toText : List α)
  | detachAbi
  | attachAbi (block : Option ℕ) (len : ℕ)

open BasicString in
/-- The call, and the position or the number of replacements that it returns.  What `realloc` has
for it comes from a sequence, of which all but `replaceAll` take the first. -/
def StringOp.run {α : Type} [DecidableEq α] [Zero α] (sizeof : ℕ)
    (grants : ℕ → Option (Grant α)) : StringOp α → Stringing α (Option ℕ)
  | resize newSize => do
    BasicString.resize sizeof (grants 0) newSize
    return none
  | resizeFill newSize val => do
    BasicString.resizeFill sizeof (grants 0) newSize val
    return none
  | expand count => do
    BasicString.expand sizeof (grants 0) count
    return none
  | expandFill count val => do
    BasicString.expandFill sizeof (grants 0) count val
    return none
  | pushBack val => do
    BasicString.pushBack sizeof (grants 0) val
    return none
  | append d => do
    BasicString.append sizeof (grants 0) d
    return none
  | insertRange pos range => some <$> BasicString.insertRange sizeof (grants 0) pos range
  | insertFill pos count val => some <$> BasicString.insertFill sizeof (grants 0) pos count val
  | erase pos => some <$> BasicString.erase pos
  | eraseRange first last => some <$> BasicString.eraseRange first last
  | assign atFirst d => do
    BasicString.assign sizeof (grants 0) atFirst d
    return none
  | clear => do
    setSize 0
    return none
  | reserve newCap => do
    BasicString.reserve sizeof (grants 0) newCap
    return none
  | shrinkToFit => do
    BasicString.shrinkToFit sizeof (grants 0)
    return none
  | resizeAndOverwrite newSize written => do
    BasicString.resizeAndOverwrite sizeof (grants 0) newSize written
    return none
  | atIndex index => some <$> onVec (PodVector.atIndex index)
  | front => some <$> onVec PodVector.front
  | back => some <$> onVec PodVector.back
  | transform f => do
    BasicString.transform f
    return none
  | replace off nx text => do
    BasicString.replace sizeof (grants 0) off nx text
    return none
  | replaceAll fuel fromText toText => BasicString.replaceAll sizeof grants fromText toText fuel
  | detachAbi => do
    onVec PodVector.detachAbi
    return none
  | attachAbi block len => do
    onVec (PodVector.attachAbi block len)
    return none

end Yasio
