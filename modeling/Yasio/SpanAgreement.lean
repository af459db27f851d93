import Yasio.Appending
import Yasio.Lib.Machine

/-!
# The same calls on both buffers

A stream on a `fixed_buffer_span` beside one on a `dynamic_buffer_span`.  The fixed one is to hold
the same bytes until a call has no room, and then to throw.
-/

namespace Yasio

open Memory (overwrite)
open Throwing (exec exec_bind exec_bind_ok)

/-! ## Calls -/

/-- A call on a stream; `pop` without a value, and with one. -/
inductive StreamCall
  | output (op : Output)
  | writeBytesAt (offset : ℕ) (d : Blob)
  | fillBytes (n : Int) (val : UInt8)
  | clear
  | push (size : IntSize)
  | pop (size : IntSize) (offset : ℕ)
  | popValue (size : IntSize) (offset : ℕ) (value : Fin (2 ^ (8 * size.bytes)))
  | pushFx (width : LengthWidth)
  | popFx (width : LengthWidth)
  | popFxValue (width : LengthWidth) (value : Fin (2 ^ (8 * width.size.bytes)))
  | pushSized (size : Int)
  | popSized (size : Int)
  | popSizedValue (value : BitVec 32) (size : Int)

namespace StreamCall

section

variable {β : Type} [BufferSpan β] (traits : ConvertTraits)

def run : StreamCall → Writing β Unit
  | output op => op.run traits
  | writeBytesAt offset d => Writer.writeBytesAt offset d.val
  | fillBytes n val => Writer.fillBytes n val
  | clear => Writer.clear
  | push size => do
    let _ ← Writer.push size
  | pop size offset => Writer.pop traits size offset
  | popValue size offset value => Writer.pwrite traits size offset value
  | pushFx width => Writer.pushFx traits width
  | popFx width => Writer.popFx traits width
  | popFxValue width value => Writer.popFxValue traits width value
  | pushSized size => Writer.pushSized size
  | popSized size => Writer.popSized traits size
  | popSizedValue value size => Writer.popSizedValue traits value size

/-- The offset is within the length of the stream, the bytes of a `pwrite` lie in it, and the stack
has a top. -/
def Valid (w : Writer β) : StreamCall → Prop
  | writeBytesAt offset _ => offset ≤ BufferSpan.length w.outs
  | pop size offset | popValue size offset _ => offset + size.bytes ≤ BufferSpan.length w.outs
  | popFx width | popFxValue width _ =>
    ∃ offset ∈ w.offsetStack.head?, offset + width.size.bytes ≤ BufferSpan.length w.outs
  | popSized _ | popSizedValue _ _ => ∃ _ ∈ w.offsetStack.head?, True
  | _ => True

instance (w : Writer β) : ∀ call : StreamCall, Decidable (call.Valid w)
  | writeBytesAt _ _ | pop _ _ | popValue _ _ _ => inferInstanceAs (Decidable (_ ≤ _))
  | popFx _ | popFxValue _ _ => inferInstanceAs (Decidable (∃ _ ∈ _, _))
  | popSized _ | popSizedValue _ _ => inferInstanceAs (Decidable (∃ _ ∈ _, True))
  | output _ | fillBytes _ _ | clear | push _ | pushFx _ | pushSized _ => .isTrue trivial

end

/-- Of the calls that append, those that throw where there is no room: not the ones that only write
single bytes. -/
def throws : Output → Prop
  | .byte _ | .ix32 _ | .ix64 _ => False
  | .v d => 0 < toInt32 d.length
  | _ => True

/-- The fixed buffer does what the growing one does, or throws: a call that writes single bytes has
room for them, one with an offset writes nothing or reaches behind the buffer, and a count is not
negative, or more bytes are missing than there are. -/
def Agrees (traits : ConvertTraits) (w : Writer FixedBuffer) : StreamCall → Prop
  | output op => w.outs.pos + (op.emit traits).length ≤ w.outs.maxSize ∨ throws op
  | writeBytesAt offset d => d.val = [] ∨ w.outs.maxSize < offset + d.val.length
  | fillBytes n _ => 0 ≤ n ∨ w.outs.pos + n < 0
  | popSized size | popSizedValue _ size =>
    ∀ offset ∈ w.offsetStack.head?, w.outs.maxSize < offset + (clamp size 1 4).toNat
  | _ => True

end StreamCall

/-! ## Both streams -/

/-- The two streams after the same calls, and how the last call has ended on each. -/
structure SpanPair where
  fixed : Writer FixedBuffer
  dynamic : Writer DynamicBuffer := { outs := {} }
  results : Except StreamError Unit × Except StreamError Unit := (.ok (), .ok ())

namespace SpanPair

/-- The same bytes, the same length and the same stack. -/
structure Same (p : SpanPair) : Prop where
  data : BufferSpan.data p.fixed.outs = BufferSpan.data p.dynamic.outs
  length : BufferSpan.length p.fixed.outs = BufferSpan.length p.dynamic.outs
  stack : p.fixed.offsetStack = p.dynamic.offsetStack

/-- Both calls have ended in the same way, with nothing undefined, and the streams are the same, or
the fixed one has thrown on bytes that exceed its capacity. -/
def Agree (p : SpanPair) : Prop :=
  match p.results with
  | (.ok _, .ok _) => p.Same
  | (.error e, .error e') => e ≠ .undefined ∧ e' ≠ .undefined ∧ p.Same
  | (.error e, .ok _) =>
    e = .outOfRange ∧ p.fixed.outs.maxSize < BufferSpan.length p.dynamic.outs
  | (.ok _, .error _) => False

/-- The calls end when only the fixed stream has thrown. -/
def goes (p : SpanPair) : Bool :=
  match p.results with
  | (.error _, .ok _) => false
  | _ => true

variable (traits : ConvertTraits)

/-- The same call on both streams. -/
def call (op : StreamCall) (p : SpanPair) : SpanPair :=
  let fixed := exec (op.run traits) p.fixed
  let dynamic := exec (op.run traits) p.dynamic
  { fixed := fixed.2, dynamic := dynamic.2, results := (fixed.1, dynamic.1) }

def step (op : StreamCall) (p : SpanPair) : Option SpanPair :=
  if p.goes ∧ op.Valid p.dynamic then some (p.call traits op) else none

/-- The call, if it can be made, keeps the two streams together. -/
def Allowed (p : SpanPair) (op : StreamCall) : Prop :=
  p.goes ∧ op.Valid p.dynamic → op.Agrees traits p.fixed

/-- Two new streams, the fixed one on this memory. -/
def start (memory : List UInt8) : SpanPair := { fixed := { outs := { memory } } }

variable {traits} {p : SpanPair}

theorem Same.pos_le (h : p.Same) : p.fixed.outs.pos ≤ p.fixed.outs.memory.length := by
  have hlen := congrArg List.length h.data
  have hpos : p.fixed.outs.pos = p.dynamic.outs.outs.length := h.length
  change (p.fixed.outs.memory.take p.fixed.outs.pos).length = p.dynamic.outs.outs.length at hlen
  rw [List.length_take] at hlen
  omega

theorem Agree.same (h : p.Agree) (hgoes : p.goes = true) : p.Same := by
  unfold Agree at h
  unfold goes at hgoes
  match hr : p.results with
  | (.ok _, .ok _) =>
    rw [hr] at h
    exact h
  | (.error _, .error _) =>
    rw [hr] at h
    exact h.2.2
  | (.error _, .ok _) =>
    rw [hr] at hgoes
    cases hgoes
  | (.ok _, .error _) =>
    rw [hr] at h
    exact h.elim

end SpanPair

/-! ## A full buffer -/

theorem length_writeBytes {d : List UInt8} {n : Int} (hn : n ≤ d.length) :
    (writeBytes d n).length = n.toNat := by
  unfold writeBytes
  split
  · rw [List.length_take]
    omega
  · rw [List.length_nil]
    omega

namespace FixedBuffer

variable {w : Writer FixedBuffer} {d : List UInt8}

theorem exec_writeBytes_full {n : Int} (hn : n ≤ d.length) (hpositive : 0 < n)
    (hfull : w.outs.memory.length < w.outs.pos + (Yasio.writeBytes d n).length) :
    exec (Writer.writeBytes d n) w = (.error .outOfRange, w) := by
  rw [length_writeBytes hn] at hfull
  apply exec_onBuffer_error
  change FixedBuffer.writeBytes d n w.outs = _
  unfold FixedBuffer.writeBytes
  rw [if_pos hpositive]
  apply if_pos
  unfold maxSize
  rw [List.length_take]
  omega

theorem exec_write_full (traits : ConvertTraits) {size : IntSize} (value : ℕ)
    (hfull : w.outs.memory.length < w.outs.pos + size.bytes) :
    exec (Writer.write traits size value) w = (.error .outOfRange, w) := by
  have hlen := length_leBytes size.bytes (traits.swap size value)
  have hsize : 0 < size.bytes := by cases size <;> decide
  apply exec_writeBytes_full (Int.le_of_eq (by rw [hlen])) (Int.natCast_pos.2 hsize)
  rw [writeBytes_of_length hlen, hlen]
  exact hfull

/-- Bytes that do not fit are some bytes. -/
theorem pos_of_full {n : Int} (hn : n ≤ d.length) (hpos : w.outs.pos ≤ w.outs.memory.length)
    (hfull : w.outs.memory.length < w.outs.pos + (Yasio.writeBytes d n).length) : 0 < n := by
  rw [length_writeBytes hn] at hfull
  omega

theorem exec_fillBytes_full {n : ℕ} {val : UInt8}
    (hfull : w.outs.memory.length < w.outs.pos + n) :
    exec (Writer.fillBytes n val) w = (.error .outOfRange, w) :=
  exec_onBuffer_error (if_pos (.inr (by unfold maxSize; omega)))

/-- The length of a string goes into the buffer before the string turns out to be too long. -/
theorem exec_writeVFx_full (traits : ConvertTraits) (width : LengthWidth)
    (hfield : w.outs.pos + width.size.bytes ≤ w.outs.memory.length)
    (hfull : w.outs.memory.length <
      w.outs.pos + width.size.bytes + (Yasio.writeBytes d (toInt32 d.length)).length) :
    exec (Writer.writeVFx traits width d) w = (.error .outOfRange, { w with
      outs := w.outs.append (leBytes width.size.bytes (traits.swap width.size
        (Writer.castTo width.size (toInt32 d.length)))) }) := by
  have hroom : AppendSpan.Room w.outs (leBytes width.size.bytes (traits.swap width.size
      (Writer.castTo width.size (toInt32 d.length)))).length := by
    rw [length_leBytes]
    exact hfield
  have hwrite := appends_write traits width.size
    (Writer.castTo width.size (toInt32 d.length)) w hroom
  have hmem : (w.outs.append (leBytes width.size.bytes (traits.swap width.size
      (Writer.castTo width.size (toInt32 d.length))))).memory.length = w.outs.memory.length :=
    Memory.length_overwrite hroom
  have hcursor : (w.outs.append (leBytes width.size.bytes (traits.swap width.size
      (Writer.castTo width.size (toInt32 d.length))))).pos = w.outs.pos + width.size.bytes :=
    congrArg (w.outs.pos + ·) (length_leBytes _ _)
  have hfull' : (w.outs.append (leBytes width.size.bytes (traits.swap width.size
      (Writer.castTo width.size (toInt32 d.length))))).memory.length <
      (w.outs.append (leBytes width.size.bytes (traits.swap width.size
        (Writer.castTo width.size (toInt32 d.length))))).pos +
        (Yasio.writeBytes d (toInt32 d.length)).length := by omega
  have hpositive : 0 < toInt32 d.length :=
    pos_of_full (w := { w with outs := w.outs.append _ }) (toInt32_le d.length)
      (by dsimp only; omega) hfull'
  change exec (Writer.write traits width.size _ >>= fun _ => _) w = _
  rw [exec_bind_ok hwrite, if_pos hpositive.ne']
  exact exec_writeBytes_full (w := { w with outs := w.outs.append _ }) (toInt32_le d.length)
    hpositive hfull'

theorem exec_writeVFx_none (traits : ConvertTraits) (width : LengthWidth) (d : List UInt8)
    (hfield : w.outs.memory.length < w.outs.pos + width.size.bytes) :
    exec (Writer.writeVFx traits width d) w = (.error .outOfRange, w) := by
  change exec (Writer.write traits width.size _ >>= fun _ => _) w = _
  rw [exec_bind, exec_write_full traits _ hfield]

/-- Single bytes are written as long as there is room, and dropped then. -/
theorem exec_forM_writeByte (bs : List UInt8) (hpos : w.outs.pos ≤ w.outs.memory.length) :
    ∃ b : FixedBuffer, exec (bs.forM Writer.writeByte) w = (.ok (), { w with outs := b }) ∧
      b.memory.length = w.outs.memory.length ∧
        b.pos = min w.outs.memory.length (w.outs.pos + bs.length) := by
  induction bs generalizing w with
  | nil => exact ⟨w.outs, rfl, rfl, by rw [List.length_nil]; omega⟩
  | cons value bs ih =>
    obtain ⟨b, hbyte, hlen, hb⟩ : ∃ b : FixedBuffer,
        exec (Writer.writeByte value) w = (.ok (), { w with outs := b }) ∧
          b.memory.length = w.outs.memory.length ∧
            b.pos = min w.outs.memory.length (w.outs.pos + 1) := by
      by_cases hroom : w.outs.pos < w.outs.memory.length
      · refine ⟨_, exec_onBuffer_ok (if_pos hroom), Memory.length_overwrite ?_, ?_⟩
        · rw [List.length_singleton]
          exact hroom
        · dsimp only
          omega
      · exact ⟨w.outs, exec_onBuffer_ok (if_neg hroom), rfl, by omega⟩
    obtain ⟨b', hrest, hlen', hb'⟩ := ih (w := { w with outs := b }) (by dsimp only; omega)
    refine ⟨b', ?_, hlen'.trans hlen, ?_⟩
    · change exec (Writer.writeByte value >>= fun _ => bs.forM Writer.writeByte) w = _
      rw [exec_bind_ok hbyte, hrest]
    · rw [List.length_cons]
      dsimp only at hb'
      omega

end FixedBuffer

section

variable {w : Writer FixedBuffer} {op : Output}

/-- Where there is no room, these calls throw. -/
theorem Output.exec_full (traits : ConvertTraits) (hpos : w.outs.pos ≤ w.outs.memory.length)
    (hfull : w.outs.memory.length < w.outs.pos + (op.emit traits).length)
    (hop : StreamCall.throws op) :
    ∃ w', exec (op.run traits) w = (.error .outOfRange, w') ∧
      w'.outs.memory.length = w.outs.memory.length := by
  cases op with
  | byte value => exact hop.elim
  | ix32 value => exact hop.elim
  | ix64 value => exact hop.elim
  | int size value =>
    unfold emit at hfull
    dsimp only at hfull
    rw [writeBytes_of_length (length_leBytes _ _), length_leBytes] at hfull
    exact ⟨w, FixedBuffer.exec_write_full traits _ hfull, rfl⟩
  | varint value size =>
    obtain ⟨-, h4, hsize⟩ := clamp_range size
    have hn : clamp size 1 4 ≤
        (leBytes 4 (traits.swapInt value.toNat (clamp size 1 4).toNat)).length := by
      rw [length_leBytes]
      omega
    exact ⟨w, FixedBuffer.exec_writeBytes_full hn (FixedBuffer.pos_of_full hn hpos hfull) hfull,
      rfl⟩
  | bytes d =>
    have hn := toInt32_le d.length
    exact ⟨w, FixedBuffer.exec_writeBytes_full hn (FixedBuffer.pos_of_full hn hpos hfull) hfull,
      rfl⟩
  | fill n val =>
    unfold emit at hfull
    dsimp only at hfull
    rw [List.length_replicate] at hfull
    exact ⟨w, FixedBuffer.exec_fillBytes_full hfull, rfl⟩
  | v d =>
    unfold emit at hfull
    dsimp only at hfull
    rw [List.length_append] at hfull
    obtain ⟨b, hbytes, hlen, hb⟩ := FixedBuffer.exec_forM_writeByte (w := w)
      (writeIx (BitVec.ofInt 32 (toInt32 d.length)).toNat) hpos
    refine ⟨{ w with outs := b }, (exec_bind_ok hbytes).trans ?_, hlen⟩
    have hdata : 0 < (writeBytes d (toInt32 d.length)).length := by
      rw [length_writeBytes (toInt32_le d.length)]
      exact Int.pos_iff_toNat_pos.1 hop
    exact FixedBuffer.exec_writeBytes_full (w := { w with outs := b }) (toInt32_le d.length)
      hop (by dsimp only; omega)
  | vFx width d =>
    unfold emit at hfull
    dsimp only at hfull
    rw [writeBytes_of_length (length_leBytes _ _), List.length_append, length_leBytes] at hfull
    by_cases hfield : w.outs.pos + width.size.bytes ≤ w.outs.memory.length
    · refine ⟨_, FixedBuffer.exec_writeVFx_full traits width hfield (by omega), ?_⟩
      apply Memory.length_overwrite
      rw [length_leBytes]
      exact hfield
    · exact ⟨w, FixedBuffer.exec_writeVFx_none traits width d (by omega), rfl⟩

/-- The other calls return, whether there is room or not. -/
theorem Output.exec_drop (traits : ConvertTraits) (hpos : w.outs.pos ≤ w.outs.memory.length)
    (hop : ¬ StreamCall.throws op) :
    ∃ b : FixedBuffer, exec (op.run traits) w = (.ok (), { w with outs := b }) ∧
      b.memory.length = w.outs.memory.length := by
  have hbytes : ∀ bs : List UInt8, ∃ b : FixedBuffer,
      exec (bs.forM Writer.writeByte) w = (.ok (), { w with outs := b }) ∧
        b.memory.length = w.outs.memory.length := by
    intro bs
    obtain ⟨b, hexec, hlen, -⟩ := FixedBuffer.exec_forM_writeByte bs hpos
    exact ⟨b, hexec, hlen⟩
  cases op with
  | byte value =>
    have hone : ([value].forM Writer.writeByte : Writing FixedBuffer Unit) =
      Writer.writeByte value := bind_pure _
    have hvalue := hbytes [value]
    rw [hone] at hvalue
    exact hvalue
  | ix32 value => exact hbytes _
  | ix64 value => exact hbytes _
  | v d =>
    obtain ⟨b, hexec, hlen⟩ := hbytes (writeIx (BitVec.ofInt 32 (toInt32 d.length)).toNat)
    refine ⟨b, (exec_bind_ok hexec).trans (exec_onBuffer_ok ?_), hlen⟩
    have hnone : ¬ 0 < toInt32 d.length := hop
    change FixedBuffer.writeBytes d (toInt32 d.length) b = .ok b
    unfold FixedBuffer.writeBytes
    rw [if_neg hnone]
  | int size value => exact absurd trivial hop
  | varint value size => exact absurd trivial hop
  | bytes d => exact absurd trivial hop
  | fill n val => exact absurd trivial hop
  | vFx width d => exact absurd trivial hop

end

/-! ## One call -/

namespace SpanPair

variable {traits : ConvertTraits} {p : SpanPair}

theorem call_eq (op : StreamCall) {fixed : Writer FixedBuffer}
    {dynamic : Writer DynamicBuffer} {r r' : Except StreamError Unit}
    (hfixed : exec (op.run traits) p.fixed = (r, fixed))
    (hdynamic : exec (op.run traits) p.dynamic = (r', dynamic)) :
    p.call traits op = { fixed, dynamic, results := (r, r') } := by
  unfold call
  rw [hfixed, hdynamic]

/-- A stream that has grown beyond the capacity of the fixed one is not the same. -/
theorem not_same_of_lt {fixed : Writer FixedBuffer} {dynamic : Writer DynamicBuffer}
    {results : Except StreamError Unit × Except StreamError Unit}
    (h : fixed.outs.memory.length < dynamic.outs.outs.length) :
    ¬ Same { fixed, dynamic, results } := by
  intro hsame
  have hpos := hsame.pos_le
  have hlen : fixed.outs.pos = dynamic.outs.outs.length := hsame.length
  dsimp only at hpos
  omega

/-- The same bytes are appended to both streams. -/
theorem Same.append (h : p.Same) {d : List UInt8} {fixed : Writer FixedBuffer}
    {dynamic : Writer DynamicBuffer} {results : Except StreamError Unit × Except StreamError Unit}
    (hroom : p.fixed.outs.pos + d.length ≤ p.fixed.outs.memory.length)
    (hfixed : fixed.outs = p.fixed.outs.append d)
    (hdynamic : dynamic.outs = AppendSpan.append p.dynamic.outs d)
    (hstack : fixed.offsetStack = dynamic.offsetStack) : Same { fixed, dynamic, results } where
  data := by
    have hdata := AppendSpan.data_append p.fixed.outs d hroom
    have hdata' := AppendSpan.data_append p.dynamic.outs d trivial
    dsimp only
    rw [hfixed, hdynamic, hdata', ← h.data]
    exact hdata
  length := by
    dsimp only
    rw [hfixed, hdynamic, AppendSpan.length_append, ← h.length]
    rfl
  stack := hstack

theorem Same.output_iff (h : p.Same) (op : Output) :
    (p.call traits (.output op)).Agree ↔ (StreamCall.output op).Agrees traits p.fixed := by
  have hdynamic := op.appends traits p.dynamic trivial
  have hlen : BufferSpan.length p.dynamic.outs = p.fixed.outs.pos := h.length.symm
  by_cases hroom : p.fixed.outs.pos + (op.emit traits).length ≤ p.fixed.outs.memory.length
  · have hfixed := op.appends traits p.fixed hroom
    rw [call_eq (.output op) hfixed hdynamic]
    exact iff_of_true (h.append hroom rfl rfl h.stack) (.inl hroom)
  · -- The growing stream exceeds the capacity, so that the fixed one has to throw.
    have hgrown : p.fixed.outs.memory.length <
        (AppendSpan.append p.dynamic.outs (op.emit traits)).outs.length := by
      have hsum := AppendSpan.length_append p.dynamic.outs (op.emit traits)
      change (AppendSpan.append p.dynamic.outs (op.emit traits)).outs.length = _ at hsum
      omega
    by_cases hop : StreamCall.throws op
    · obtain ⟨w', hfixed, hmem⟩ := op.exec_full traits h.pos_le (by omega) hop
      rw [call_eq (.output op) hfixed hdynamic]
      exact iff_of_true ⟨rfl, hmem.trans_lt hgrown⟩ (.inr hop)
    · obtain ⟨b, hfixed, hmem⟩ := op.exec_drop traits h.pos_le hop
      rw [call_eq (.output op) hfixed hdynamic]
      refine iff_of_false (not_same_of_lt ?_) fun hagrees => ?_
      · rw [hmem]
        exact hgrown
      · exact hagrees.elim hroom hop

/-- A `pwrite` inside both streams. -/
theorem Same.store (h : p.Same) {offset : ℕ} {d : List UInt8} {stack stack' : List ℕ}
    (hstack : stack = stack') (results : Except StreamError Unit × Except StreamError Unit)
    (hd : offset + d.length ≤ BufferSpan.length p.dynamic.outs) :
    Same {
      fixed := { outs := BufferSpan.store offset d p.fixed.outs, offsetStack := stack }
      dynamic := { outs := BufferSpan.store offset d p.dynamic.outs, offsetStack := stack' }
      results } where
  data := by
    have hlen : BufferSpan.length p.dynamic.outs = p.fixed.outs.pos := h.length.symm
    have hsame : p.fixed.outs.memory.take p.fixed.outs.pos = p.dynamic.outs.outs := h.data
    change (overwrite p.fixed.outs.memory offset d).take p.fixed.outs.pos =
      overwrite p.dynamic.outs.outs offset d
    rw [Memory.take_overwrite_of_ge (by omega) h.pos_le, hsame]
  length := by
    have hlen : p.fixed.outs.pos = p.dynamic.outs.outs.length := h.length
    change p.fixed.outs.pos = (overwrite p.dynamic.outs.outs offset d).length
    rw [Memory.length_overwrite hd, hlen]
  stack := hstack

/-- A write behind the capacity throws on both. -/
theorem Same.writeBytesAt_error (h : p.Same) {offset : ℕ} {d : List UInt8}
    (hd : p.fixed.outs.maxSize < offset + d.length) :
    BufferSpan.writeBytesAt offset d p.fixed.outs = .error .outOfRange ∧
      BufferSpan.writeBytesAt offset d p.dynamic.outs = .error .outOfRange := by
  have hpos := h.pos_le
  have hlen : p.fixed.outs.pos = p.dynamic.outs.outs.length := h.length
  refine ⟨if_pos hd, if_pos ?_⟩
  unfold FixedBuffer.maxSize at hd
  omega

/-- Any other write at an offset moves the cursor of the fixed one, but not the end of the growing
one. -/
theorem Same.writeBytesAt_ok (h : p.Same) {offset : ℕ} {d : List UInt8}
    (hd : offset + d.length ≤ p.fixed.outs.maxSize) (hne : d ≠ []) :
    ∃ b : FixedBuffer, BufferSpan.writeBytesAt offset d p.fixed.outs = .ok b ∧
      ∀ b', BufferSpan.writeBytesAt offset d p.dynamic.outs = .ok b' →
        b.pos ≠ BufferSpan.length b' := by
  refine ⟨_, if_neg (Nat.not_lt.2 hd), fun b' hb' => ?_⟩
  have hpos := List.length_pos_iff.2 hne
  have hlen : p.fixed.outs.pos = p.dynamic.outs.outs.length := h.length
  change DynamicBuffer.writeBytesAt offset d p.dynamic.outs = .ok b' at hb'
  unfold DynamicBuffer.writeBytesAt at hb'
  split at hb'
  · cases hb'
  · next hfits =>
    cases hb'
    change p.fixed.outs.pos + d.length ≠ (overwrite p.dynamic.outs.outs offset d).length
    rw [Memory.length_overwrite (by omega)]
    omega

theorem not_agree_of_ok {fixed : Writer FixedBuffer} {dynamic : Writer DynamicBuffer}
    {r : Except StreamError Unit}
    (h : r = .ok () → BufferSpan.length fixed.outs ≠ BufferSpan.length dynamic.outs) :
    ¬ Agree { fixed, dynamic, results := (.ok (), r) } := by
  cases r with
  | ok u => exact fun hagree => h rfl (Same.length hagree)
  | error e => exact fun hagree => hagree

theorem Same.writeBytesAt_iff (h : p.Same) (offset : ℕ) (d : Blob)
    (hoffset : offset ≤ BufferSpan.length p.dynamic.outs) :
    (p.call traits (.writeBytesAt offset d)).Agree ↔
      (StreamCall.writeBytesAt offset d).Agrees traits p.fixed := by
  by_cases hd : p.fixed.outs.maxSize < offset + d.val.length
  · obtain ⟨hfixed, hdynamic⟩ := h.writeBytesAt_error hd
    rw [call_eq (.writeBytesAt offset d) (exec_onBuffer_error hfixed)
      (exec_onBuffer_error hdynamic)]
    exact iff_of_true ⟨nofun, nofun, h.data, h.length, h.stack⟩ (.inr hd)
  · by_cases hnil : d.val = []
    · have hfixed : BufferSpan.writeBytesAt offset d.val p.fixed.outs = .ok p.fixed.outs := by
        rw [hnil] at hd ⊢
        refine (if_neg hd).trans ?_
        rw [Memory.overwrite_nil]
        rfl
      have hdynamic : BufferSpan.writeBytesAt offset d.val p.dynamic.outs =
          .ok p.dynamic.outs := by
        rw [hnil]
        refine (if_neg (Nat.not_lt.2 hoffset)).trans ?_
        rw [Memory.overwrite_nil]
      rw [call_eq (.writeBytesAt offset d) (exec_onBuffer_ok hfixed) (exec_onBuffer_ok hdynamic)]
      exact iff_of_true ⟨h.data, h.length, h.stack⟩ (.inl hnil)
    · obtain ⟨b, hfixed, hdynamic⟩ := h.writeBytesAt_ok (Nat.not_lt.1 hd) hnil
      refine iff_of_false ?_ fun hagrees => hagrees.elim hnil hd
      cases hresult : BufferSpan.writeBytesAt offset d.val p.dynamic.outs with
      | ok b' =>
        rw [call_eq (.writeBytesAt offset d) (exec_onBuffer_ok hfixed) (exec_onBuffer_ok hresult)]
        exact not_agree_of_ok fun _ => hdynamic b' hresult
      | error e =>
        rw [call_eq (.writeBytesAt offset d) (exec_onBuffer_ok hfixed)
          (exec_onBuffer_error hresult)]
        exact not_agree_of_ok nofun

/-- A negative count throws on both streams or is undefined on both. -/
theorem Same.fillBytes_iff (h : p.Same) (n : Int) (val : UInt8) :
    (p.call traits (.fillBytes n val)).Agree ↔
      (StreamCall.fillBytes n val).Agrees traits p.fixed := by
  have hpos := h.pos_le
  have hlen : p.fixed.outs.pos = p.dynamic.outs.outs.length := h.length
  by_cases hneg : n < 0
  · by_cases hover : p.fixed.outs.pos + n < 0
    · have hfixed : BufferSpan.fillBytes n val p.fixed.outs = .error .outOfRange :=
        if_pos (.inl hover)
      have hdynamic : BufferSpan.fillBytes n val p.dynamic.outs = .error .badAlloc :=
        if_pos (by rwa [← hlen])
      rw [call_eq (.fillBytes n val) (exec_onBuffer_error hfixed) (exec_onBuffer_error hdynamic)]
      exact iff_of_true ⟨nofun, nofun, h.data, h.length, h.stack⟩ (.inr hover)
    · have hfixed : BufferSpan.fillBytes n val p.fixed.outs = .error .undefined :=
        (if_neg (by unfold FixedBuffer.maxSize; omega)).trans (if_pos hneg)
      have hdynamic : BufferSpan.fillBytes n val p.dynamic.outs = .error .undefined :=
        (if_neg (by omega)).trans (if_pos hneg)
      rw [call_eq (.fillBytes n val) (exec_onBuffer_error hfixed) (exec_onBuffer_error hdynamic)]
      refine iff_of_false (fun hagree => hagree.1 rfl) ?_
      rintro (hn | hover')
      · omega
      · exact hover hover'
  · have hn : 0 ≤ n := Int.not_lt.1 hneg
    obtain ⟨k, rfl⟩ := Int.eq_ofNat_of_zero_le hn
    have hsame : p.call traits (.fillBytes k val) = p.call traits (.output (.fill k val)) := rfl
    rw [hsame, h.output_iff]
    exact iff_of_true (.inr trivial) (.inl hn)

/-- A call that writes at the offset on the stack. -/
theorem Same.patch_iff (h : p.Same) (op : StreamCall) {offset : ℕ} {rest : List ℕ}
    (htop : p.fixed.offsetStack = offset :: rest) {d : List UInt8} (hne : d ≠ [])
    {f : ℕ → Writing FixedBuffer Unit} {g : ℕ → Writing DynamicBuffer Unit}
    (hop : op.run traits = Writer.withTop f) (hop' : op.run traits = Writer.withTop g)
    (hf : exec (f offset) p.fixed = exec (Writer.writeBytesAt offset d) p.fixed)
    (hg : exec (g offset) p.dynamic = exec (Writer.writeBytesAt offset d) p.dynamic) :
    (p.call traits op).Agree ↔ p.fixed.outs.maxSize < offset + d.length := by
  have htop' : p.dynamic.offsetStack = offset :: rest := h.stack ▸ htop
  by_cases hd : p.fixed.outs.maxSize < offset + d.length
  · obtain ⟨hfixed, hdynamic⟩ := h.writeBytesAt_error hd
    have hexec := exec_withTop_error htop (hf.trans (exec_onBuffer_error hfixed))
    have hexec' := exec_withTop_error htop' (hg.trans (exec_onBuffer_error hdynamic))
    rw [← hop] at hexec
    rw [← hop'] at hexec'
    rw [call_eq op hexec hexec']
    exact iff_of_true ⟨nofun, nofun, h.data, h.length, h.stack⟩ hd
  · obtain ⟨b, hfixed, hdynamic⟩ := h.writeBytesAt_ok (Nat.not_lt.1 hd) hne
    have hexec := exec_withTop htop (hf.trans (exec_onBuffer_ok hfixed))
    rw [← hop] at hexec
    refine iff_of_false ?_ hd
    cases hresult : BufferSpan.writeBytesAt offset d p.dynamic.outs with
    | ok b' =>
      have hexec' := exec_withTop htop' (hg.trans (exec_onBuffer_ok hresult))
      rw [← hop'] at hexec'
      rw [call_eq op hexec hexec']
      exact not_agree_of_ok fun _ => hdynamic b' hresult
    | error e =>
      have hexec' := exec_withTop_error htop' (hg.trans (exec_onBuffer_error hresult))
      rw [← hop'] at hexec'
      rw [call_eq op hexec hexec']
      exact not_agree_of_ok nofun

/-- What a pair becomes when both streams push the length on their stacks. -/
def pushed (p : SpanPair) : SpanPair :=
  { p with
    fixed := { p.fixed with
      offsetStack := BufferSpan.length p.fixed.outs :: p.fixed.offsetStack }
    dynamic := { p.dynamic with
      offsetStack := BufferSpan.length p.dynamic.outs :: p.dynamic.offsetStack } }

theorem Same.pushed (h : p.Same) : p.pushed.Same where
  data := h.data
  length := h.length
  stack := congrArg₂ List.cons h.length h.stack

theorem Same.agree_pwrite (h : p.Same) (op : StreamCall) {offset : ℕ} {d : List UInt8}
    {stack stack' : List ℕ} (hstack : stack = stack')
    (hd : offset + d.length ≤ BufferSpan.length p.dynamic.outs)
    (hfixed : exec (op.run traits) p.fixed =
      (.ok (), { outs := BufferSpan.store offset d p.fixed.outs, offsetStack := stack }))
    (hdynamic : exec (op.run traits) p.dynamic =
      (.ok (), { outs := BufferSpan.store offset d p.dynamic.outs, offsetStack := stack' })) :
    (p.call traits op).Agree := by
  rw [call_eq op hfixed hdynamic]
  exact h.store hstack _ hd

theorem take_leBytes_ne_nil (size : Int) (v : ℕ) :
    (leBytes 4 v).take (clamp size 1 4).toNat ≠ [] := by
  apply List.length_pos_iff.1
  rw [length_take_leBytes]
  exact (clamp_range size).1

theorem forall_mem_head?_iff {stack rest : List ℕ} {offset : ℕ} (h : stack = offset :: rest)
    {P : ℕ → Prop} : (∀ o ∈ stack.head?, P o) ↔ P offset := by
  rw [h, List.head?_cons]
  simp

/-- One call on two streams that are the same. -/
theorem Same.call_iff (h : p.Same) {op : StreamCall} (hvalid : op.Valid p.dynamic) :
    (p.call traits op).Agree ↔ op.Agrees traits p.fixed := by
  cases op with
  | output op => exact h.output_iff op
  | writeBytesAt offset d => exact h.writeBytesAt_iff offset d hvalid
  | fillBytes n val => exact h.fillBytes_iff n val
  | clear => exact iff_of_true ⟨rfl, rfl, rfl⟩ trivial
  | push size =>
    -- Only what `push<T>` returns is not the same as `fill_bytes`.
    have hsame : p.call traits (.push size) = p.call traits (.output (.fill size.bytes 0)) := by
      have hexec : ∀ {β : Type} [BufferSpan β] (w : Writer β),
          exec ((StreamCall.push size).run traits) w =
            exec ((StreamCall.output (.fill size.bytes 0)).run traits) w := by
        intro β _ w
        change exec (Writer.push size >>= fun _ => pure ()) w =
          exec (Writer.fillBytes size.bytes 0) w
        unfold Writer.push
        rw [bind_assoc, exec_bind_ok (Throwing.exec_get w), bind_assoc]
        simp only [pure_bind]
        exact congrFun (congrArg exec (bind_pure _)) w
      unfold call
      rw [hexec, hexec]
    rw [hsame, h.output_iff]
    exact iff_of_true (.inr trivial) trivial
  | pushFx width =>
    have hsame : p.call traits (.pushFx width) =
        p.pushed.call traits (.output (.int width.size 0)) := rfl
    rw [hsame, h.pushed.output_iff]
    exact iff_of_true (.inr trivial) trivial
  | pushSized size =>
    have hsame : p.call traits (.pushSized size) =
        p.pushed.call traits (.output (.fill (clamp size 1 4).toNat 0)) := rfl
    rw [hsame, h.pushed.output_iff]
    exact iff_of_true (.inr trivial) trivial
  | pop size offset =>
    refine iff_of_true ?_ trivial
    have hfixed := exec_pop traits size offset p.fixed
    have hdynamic := exec_pop traits size offset p.dynamic
    rw [h.length] at hfixed
    refine h.agree_pwrite (.pop size offset) h.stack ?_ hfixed hdynamic
    rw [length_leBytes]
    exact hvalid
  | popValue size offset value =>
    refine iff_of_true (h.agree_pwrite _ h.stack ?_ rfl rfl) trivial
    rw [length_leBytes]
    exact hvalid
  | popFx width =>
    obtain ⟨offset, htop, hoffset⟩ := hvalid
    obtain ⟨rest, hstack⟩ := List.head?_eq_some_iff.1 htop
    have hfixed := exec_withTop (h.stack.trans hstack)
      (exec_pop traits width.size offset p.fixed)
    have hdynamic := exec_withTop hstack (exec_pop traits width.size offset p.dynamic)
    rw [h.length] at hfixed
    refine iff_of_true (h.agree_pwrite (.popFx width) rfl ?_ hfixed hdynamic) trivial
    rw [length_leBytes]
    exact hoffset
  | popFxValue width value =>
    obtain ⟨offset, htop, hoffset⟩ := hvalid
    obtain ⟨rest, hstack⟩ := List.head?_eq_some_iff.1 htop
    have hfixed := exec_withTop (f := fun o => Writer.pwrite traits width.size o value)
      (h.stack.trans hstack) rfl
    have hdynamic := exec_withTop (f := fun o => Writer.pwrite traits width.size o value)
      hstack rfl
    refine iff_of_true (h.agree_pwrite (.popFxValue width value) rfl ?_ hfixed hdynamic) trivial
    rw [length_leBytes]
    exact hoffset
  | popSized size =>
    -- `pop(int)` reads the same length on both streams and calls `write_bytes` at the offset.
    obtain ⟨offset, htop, -⟩ := hvalid
    obtain ⟨rest, hstack⟩ := List.head?_eq_some_iff.1 htop
    have hfixed : exec (Writer.patchLength traits (clamp size 1 4).toNat offset) p.fixed =
        exec (Writer.writeBytesAt offset _) p.fixed := exec_bind_ok (Throwing.exec_get _)
    have hdynamic : exec (Writer.patchLength traits (clamp size 1 4).toNat offset) p.dynamic =
        exec (Writer.writeBytesAt offset _) p.dynamic := exec_bind_ok (Throwing.exec_get _)
    rw [h.length] at hfixed
    rw [h.patch_iff (.popSized size) (h.stack.trans hstack) (take_leBytes_ne_nil size _) rfl rfl
      hfixed hdynamic, length_take_leBytes]
    exact (forall_mem_head?_iff (h.stack.trans hstack)
      (P := fun o => p.fixed.outs.maxSize < o + (clamp size 1 4).toNat)).symm
  | popSizedValue value size =>
    obtain ⟨offset, htop, -⟩ := hvalid
    obtain ⟨rest, hstack⟩ := List.head?_eq_some_iff.1 htop
    rw [h.patch_iff (.popSizedValue value size) (h.stack.trans hstack)
      (take_leBytes_ne_nil size _) rfl rfl rfl rfl, length_take_leBytes]
    exact (forall_mem_head?_iff (h.stack.trans hstack)
      (P := fun o => p.fixed.outs.maxSize < o + (clamp size 1 4).toNat)).symm

theorem agree_start (memory : List UInt8) : (start memory).Agree :=
  ⟨rfl, rfl, rfl⟩

/-! ## Every sequence of calls -/

theorem Agree.step_iff (h : p.Agree) (op : StreamCall) :
    Allowed traits p op ↔ ∀ t, step traits op p = some t → t.Agree := by
  unfold Allowed step
  by_cases henabled : p.goes = true ∧ op.Valid p.dynamic
  · rw [forall_prop_of_true henabled, if_pos henabled, ← (h.same henabled.1).call_iff henabled.2]
    constructor
    · rintro hagree t ht
      exact Option.some.inj ht ▸ hagree
    · exact fun hall => hall _ rfl
  · rw [if_neg henabled]
    exact iff_of_true (fun hen => absurd hen henabled) nofun

end SpanPair

end Yasio
