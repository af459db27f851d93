import Yasio.Output

/-!
# Writing where there is room

On a buffer with enough room every call appends its bytes, whichever buffer it is.  A full
`fixed_buffer_span` throws or drops bytes.
-/

namespace Yasio

open Memory (overwrite)
open Throwing (exec exec_bind exec_bind_ok)

/-- A buffer with the state that it has after more bytes, and the room that there is for them. -/
class AppendSpan (β : Type) extends BufferSpan β where
  append : β → List UInt8 → β
  Room : β → ℕ → Prop
  append_nil : ∀ b, append b [] = b
  append_append : ∀ b d e, Room b (d ++ e).length → append (append b d) e = append b (d ++ e)
  room_append : ∀ b d n, Room b (d.length + n) ↔ Room b d.length ∧ Room (append b d) n
  length_append : ∀ b d, length (append b d) = length b + d.length
  data_append : ∀ b d, Room b d.length → data (append b d) = data b ++ d
  writeByte_eq : ∀ b value, Room b 1 → writeByte value b = .ok (append b [value])
  writeBytes_eq : ∀ b d (n : Int), n ≤ d.length → Room b (Yasio.writeBytes d n).length →
    writeBytes d n b = .ok (append b (Yasio.writeBytes d n))
  fillBytes_eq : ∀ b (n : ℕ) val, Room b n →
    fillBytes n val b = .ok (append b (List.replicate n val))
  store_append : ∀ b z d e, z.length = d.length → Room b (z ++ e).length →
    store (length b) d (append b (z ++ e)) = append b (d ++ e)

namespace AppendSpan

variable {β : Type} [AppendSpan β] {b : β} {m n : ℕ} {d e : List UInt8}

theorem room_left (h : Room b (d ++ e).length) : Room b d.length := by
  rw [List.length_append] at h
  exact ((room_append b d e.length).1 h).1

theorem room_right (h : Room b (d ++ e).length) : Room (append b d) e.length := by
  rw [List.length_append] at h
  exact ((room_append b d e.length).1 h).2

end AppendSpan

instance : AppendSpan DynamicBuffer where
  append b d := { outs := b.outs ++ d }
  Room _ _ := True
  append_nil b := congrArg DynamicBuffer.mk (List.append_nil b.outs)
  append_append b d e _ := congrArg DynamicBuffer.mk (List.append_assoc b.outs d e)
  room_append _ _ _ := iff_of_true trivial ⟨trivial, trivial⟩
  length_append b d := List.length_append
  data_append _ _ _ := rfl
  writeByte_eq _ _ _ := rfl
  writeBytes_eq _ _ _ _ _ := rfl
  fillBytes_eq b n val _ := by
    change DynamicBuffer.fillBytes n val b = _
    unfold DynamicBuffer.fillBytes
    rw [if_neg (by omega), if_neg (by omega), Int.toNat_natCast]
  store_append b z d e hlen _ := by
    change DynamicBuffer.mk (overwrite (b.outs ++ (z ++ e)) b.outs.length d) = _
    rw [← List.append_assoc, Memory.overwrite_between hlen, List.append_assoc]

namespace FixedBuffer

/-- The buffer after more bytes. -/
def append (b : FixedBuffer) (d : List UInt8) : FixedBuffer :=
  { b with memory := overwrite b.memory b.pos d, pos := b.pos + d.length }

theorem append_append {b : FixedBuffer} {d e : List UInt8}
    (h : b.pos + (d ++ e).length ≤ b.memory.length) :
    (b.append d).append e = b.append (d ++ e) := by
  rw [List.length_append] at h
  unfold append
  dsimp only
  congr 1
  · -- The second copy starts where the first one ends.
    have hfront := Memory.take_overwrite (m := b.memory) (k := b.pos) (d := d) (by omega)
    have hback := Memory.drop_overwrite (m := b.memory) (k := b.pos) (d := d)
      (n := b.pos + d.length + e.length) (by omega) (by omega)
    rw [overwrite, hfront, hback, overwrite, List.length_append, Nat.add_assoc]
    simp only [List.append_assoc]
  · rw [List.length_append, Nat.add_assoc]

theorem store_append {b : FixedBuffer} {z d e : List UInt8} (hlen : z.length = d.length)
    (h : b.pos ≤ b.memory.length) :
    BufferSpan.store b.pos d (b.append (z ++ e)) = b.append (d ++ e) := by
  have hfront : (b.memory.take b.pos).length = b.pos := by
    rw [List.length_take, Nat.min_eq_left h]
  have hsame : b.pos + (z ++ e).length = b.pos + (d ++ e).length := by
    rw [List.length_append, List.length_append, hlen]
  have hover : overwrite (overwrite b.memory b.pos (z ++ e)) b.pos d =
      overwrite b.memory b.pos (d ++ e) := by
    have hbetween := Memory.overwrite_between (a := b.memory.take b.pos)
      (b := e ++ b.memory.drop (b.pos + (d ++ e).length)) hlen
    rw [hfront] at hbetween
    unfold overwrite at hbetween ⊢
    simp only [List.append_assoc, hsame] at hbetween ⊢
    exact hbetween
  exact congrArg₂ FixedBuffer.mk hover hsame

end FixedBuffer

instance : AppendSpan FixedBuffer where
  append := FixedBuffer.append
  Room b n := b.pos + n ≤ b.memory.length
  append_nil b := by simp [FixedBuffer.append]
  append_append _ _ _ h := FixedBuffer.append_append h
  room_append b d n := by
    unfold FixedBuffer.append
    dsimp only
    constructor
    · intro h
      rw [Memory.length_overwrite (by omega)]
      omega
    · rintro ⟨hd, hn⟩
      rw [Memory.length_overwrite hd] at hn
      omega
  length_append _ _ := rfl
  data_append b d h := Memory.take_overwrite (by omega)
  writeByte_eq b value h := if_pos (by unfold FixedBuffer.maxSize; omega)
  writeBytes_eq b d n hn h := by
    change FixedBuffer.writeBytes d n b = _
    unfold FixedBuffer.writeBytes Yasio.writeBytes at *
    split
    · next hpos =>
      rw [if_pos hpos] at h
      exact if_neg (by unfold FixedBuffer.maxSize; omega)
    · simp [FixedBuffer.append]
  fillBytes_eq b n val h := by
    change FixedBuffer.fillBytes n val b = _
    unfold FixedBuffer.fillBytes FixedBuffer.append
    rw [if_neg (by unfold FixedBuffer.maxSize; omega), if_neg (by omega), Int.toNat_natCast,
      List.length_replicate]
  store_append _ _ _ _ hlen h := FixedBuffer.store_append hlen (by omega)

/-! ## Calls that append -/

theorem exec_onBuffer_ok {β : Type} {f : β → Except StreamError β} {w : Writer β} {b : β}
    (hf : f w.outs = .ok b) : exec (Writer.onBuffer f) w = (.ok (), { w with outs := b }) := by
  unfold Writer.onBuffer
  rw [exec_bind_ok (Throwing.exec_get w), hf]
  rfl

theorem exec_onBuffer_error {β : Type} {f : β → Except StreamError β} {w : Writer β}
    {e : StreamError} (hf : f w.outs = .error e) :
    exec (Writer.onBuffer f) w = (.error e, w) := by
  unfold Writer.onBuffer
  rw [exec_bind_ok (Throwing.exec_get w), hf]
  rfl

section

variable {β : Type} [AppendSpan β] {run next : Writing β Unit} {d e : List UInt8}

/-- Where there is room for these bytes, the call appends them and does nothing else. -/
def Appends (run : Writing β Unit) (d : List UInt8) : Prop :=
  ∀ w : Writer β, AppendSpan.Room w.outs d.length →
    exec run w = (.ok (), { w with outs := AppendSpan.append w.outs d })

theorem Appends.bind (hrun : Appends run d) (hnext : Appends next e) :
    Appends (run >>= fun _ => next) (d ++ e) := by
  intro w hw
  rw [exec_bind_ok (hrun w (AppendSpan.room_left hw)), hnext _ (AppendSpan.room_right hw)]
  dsimp only
  rw [AppendSpan.append_append _ _ _ hw]

theorem appends_pure : Appends (pure () : Writing β Unit) [] := by
  intro w _
  rw [AppendSpan.append_nil]
  rfl

theorem appends_onBuffer {f : β → Except StreamError β}
    (hf : ∀ b, AppendSpan.Room b d.length → f b = .ok (AppendSpan.append b d)) :
    Appends (Writer.onBuffer f) d :=
  fun w hw => exec_onBuffer_ok (hf w.outs hw)

theorem appends_writeByte (value : UInt8) :
    Appends (Writer.writeByte value : Writing β Unit) [value] :=
  appends_onBuffer fun b hb => AppendSpan.writeByte_eq b value hb

theorem appends_writeBytes (d : List UInt8) {n : Int} (hn : n ≤ d.length) :
    Appends (Writer.writeBytes d n : Writing β Unit) (writeBytes d n) :=
  appends_onBuffer fun b hb => AppendSpan.writeBytes_eq b d n hn hb

theorem appends_fillBytes (n : ℕ) (val : UInt8) :
    Appends (Writer.fillBytes n val : Writing β Unit) (List.replicate n val) := by
  apply appends_onBuffer
  intro b hb
  rw [List.length_replicate] at hb
  exact AppendSpan.fillBytes_eq b n val hb

theorem appends_write (traits : ConvertTraits) (size : IntSize) (value : ℕ) :
    Appends (Writer.write traits size value : Writing β Unit)
      (leBytes size.bytes (traits.swap size value)) := by
  have happends := appends_writeBytes (β := β) (leBytes size.bytes (traits.swap size value))
    (n := size.bytes) (by rw [length_leBytes])
  rwa [writeBytes_of_length (length_leBytes _ _)] at happends

theorem appends_forM_writeByte (bs : List UInt8) :
    Appends (bs.forM Writer.writeByte : Writing β Unit) bs := by
  induction bs with
  | nil => exact appends_pure
  | cons b bs ih => exact (appends_writeByte b).bind ih

theorem appends_writeV (d : List UInt8) :
    Appends (Writer.writeV d : Writing β Unit)
      (writeIx (BitVec.ofInt 32 (toInt32 d.length)).toNat ++ writeBytes d (toInt32 d.length)) :=
  (appends_forM_writeByte _).bind (appends_writeBytes d (toInt32_le d.length))

theorem appends_writeVFx (traits : ConvertTraits) (width : LengthWidth) (d : List UInt8) :
    Appends (Writer.writeVFx traits width d : Writing β Unit)
      (leBytes width.size.bytes
        (traits.swap width.size (Writer.castTo width.size (toInt32 d.length))) ++
        writeBytes d (toInt32 d.length)) := by
  apply (appends_write traits width.size _).bind
  split
  · exact appends_writeBytes d (toInt32_le d.length)
  · next hzero =>
    have hnil : writeBytes d (toInt32 d.length) = [] := if_neg (by omega)
    rw [hnil]
    exact appends_pure

/-- Every call appends what it emits. -/
theorem Output.appends (traits : ConvertTraits) (op : Output) :
    Appends (op.run traits : Writing β Unit) (op.emit traits) := by
  cases op with
  | int size value =>
    unfold emit
    dsimp only
    rw [writeBytes_of_length (length_leBytes _ _)]
    exact appends_write traits size value
  | ix32 value => exact appends_forM_writeByte _
  | ix64 value => exact appends_forM_writeByte _
  | varint value size =>
    obtain ⟨-, h4, hsize⟩ := clamp_range size
    apply appends_writeBytes
    rw [length_leBytes]
    omega
  | byte value => exact appends_writeByte value
  | bytes d => exact appends_writeBytes d (toInt32_le d.length)
  | fill n val => exact appends_fillBytes n val
  | v d => exact appends_writeV d
  | vFx width d =>
    unfold emit
    dsimp only
    rw [writeBytes_of_length (length_leBytes _ _)]
    exact appends_writeVFx traits width d

/-- The calls of a round trip, on a buffer. -/
def Write.output : Write → Output
  | .int size value => .int size value
  | .ix32 value => .ix32 value
  | .ix64 value => .ix64 value
  | .varint value size => .varint value size
  | .byte value => .byte value
  | .bytes d => .bytes d.val
  | .v d => .v d.val

theorem Write.emit_output (traits : ConvertTraits) (w : Write) :
    w.output.emit traits = w.emit traits := by
  cases w <;> rfl

/-- A buffer with room for them holds the written bytes after these calls. -/
theorem appends_written (traits : ConvertTraits) (ws : List Write) :
    Appends (ws.forM fun w => w.output.run traits : Writing β Unit) (written traits ws) := by
  induction ws with
  | nil => exact appends_pure
  | cons w ws ih =>
    have happends := (w.output.appends traits : Appends (w.output.run traits : Writing β Unit) _)
    rw [w.emit_output traits] at happends
    exact happends.bind ih

end

/-! ## The top of the stack -/

theorem exec_withTop {β : Type} {f : ℕ → Writing β Unit} {w w' : Writer β} {offset : ℕ}
    {rest : List ℕ} (htop : w.offsetStack = offset :: rest)
    (hf : exec (f offset) w = (.ok (), w')) :
    exec (Writer.withTop f) w = (.ok (), { w' with offsetStack := rest }) := by
  unfold Writer.withTop
  rw [exec_bind_ok (Throwing.exec_get w), htop]
  dsimp only
  rw [exec_bind_ok hf]
  rfl

theorem exec_withTop_error {β : Type} {f : ℕ → Writing β Unit} {w w' : Writer β} {offset : ℕ}
    {rest : List ℕ} {e : StreamError} (htop : w.offsetStack = offset :: rest)
    (hf : exec (f offset) w = (.error e, w')) :
    exec (Writer.withTop f) w = (.error e, w') := by
  unfold Writer.withTop
  rw [exec_bind_ok (Throwing.exec_get w), htop]
  dsimp only
  rw [exec_bind, hf]

theorem exec_pop {β : Type} [BufferSpan β] (traits : ConvertTraits) (size : IntSize) (offset : ℕ)
    (w : Writer β) :
    exec (Writer.pop traits size offset) w = (.ok (), { w with
      outs := BufferSpan.store offset (leBytes size.bytes (traits.swap size (Writer.castTo size
        ((BufferSpan.length w.outs : Int) - offset - size.bytes)))) w.outs }) := rfl

/-- The bytes that `pop(int)` writes over the field are as many as the field has. -/
theorem length_take_leBytes (size : Int) (v : ℕ) :
    ((leBytes 4 v).take (clamp size 1 4).toNat).length = (clamp size 1 4).toNat := by
  rw [List.length_take, length_leBytes, Nat.min_eq_left (clamp_range size).2.1]

end Yasio
