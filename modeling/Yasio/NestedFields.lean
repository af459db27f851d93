import Yasio.Appending

/-!
# Nested length fields

`push` writes zeros and `pop` writes over them how many bytes have followed.  The offset in between
is kept by the caller, or on `offset_stack_` where that is built in.
-/

namespace Yasio

open Memory (overwrite)
open Throwing (exec exec_bind exec_bind_ok)

/-! ## Trees of fields -/

/-- Writes in order, with length fields in front of some of them. -/
inductive FieldTree (F : Type)
  | nil
  | write (op : Output) (rest : FieldTree F)
  | field (f : F) (body rest : FieldTree F)

/-- The pairs of `push` and `pop` with the stack; a size that is not one of 1 to 4 is clamped. -/
inductive StackField
  | fx (width : LengthWidth)
  | sized (size : Int)

def StackField.bytes : StackField → ℕ
  | fx width => width.size.bytes
  | sized size => (clamp size 1 4).toNat

namespace FieldTree

variable {F G : Type}

/-- The bytes of the tree: a field holds how many bytes the part behind it has. -/
def render (traits : ConvertTraits) (bytes : F → ℕ) : FieldTree F → List UInt8
  | nil => []
  | write op rest => op.emit traits ++ render traits bytes rest
  | field f body rest =>
    (traits.order (leBytes (bytes f) (render traits bytes body).length) ++
      render traits bytes body) ++ render traits bytes rest

def map (g : F → G) : FieldTree F → FieldTree G
  | nil => nil
  | write op rest => write op (rest.map g)
  | field f body rest => field (g f) (body.map g) (rest.map g)

/-- All fields of the tree have this property. -/
def All (P : F → Prop) : FieldTree F → Prop
  | nil => True
  | write _ rest => rest.All P
  | field f body rest => P f ∧ body.All P ∧ rest.All P

end FieldTree

section

variable {β : Type} [BufferSpan β] (traits : ConvertTraits)

/-- The calls of a tree, with the offsets that `push<T>` returns. -/
def FieldTree.runOffsets : FieldTree IntSize → Writing β Unit
  | nil => return
  | write op rest => do
    op.run traits
    rest.runOffsets
  | field size body rest => do
    let offset ← Writer.push size
    body.runOffsets
    Writer.pop traits size offset
    rest.runOffsets

def StackField.push : StackField → Writing β Unit
  | fx width => Writer.pushFx traits width
  | sized size => Writer.pushSized size

def StackField.pop : StackField → Writing β Unit
  | fx width => Writer.popFx traits width
  | sized size => Writer.popSized traits size

/-- The calls of a tree, with the offsets on the stack. -/
def FieldTree.runStack : FieldTree StackField → Writing β Unit
  | nil => return
  | write op rest => do
    op.run traits
    rest.runStack
  | field f body rest => do
    f.push traits
    body.runStack
    f.pop traits
    rest.runStack

end

/-- Wherever these bytes have room, the calls leave them behind what the stream held, and nothing
else. -/
def Renders {β : Type} [AppendSpan β] (run : Writing β Unit) (out : List UInt8) : Prop :=
  ∀ w : Writer β, AppendSpan.Room w.outs out.length → ∃ w', exec run w = (.ok (), w') ∧
    BufferSpan.data w'.outs = BufferSpan.data w.outs ++ out ∧
      BufferSpan.length w'.outs = BufferSpan.length w.outs + out.length ∧
        w'.offsetStack = w.offsetStack

/-! ## One field -/

theorem leBytes_mod (n v : ℕ) : leBytes n (v % 256 ^ n) = leBytes n v := by
  have hback := leBytes_leNat (leBytes n (v % 256 ^ n))
  have hback' := leBytes_leNat (leBytes n v)
  rw [length_leBytes, leNat_leBytes] at hback hback'
  rw [← hback, ← hback', Nat.mod_mod]

/-- The number of bytes behind a field, as the code computes it from the length of the stream. -/
theorem castTo_behind (size : IntSize) (offset n : ℕ) :
    Writer.castTo size (((offset + (size.bytes + n) : ℕ) : Int) - offset - size.bytes) =
      n % 256 ^ size.bytes := by
  have hbehind : ((offset + (size.bytes + n) : ℕ) : Int) - offset - size.bytes = n := by omega
  rw [hbehind, Writer.castTo, ← pow_eight_mul]
  exact Int.toNat_natCast _

theorem leBytes_castTo (traits : ConvertTraits) (size : IntSize) (offset n : ℕ) :
    leBytes size.bytes (traits.swap size
      (Writer.castTo size (((offset + (size.bytes + n) : ℕ) : Int) - offset - size.bytes))) =
        traits.order (leBytes size.bytes n) := by
  rw [castTo_behind, traits.leBytes_swap size (Nat.mod_lt _ (Nat.pow_pos (by norm_num))),
    leBytes_mod]

section

variable {β : Type} [AppendSpan β] {run : Writing β Unit} {d : List UInt8}

/-- The bytes of a field are written over the zeros in front of what has followed. -/
theorem AppendSpan.store_behind {b : β} {z e : List UInt8} (hlen : z.length = e.length)
    (hroom : Room b (e ++ d).length) :
    BufferSpan.store (BufferSpan.length b) e (append (append b z) d) = append b (e ++ d) := by
  have hsame : (z ++ d).length = (e ++ d).length := by
    rw [List.length_append, List.length_append, hlen]
  have hroom' : Room b (z ++ d).length := hsame ▸ hroom
  rw [append_append _ _ _ hroom', store_append _ _ _ _ hlen hroom']

theorem AppendSpan.length_behind {b : β} {z : List UInt8} :
    BufferSpan.length (append (append b z) d) = BufferSpan.length b + (z.length + d.length) := by
  rw [length_append, length_append, Nat.add_assoc]

/-- `pop<T>` behind the zeros of a field and what has followed them. -/
theorem exec_pop_behind (traits : ConvertTraits) (size : IntSize) {w : Writer β} {z : List UInt8}
    (stack : List ℕ) (hz : z.length = size.bytes)
    (hroom : AppendSpan.Room w.outs
      (traits.order (leBytes size.bytes d.length) ++ d).length) :
    exec (Writer.pop traits size (BufferSpan.length w.outs))
      { outs := AppendSpan.append (AppendSpan.append w.outs z) d, offsetStack := stack } =
        (.ok (), {
          outs := AppendSpan.append w.outs (traits.order (leBytes size.bytes d.length) ++ d)
          offsetStack := stack }) := by
  rw [exec_pop]
  dsimp only
  rw [AppendSpan.length_behind, hz, leBytes_castTo, AppendSpan.store_behind _ hroom]
  rw [hz, traits.length_order, length_leBytes]

/-- There is room for the zeros of a field when there is room for its bytes. -/
theorem room_zeros {b : β} (traits : ConvertTraits) {size n : ℕ} {z : List UInt8}
    (hz : z.length = size)
    (hroom : AppendSpan.Room b (traits.order (leBytes size n) ++ d).length) :
    AppendSpan.Room b (z ++ d).length := by
  rw [List.length_append, traits.length_order, length_leBytes] at hroom
  rwa [List.length_append, hz]

/-- `push<T>`, some writes, and `pop<T>` with the offset. -/
theorem Appends.offsets (h : Appends run d) (traits : ConvertTraits) (size : IntSize) :
    Appends (Writer.push size >>= fun offset => run >>= fun _ => Writer.pop traits size offset)
      (traits.order (leBytes size.bytes d.length) ++ d) := by
  intro w hw
  have hzeros : (List.replicate size.bytes (0 : UInt8)).length = size.bytes :=
    List.length_replicate
  have hroom := room_zeros traits hzeros hw
  have hpush : exec (Writer.push size) w = (.ok (BufferSpan.length w.outs),
      { w with outs := AppendSpan.append w.outs (List.replicate size.bytes 0) }) := by
    unfold Writer.push
    rw [exec_bind_ok (Throwing.exec_get w),
      exec_bind_ok (appends_fillBytes size.bytes 0 w (AppendSpan.room_left hroom))]
    rfl
  rw [exec_bind_ok hpush, exec_bind_ok (h _ (AppendSpan.room_right hroom))]
  exact exec_pop_behind traits size w.offsetStack hzeros hw

/-- `push8`, `push16` or `push32`, some writes, and the matching `pop`. -/
theorem Appends.stackFx (h : Appends run d) (traits : ConvertTraits) (width : LengthWidth) :
    Appends (Writer.pushFx traits width >>= fun _ => run >>= fun _ => Writer.popFx traits width)
      (traits.order (leBytes width.size.bytes d.length) ++ d) := by
  intro w hw
  have hzeros : (leBytes width.size.bytes (traits.swap width.size 0)).length = width.size.bytes :=
    length_leBytes _ _
  have hroom := room_zeros traits hzeros hw
  have hpush : exec (Writer.pushFx traits width) w = (.ok (), {
      outs := AppendSpan.append w.outs (leBytes width.size.bytes (traits.swap width.size 0))
      offsetStack := BufferSpan.length w.outs :: w.offsetStack }) :=
    appends_write traits width.size 0 { w with
      offsetStack := BufferSpan.length w.outs :: w.offsetStack } (AppendSpan.room_left hroom)
  rw [exec_bind_ok hpush, exec_bind_ok (h _ (AppendSpan.room_right hroom))]
  exact exec_withTop rfl (exec_pop_behind traits width.size _ hzeros hw)

end

/-- The bytes that `pop(int)` writes. -/
theorem take_leBytes_swapInt (traits : ConvertTraits) {size : ℕ} (h1 : 1 ≤ size) (h4 : size ≤ 4)
    (n : ℕ) : (leBytes 4 (traits.swapInt (BitVec.ofInt 32 n).toNat size)).take size =
      traits.order (leBytes size n) := by
  have hvalue : (BitVec.ofInt 32 (n : Int)).toNat = n % 256 ^ 4 := by
    rw [BitVec.ofInt_natCast, BitVec.toNat_ofNat]
    norm_num
  have hlow : leBytes size (n % 256 ^ 4) = leBytes size n := by
    rw [← leBytes_mod size (n % 256 ^ 4), Nat.mod_mod_of_dvd _ (pow_dvd_pow 256 h4), leBytes_mod]
  rw [hvalue, take_leBytes h4, traits.leBytes_swapInt h1 h4 (Nat.mod_lt _ (by norm_num)), hlow]

theorem DynamicBuffer.writeBytesAt_eq {b : DynamicBuffer} {offset : ℕ} {d : List UInt8}
    (h : offset + d.length ≤ BufferSpan.length b) :
    BufferSpan.writeBytesAt offset d b = .ok (BufferSpan.store offset d b) :=
  if_neg (Nat.not_lt.2 h)

/-- `pop(int)` behind the zeros of a field and what has followed them, on a growing buffer. -/
theorem exec_patchLength_behind (traits : ConvertTraits) {size : ℕ} (h1 : 1 ≤ size)
    (h4 : size ≤ 4) {w : Writer DynamicBuffer} {z d : List UInt8} (stack : List ℕ)
    (hz : z.length = size) :
    exec (Writer.patchLength traits size (BufferSpan.length w.outs))
      { outs := AppendSpan.append (AppendSpan.append w.outs z) d, offsetStack := stack } =
        (.ok (), {
          outs := AppendSpan.append w.outs (traits.order (leBytes size d.length) ++ d)
          offsetStack := stack }) := by
  have hlen : (traits.order (leBytes size d.length)).length = size := by simp
  have hbehind : ((BufferSpan.length w.outs + (size + d.length) : ℕ) : Int) -
      BufferSpan.length w.outs - size = d.length := by omega
  have hinside : BufferSpan.length w.outs + (traits.order (leBytes size d.length)).length ≤
      BufferSpan.length (AppendSpan.append (AppendSpan.append w.outs z) d) := by
    rw [AppendSpan.length_behind, hlen, hz]
    omega
  unfold Writer.patchLength Writer.patchValue Writer.writeBytesAt
  rw [exec_bind_ok (Throwing.exec_get _)]
  dsimp only
  rw [AppendSpan.length_behind, hz, hbehind, take_leBytes_swapInt traits h1 h4,
    exec_onBuffer_ok (DynamicBuffer.writeBytesAt_eq hinside),
    AppendSpan.store_behind (hz.trans hlen.symm) trivial]

/-- On a growing buffer: `push(int)`, some writes, and `pop(int)`. -/
theorem Appends.stackSized {run : Writing DynamicBuffer Unit} {d : List UInt8} (h : Appends run d)
    (traits : ConvertTraits) (size : Int) :
    Appends (Writer.pushSized size >>= fun _ => run >>= fun _ => Writer.popSized traits size)
      (traits.order (leBytes (clamp size 1 4).toNat d.length) ++ d) := by
  intro w hw
  obtain ⟨h1, h4, -⟩ := clamp_range size
  have hpush : exec (Writer.pushSized size) w = (.ok (), {
      outs := AppendSpan.append w.outs (List.replicate (clamp size 1 4).toNat 0)
      offsetStack := BufferSpan.length w.outs :: w.offsetStack }) := rfl
  rw [exec_bind_ok hpush, exec_bind_ok (h _ trivial)]
  exact exec_withTop rfl (exec_patchLength_behind traits h1 h4 _ List.length_replicate)

/-! ## Whole trees -/

section

variable {β : Type} [AppendSpan β] {traits : ConvertTraits}

theorem appends_runOffsets (tree : FieldTree IntSize) :
    Appends (tree.runOffsets traits : Writing β Unit) (tree.render traits IntSize.bytes) := by
  induction tree with
  | nil => exact appends_pure
  | write op rest ih => exact (op.appends traits).bind ih
  | field size body rest hbody hrest =>
    have happends := (hbody.offsets traits size).bind hrest
    simp only [bind_assoc] at happends
    exact happends

/-- One pair of `push` and `pop` with the stack does what the tree says. -/
def StackField.Works (β : Type) [AppendSpan β] (traits : ConvertTraits) (f : StackField) : Prop :=
  ∀ (run : Writing β Unit) d, Appends run d →
    Appends (f.push traits >>= fun _ => run >>= fun _ => f.pop traits)
      (traits.order (leBytes f.bytes d.length) ++ d)

theorem appends_runStack {tree : FieldTree StackField}
    (htree : tree.All (StackField.Works β traits)) :
    Appends (tree.runStack traits : Writing β Unit) (tree.render traits StackField.bytes) := by
  induction tree with
  | nil => exact appends_pure
  | write op rest ih => exact (op.appends traits).bind (ih htree)
  | field f body rest hbody hrest =>
    -- The body is all that `pop` counts, and it leaves the stack as it was.
    obtain ⟨hf, htbody, htrest⟩ := htree
    have happends := (hf _ _ (hbody htbody)).bind (hrest htrest)
    simp only [bind_assoc] at happends
    exact happends

theorem StackField.works_fx (width : LengthWidth) : (fx width).Works β traits :=
  fun _ _ h => h.stackFx traits width

theorem Appends.renders {run : Writing β Unit} {out : List UInt8} (h : Appends run out) :
    Renders run out := by
  intro w hw
  exact ⟨_, h w hw, AppendSpan.data_append _ _ hw, AppendSpan.length_append _ _, rfl⟩

end

theorem FieldTree.All.mono {F : Type} {P Q : F → Prop} (hPQ : ∀ f, P f → Q f) {tree : FieldTree F}
    (h : tree.All P) : tree.All Q := by
  induction tree with
  | nil => trivial
  | write op rest ih => exact ih h
  | field f body rest hbody hrest => exact ⟨hPQ f h.1, hbody h.2.1, hrest h.2.2⟩

theorem FieldTree.all_of_forall {F : Type} {P : F → Prop} (hP : ∀ f, P f) (tree : FieldTree F) :
    tree.All P := by
  induction tree with
  | nil => trivial
  | write op rest ih => exact ih
  | field f body rest hbody hrest => exact ⟨hP f, hbody, hrest⟩

theorem StackField.works_dynamic (traits : ConvertTraits) (f : StackField) :
    f.Works DynamicBuffer traits := by
  cases f with
  | fx width => exact works_fx width
  | sized size => exact fun _ _ h => h.stackSized traits size

/-- The same tree with `push8`, `push16` and `push32` or with their types. -/
theorem render_map (traits : ConvertTraits) (tree : FieldTree LengthWidth) :
    (tree.map LengthWidth.size).render traits IntSize.bytes =
      (tree.map StackField.fx).render traits StackField.bytes := by
  induction tree with
  | nil => rfl
  | write op rest ih => exact congrArg (op.emit traits ++ ·) ih
  | field width body rest hbody hrest =>
    change (_ ++ _) ++ _ = (_ ++ _) ++ _
    rw [hbody, hrest]
    rfl

/-! ## `pop(int)` on a fixed buffer -/

/-- The calls advance the cursor of a fixed buffer by `n`. -/
def Advances (run : Writing FixedBuffer Unit) (n : ℕ) : Prop :=
  ∀ w : Writer FixedBuffer, w.outs.pos + n ≤ w.outs.memory.length →
    ∃ w', exec run w = (.ok (), w') ∧ w'.outs.pos = w.outs.pos + n ∧
      w'.outs.memory.length = w.outs.memory.length ∧ w'.offsetStack = w.offsetStack

theorem Appends.advances {run : Writing FixedBuffer Unit} {d : List UInt8} (h : Appends run d) :
    Advances run d.length :=
  fun w hw => ⟨_, h w hw, rfl, Memory.length_overwrite hw, rfl⟩

theorem Advances.bind {run next : Writing FixedBuffer Unit} {m n : ℕ} (hrun : Advances run m)
    (hnext : Advances next n) : Advances (run >>= fun _ => next) (m + n) := by
  intro w hw
  obtain ⟨w', hexec, hpos, hlen, hstack⟩ := hrun w (by omega)
  obtain ⟨w'', hexec', hpos', hlen', hstack'⟩ := hnext w' (by omega)
  exact ⟨w'', (exec_bind_ok hexec).trans hexec', by omega, by omega, hstack'.trans hstack⟩

/-- How far `pop` moves the cursor of a fixed buffer. -/
def StackField.overrun : StackField → ℕ
  | fx _ => 0
  | sized size => (clamp size 1 4).toNat

theorem StackField.exec_push (f : StackField) (traits : ConvertTraits) {w : Writer FixedBuffer}
    (hw : w.outs.pos + f.bytes ≤ w.outs.memory.length) :
    ∃ z : List UInt8, z.length = f.bytes ∧ exec (f.push traits) w =
      (.ok (), { outs := w.outs.append z, offsetStack := w.outs.pos :: w.offsetStack }) := by
  cases f with
  | fx width =>
    have hlen : (leBytes width.size.bytes (traits.swap width.size 0)).length = width.size.bytes :=
      length_leBytes _ _
    refine ⟨_, hlen, appends_write traits width.size 0 { w with
      offsetStack := w.outs.pos :: w.offsetStack } ?_⟩
    rw [hlen]
    exact hw
  | sized size =>
    have hlen : (List.replicate (clamp size 1 4).toNat (0 : UInt8)).length =
      (clamp size 1 4).toNat := List.length_replicate
    refine ⟨_, hlen, appends_fillBytes _ 0 { w with
      offsetStack := w.outs.pos :: w.offsetStack } ?_⟩
    rw [hlen]
    exact hw

theorem StackField.exec_pop (f : StackField) (traits : ConvertTraits) {w : Writer FixedBuffer}
    {offset : ℕ} {rest : List ℕ} (htop : w.offsetStack = offset :: rest)
    (hw : offset + f.bytes ≤ w.outs.memory.length) :
    ∃ b : FixedBuffer, exec (f.pop traits) w = (.ok (), { outs := b, offsetStack := rest }) ∧
      b.pos = w.outs.pos + f.overrun ∧ b.memory.length = w.outs.memory.length := by
  cases f with
  | fx width =>
    refine ⟨_, exec_withTop htop (Yasio.exec_pop traits width.size offset w), rfl, ?_⟩
    apply Memory.length_overwrite
    rw [length_leBytes]
    exact hw
  | sized size =>
    have hpatch : ∀ value, exec (Writer.patchValue traits value (clamp size 1 4).toNat offset) w =
        (.ok (), { w with outs := {
          memory := overwrite w.outs.memory offset
            ((leBytes 4 (traits.swapInt value.toNat (clamp size 1 4).toNat)).take
              (clamp size 1 4).toNat)
          pos := w.outs.pos + (clamp size 1 4).toNat } }) := by
      intro value
      apply exec_onBuffer_ok
      have hfits : ¬ w.outs.maxSize < offset + ((leBytes 4 (traits.swapInt value.toNat
          (clamp size 1 4).toNat)).take (clamp size 1 4).toNat).length := by
        rw [length_take_leBytes]
        exact Nat.not_lt.2 hw
      refine (if_neg hfits).trans ?_
      rw [length_take_leBytes]
    have hlength : exec (Writer.patchLength traits (clamp size 1 4).toNat offset) w = _ :=
      (exec_bind_ok (Throwing.exec_get w)).trans (hpatch _)
    refine ⟨_, exec_withTop htop hlength, rfl, ?_⟩
    apply Memory.length_overwrite
    rw [length_take_leBytes]
    exact hw

theorem Advances.field {run : Writing FixedBuffer Unit} {n : ℕ} (h : Advances run n)
    (traits : ConvertTraits) (f : StackField) :
    Advances (f.push traits >>= fun _ => run >>= fun _ => f.pop traits)
      (f.bytes + n + f.overrun) := by
  intro w hw
  obtain ⟨z, hz, hpush⟩ := f.exec_push traits (w := w) (by omega)
  have hpos : (w.outs.append z).pos = w.outs.pos + f.bytes := by rw [← hz]; rfl
  have hlen : (w.outs.append z).memory.length = w.outs.memory.length :=
    Memory.length_overwrite (by omega)
  obtain ⟨w', hrun, hpos', hlen', hstack⟩ := h
    { outs := w.outs.append z, offsetStack := w.outs.pos :: w.offsetStack }
    (by dsimp only; omega)
  obtain ⟨b, hpop, hpos'', hlen''⟩ := f.exec_pop traits hstack (by dsimp only at *; omega)
  refine ⟨_, (exec_bind_ok hpush).trans ((exec_bind_ok hrun).trans hpop), ?_, ?_, rfl⟩
  · dsimp only at *
    omega
  · dsimp only at *
    omega

/-- How far the calls of a tree move the cursor of a fixed buffer. -/
def FieldTree.reach (traits : ConvertTraits) : FieldTree StackField → ℕ
  | nil => 0
  | write op rest => (op.emit traits).length + rest.reach traits
  | field f body rest => f.bytes + body.reach traits + f.overrun + rest.reach traits

theorem advances_runStack (traits : ConvertTraits) (tree : FieldTree StackField) :
    Advances (tree.runStack traits) (tree.reach traits) := by
  induction tree with
  | nil => exact fun w _ => ⟨w, rfl, rfl, rfl, rfl⟩
  | write op rest ih => exact (op.appends traits).advances.bind ih
  | field f body rest hbody hrest =>
    have hadvances := (hbody.field traits f).bind hrest
    simp only [bind_assoc] at hadvances
    exact hadvances

/-- The field is one of `push8`, `push16` and `push32`. -/
def StackField.Typed : StackField → Prop
  | fx _ => True
  | sized _ => False

theorem StackField.typed_of_overrun {f : StackField} (h : f.overrun = 0) : f.Typed := by
  cases f with
  | fx width => trivial
  | sized size =>
    have hpos := (clamp_range size).1
    have hzero : (clamp size 1 4).toNat = 0 := h
    omega

theorem StackField.Typed.works {β : Type} [AppendSpan β] (traits : ConvertTraits) {f : StackField}
    (h : f.Typed) : f.Works β traits := by
  cases f with
  | fx width => exact works_fx width
  | sized size => exact h.elim

theorem length_render_le (traits : ConvertTraits) (tree : FieldTree StackField) :
    (tree.render traits StackField.bytes).length ≤ tree.reach traits ∧
      (tree.reach traits ≤ (tree.render traits StackField.bytes).length →
        tree.All StackField.Typed) := by
  induction tree with
  | nil => exact ⟨Nat.le_refl 0, fun _ => trivial⟩
  | write op rest ih =>
    have hlen : ((FieldTree.write op rest).render traits StackField.bytes).length =
        (op.emit traits).length + (rest.render traits StackField.bytes).length :=
      List.length_append
    have hreach : (FieldTree.write op rest).reach traits =
        (op.emit traits).length + rest.reach traits := rfl
    exact ⟨by omega, fun h => ih.2 (by omega)⟩
  | field f body rest hbody hrest =>
    have hlen : ((FieldTree.field f body rest).render traits StackField.bytes).length =
        f.bytes + (body.render traits StackField.bytes).length +
          (rest.render traits StackField.bytes).length := by
      simp only [FieldTree.render, List.length_append, traits.length_order, length_leBytes]
    have hreach : (FieldTree.field f body rest).reach traits =
        f.bytes + body.reach traits + f.overrun + rest.reach traits := rfl
    refine ⟨by omega, fun h => ⟨StackField.typed_of_overrun ?_, hbody.2 ?_, hrest.2 ?_⟩⟩ <;> omega

/-- On a large enough fixed buffer whose cursor is at the start, a tree that has rendered is typed:
a `pop(int)` moves the cursor further than the bytes of the tree. -/
theorem Renders.typed {traits : ConvertTraits} {tree : FieldTree StackField}
    (h : Renders (tree.runStack traits : Writing FixedBuffer Unit)
      (tree.render traits StackField.bytes)) : tree.All StackField.Typed := by
  obtain ⟨hle, htyped⟩ := length_render_le traits tree
  have hmem : (List.replicate (tree.reach traits) (0 : UInt8)).length = tree.reach traits :=
    List.length_replicate
  -- Memory for all that the calls reach, more than the bytes of the tree need.
  have hroom : 0 + (tree.render traits StackField.bytes).length ≤
      (List.replicate (tree.reach traits) (0 : UInt8)).length := by omega
  obtain ⟨w', hexec, -, hlen, -⟩ := h
    { outs := { memory := List.replicate (tree.reach traits) 0 } } hroom
  obtain ⟨w'', hexec', hpos, -⟩ := advances_runStack traits tree
    { outs := { memory := List.replicate (tree.reach traits) 0 } } (by dsimp only; omega)
  obtain rfl : w' = w'' := (Prod.ext_iff.1 (hexec.symm.trans hexec')).2
  have hlen : w'.outs.pos = 0 + (tree.render traits StackField.bytes).length := hlen
  have hpos : w'.outs.pos = 0 + tree.reach traits := hpos
  exact htyped (by omega)

/-- Every tree is rendered on both buffers when the caller keeps the offsets, and on a growing
buffer when the stack does; with the stack on a fixed buffer, exactly the trees without
`push(int)`.  The two ways render a tree of the same widths alike. -/
theorem nestedFields_iff (traits : ConvertTraits) :
    (∀ tree : FieldTree IntSize,
      Renders (tree.runOffsets traits : Writing DynamicBuffer Unit)
        (tree.render traits IntSize.bytes) ∧
      Renders (tree.runOffsets traits : Writing FixedBuffer Unit)
        (tree.render traits IntSize.bytes)) ∧
    (∀ tree : FieldTree StackField,
      Renders (tree.runStack traits : Writing DynamicBuffer Unit)
        (tree.render traits StackField.bytes) ∧
      (Renders (tree.runStack traits : Writing FixedBuffer Unit)
        (tree.render traits StackField.bytes) ↔ tree.All StackField.Typed)) ∧
    ∀ tree : FieldTree LengthWidth, (tree.map LengthWidth.size).render traits IntSize.bytes =
      (tree.map StackField.fx).render traits StackField.bytes := by
  refine ⟨fun tree => ⟨(appends_runOffsets tree).renders, (appends_runOffsets tree).renders⟩,
    fun tree => ⟨?_, Renders.typed, fun htyped => ?_⟩, render_map traits⟩
  · exact (appends_runStack
      (FieldTree.all_of_forall (StackField.works_dynamic traits) tree)).renders
  · exact (appends_runStack (htyped.mono fun f hf => hf.works traits)).renders

/-- One byte for a length and nothing behind it: after `pop(int)` a fixed buffer reports two. -/
theorem not_renders_sized :
    (exec ((FieldTree.field (.sized 1) .nil .nil).runStack .network)
      ({ outs := { memory := [0, 0] } } : Writer FixedBuffer)).2.outs.pos = 2 ∧
    ¬ Renders ((FieldTree.field (.sized 1) .nil .nil).runStack .network : Writing FixedBuffer Unit)
      ((FieldTree.field (.sized 1) .nil .nil).render .network StackField.bytes) :=
  ⟨by decide +kernel, fun h => h.typed.1⟩

end Yasio
