import Yasio.PodBlocks
import Yasio.PodAllocators
import Mathlib.Data.List.GetD

/-!
# Two vectors side by side

The same programs on a vector over `buffer_allocator` and on one over `std_buffer_allocator`, which
have the same cells up to their capacity.
-/

namespace Yasio

open Throwing (exec exec_bind_ok wp₂ wp₂_get wp₂_pure wp₂_throw wp₂_modify)
open Memory (overwrite)

/-! ## Twins -/

/-- The vectors have the same size and capacity, and the same cells up to the capacity. -/
structure PodState.Same {α : Type} (s t : PodState α) : Prop where
  some_eq : t.vec.first.isSome = s.vec.first.isSome
  size_eq : t.vec.size = s.vec.size
  res_eq : t.vec.res = s.vec.res
  cells_eq : t.cells.take s.vec.res = s.cells.take s.vec.res

/-- The blocks that the vectors keep during a call, and their capacity. -/
structure Anchor where
  first : Option ℕ
  first' : Option ℕ
  res : ℕ

structure Twin {α : Type} (sizeof : ℕ) (rest rest' : Heap α) (kept : Option Anchor)
    (s t : PodState α) : Prop extends s.Same t where
  has : s.Has sizeof rest s.contents
  has' : t.Has sizeof rest' t.contents
  anchored : ∀ a ∈ kept, s.vec.first = a.first ∧ t.vec.first = a.first' ∧ s.vec.res = a.res

namespace Twin

variable {α β : Type} {sizeof : ℕ} {rest rest' : Heap α} {kept : Option Anchor}
  {s t : PodState α} {n offset : ℕ}

theorem of_keeps {c c' : List α} (hs : s.Keeps rest c) (ht : t.Keeps rest' c')
    (hsome : t.vec.first.isSome = s.vec.first.isSome) (hsize : t.vec.size = s.vec.size)
    (hres : t.vec.res = s.vec.res) (hle : s.vec.size ≤ s.vec.res)
    (hmax : s.vec.res ≤ PodVector.maxSize sizeof) (hroom : s.vec.res ≤ c.length)
    (hroom' : s.vec.res ≤ c'.length) (hcells : c'.take s.vec.res = c.take s.vec.res)
    (hkept : ∀ a ∈ kept,
      s.vec.first = a.first ∧ t.vec.first = a.first' ∧ s.vec.res = a.res) :
    Twin sizeof rest rest' kept s t where
  has := hs.has hle hroom hmax
  has' := by
    apply ht.has
    · rwa [hsize, hres]
    · rwa [hres]
    · rwa [hres]
  some_eq := hsome
  size_eq := hsize
  res_eq := hres
  cells_eq := by rwa [hs.cells_eq, ht.cells_eq]
  anchored := hkept

theorem res_le (h : Twin sizeof rest rest' kept s t) : s.vec.res ≤ s.cells.length :=
  h.has.wellFormed.res_le

theorem res_le' (h : Twin sizeof rest rest' kept s t) : s.vec.res ≤ t.cells.length := by
  rw [← h.res_eq]
  exact h.has'.wellFormed.res_le

theorem contents_eq (h : Twin sizeof rest rest' kept s t) : t.contents = s.contents := by
  have htake : ∀ cells : List α,
      cells.take s.vec.size = (cells.take s.vec.res).take s.vec.size := by
    intro cells
    rw [List.take_take, Nat.min_eq_left h.has.wellFormed.size_le]
  unfold PodState.contents
  rw [h.size_eq, htake, htake s.cells, h.cells_eq]

theorem withSize (h : Twin sizeof rest rest' kept s t) (hn : n ≤ s.vec.res) :
    Twin sizeof rest rest' kept (s.withSize n) (t.withSize n) :=
  of_keeps (h.has.keeps.withSize n) (h.has'.keeps.withSize n) h.some_eq rfl h.res_eq hn
    h.has.wellFormed.res_le_max h.res_le h.res_le' h.cells_eq h.anchored

theorem stored (h : Twin sizeof rest rest' kept s t) (offset : ℕ) (d : List α) :
    Twin sizeof rest rest' kept (s.stored offset d) (t.stored offset d) := by
  have hs := h.has.keeps.stored offset d
  have ht := h.has'.keeps.stored offset d
  rw [h.some_eq] at ht
  refine of_keeps hs ht ?_ ?_ ?_ ?_ ?_ ?_ ?_ ?_ ?_
  · rw [PodState.vec_stored, PodState.vec_stored]
    exact h.some_eq
  · rw [PodState.vec_stored, PodState.vec_stored]
    exact h.size_eq
  · rw [PodState.vec_stored, PodState.vec_stored]
    exact h.res_eq
  · rw [PodState.vec_stored]
    exact h.has.wellFormed.size_le
  · rw [PodState.vec_stored]
    exact h.has.wellFormed.res_le_max
  · rw [PodState.vec_stored]
    split
    · exact Nat.le_trans h.res_le Memory.le_length_overwrite
    · exact h.res_le
  · rw [PodState.vec_stored]
    split
    · exact Nat.le_trans h.res_le' Memory.le_length_overwrite
    · exact h.res_le'
  · rw [PodState.vec_stored]
    split
    · exact Memory.take_overwrite_congr h.res_le' h.res_le h.cells_eq
    · exact h.cells_eq
  · rw [PodState.vec_stored, PodState.vec_stored]
    exact h.anchored

theorem load_eq (h : Twin sizeof rest rest' kept s t) (hn : n = 0 ∨ offset + n ≤ s.vec.res) :
    PodVector.load t offset n = PodVector.load s offset n := by
  change (t.cells.drop offset).take n = (s.cells.drop offset).take n
  obtain rfl | hle := hn
  · rw [List.take_zero, List.take_zero]
  · have htake : ∀ cells : List α, (cells.drop offset).take n =
        ((cells.take s.vec.res).drop offset).take n := by
      intro cells
      rw [List.drop_take, List.take_take, Nat.min_eq_left (by omega)]
    rw [htake, htake s.cells, h.cells_eq]

end Twin

/-- Both programs return the same, or throw the same, and leave twins. -/
def Twins {α β : Type} (sizeof : ℕ) (rest rest' : Heap α) (kept : Option Anchor)
    (m m' : Podding α β) (s t : PodState α) : Prop :=
  wp₂ m m' (fun _ => Twin sizeof rest rest' kept) (fun _ => Twin sizeof rest rest' kept) s t

section

variable {α β γ : Type} {sizeof : ℕ} {rest rest' : Heap α} {kept : Option Anchor}
  {s t : PodState α} {n offset : ℕ} {m m' : Podding α β}

theorem Twins.bind {f f' : β → Podding α γ} (h : Twins sizeof rest rest' kept m m' s t)
    (hf : ∀ a s' t', Twin sizeof rest rest' kept s' t' →
      Twins sizeof rest rest' kept (f a) (f' a) s' t') :
    Twins sizeof rest rest' kept (m >>= f) (m' >>= f') s t := wp₂.bind h hf

theorem Twins.map (f : β → γ) (h : Twins sizeof rest rest' kept m m' s t) :
    Twins sizeof rest rest' kept (f <$> m) (f <$> m') s t := by
  rw [map_eq_pure_bind, map_eq_pure_bind]
  exact h.bind fun _ _ _ h' => wp₂_pure h'

theorem Twins.ite {cond : Prop} [Decidable cond] {m₁ m₁' m₂ m₂' : Podding α β}
    (h₁ : cond → Twins sizeof rest rest' kept m₁ m₁' s t)
    (h₂ : ¬ cond → Twins sizeof rest rest' kept m₂ m₂' s t) :
    Twins sizeof rest rest' kept (if cond then m₁ else m₂) (if cond then m₁' else m₂') s t := by
  split
  · next hcond => exact h₁ hcond
  · next hcond => exact h₂ hcond

theorem Twin.pure (h : Twin sizeof rest rest' kept s t) (b : β) :
    Twins sizeof rest rest' kept (pure b) (pure b) s t := wp₂_pure h

theorem Twin.eos (h : Twin sizeof rest rest' kept s t) (hn : n ≤ s.vec.res) :
    Twins sizeof rest rest' kept (PodVector.eos n) (PodVector.eos n) s t :=
  wp₂_modify (h.withSize hn)

/-- Stores change no field of the vector. -/
theorem Twin.store_keeps (h : Twin sizeof rest rest' kept s t) (offset : ℕ) (d : List α) :
    wp₂ (PodVector.store offset d) (PodVector.store offset d)
      (fun _ s' t' => Twin sizeof rest rest' kept s' t' ∧ s'.vec = s.vec)
      (fun _ => Twin sizeof rest rest' kept) s t :=
  wp₂_modify ⟨h.stored offset d, PodState.vec_stored offset d⟩

theorem Twin.copyWithin_keeps (h : Twin sizeof rest rest' kept s t) {source : ℕ}
    (hn : n = 0 ∨ source + n ≤ s.vec.res) (target : ℕ) :
    wp₂ (PodVector.copyWithin source n target) (PodVector.copyWithin source n target)
      (fun _ s' t' => Twin sizeof rest rest' kept s' t' ∧ s'.vec = s.vec)
      (fun _ => Twin sizeof rest rest' kept) s t := by
  refine wp₂_get ?_
  rw [h.load_eq hn]
  exact h.store_keeps target _

theorem Twin.store (h : Twin sizeof rest rest' kept s t) (offset : ℕ) (d : List α) :
    Twins sizeof rest rest' kept (PodVector.store offset d) (PodVector.store offset d) s t :=
  (h.store_keeps offset d).mono fun _ _ _ h' => h'.1

/-- Two empty vectors. -/
theorem Twin.empty {heap heap' : Heap α} (h : ∀ b cells, rest b = some cells → heap b = some cells)
    (h' : ∀ b cells, rest' b = some cells → heap' b = some cells) :
    Twin sizeof rest rest' none ⟨{}, heap⟩ ⟨{}, heap'⟩ :=
  of_keeps ⟨.inl ⟨rfl, rfl⟩, fun b cells hb => ⟨h b cells hb, nofun⟩⟩
    ⟨.inl ⟨rfl, rfl⟩, fun b cells hb => ⟨h' b cells hb, nofun⟩⟩ rfl rfl rfl
    (Nat.le_refl 0) (Nat.zero_le _) (Nat.zero_le _) (Nat.zero_le _) rfl nofun

theorem Twin.tidy (h : Twin sizeof rest rest' none s t) :
    Twins sizeof rest rest' none PodVector.tidy PodVector.tidy s t := by
  unfold Twins wp₂
  rw [h.has.exec_tidy, h.has'.exec_tidy]
  exact ⟨rfl, .empty (fun _ _ hb => h.has.keeps.freed hb) fun _ _ hb => h.has'.keeps.freed hb⟩

theorem Twin.detachAbi (h : Twin sizeof rest rest' none s t) :
    Twins sizeof rest rest' none PodVector.detachAbi PodVector.detachAbi s t :=
  wp₂_modify (.empty (fun b cells hb => (h.has.apart b cells hb).1)
    fun b cells hb => (h.has'.apart b cells hb).1)

/-- A call behind a range check. -/
theorem Twin.checked (h : Twin sizeof rest rest' kept s t) {cond : Prop} [Decidable cond]
    {f f' : Unit → Podding α β} (hf : cond → Twins sizeof rest rest' kept (f ()) (f' ()) s t) :
    Twins sizeof rest rest' kept (PodVector.verifyRange cond >>= f)
      (PodVector.verifyRange cond >>= f')
      s t := by
  unfold PodVector.verifyRange
  split
  · next hcond =>
    rw [pure_bind, pure_bind]
    exact hf hcond
  · exact wp₂_throw h

end

/-! ## Reallocations -/

/-- The block that `realloc` gives, with nothing written. -/
def freshGrant (sizeof block : ℕ) : Grant (Element sizeof) := ⟨block, fun _ => .unwritten sizeof⟩

/-- A block that `realloc` may give and one that `new` may give. -/
structure Grants {α : Type} (block block' : ℕ) (s t : PodState α) : Prop where
  left : s.heap block = none ∨ s.vec.first = some block
  right : t.heap block' = none

/-- Nobody has written a byte of the block behind the first `capacity()`. -/
def PodState.CopiedWhole {sizeof : ℕ} (s : PodState (Element sizeof)) : Prop :=
  ∀ i (byte : Fin sizeof), s.vec.res ≤ i * sizeof + byte →
    s.cells.getD i (.unwritten sizeof) byte = none

/-- `memcpy` misses nothing when a block grows to this capacity. -/
def PodState.Grows {sizeof : ℕ} (s : PodState (Element sizeof)) (request : Option ℕ) : Prop :=
  ∀ cap ∈ request, s.vec.res < cap → s.vec.first.isSome → s.CopiedWhole

section

variable {α : Type} {sizeof : ℕ} {rest rest' : Heap (Element sizeof)} {kept : Option Anchor}
  {s t : PodState (Element sizeof)} {mem mem' : PodMemory α (Element sizeof)}
  {block block' n cap : ℕ}

open PodVector (maxSize newCapacity mul_sizeof_lt sizeof_pos)

theorem exec_reallocate {α β : Type} {s : PodState β} {mem : PodMemory α β} {alloc : Reallocate β}
    {policy : ReallocationPolicy} {size : ℕ} {heap : Heap β} (hmem : mem.reallocate = alloc)
    (hcap : newCapacity sizeof s.vec size policy = cap)
    (h : alloc s.heap s.vec.first s.vec.res cap = (some block, heap)) :
    exec (PodVector.reallocate sizeof mem policy size) s =
      (.ok (), ⟨{ s.vec with first := some block, res := cap }, heap⟩) := by
  unfold PodVector.reallocate
  rw [exec_bind_ok (Throwing.exec_get s)]
  dsimp only
  rw [hmem, hcap, h]
  rfl

theorem bufferAllocator_granted (block : ℕ) (hpos : 0 < cap) (hmax : cap ≤ maxSize sizeof) :
    bufferAllocator sizeof (some (freshGrant sizeof block)) s.heap s.vec.first s.vec.res cap =
      (some block, Function.update s.freed block
        (some (regrown s.cells cap fun _ => .unwritten sizeof))) :=
  reallocBlock_some (freshGrant sizeof block) hpos hmax

theorem stdBufferAllocator_new (block' : ℕ) (hfirst : t.vec.first = none)
    (hmax : cap ≤ maxSize sizeof) :
    stdBufferAllocator sizeof (some block') t.heap t.vec.first t.vec.res cap =
      (some block', Function.update t.freed block'
        (some (List.replicate cap (.unwritten sizeof)))) := by
  unfold stdBufferAllocator PodState.freed
  rw [hfirst, if_pos hmax]

theorem stdBufferAllocator_kept (block' : ℕ) {b : ℕ} (hfirst : t.vec.first = some b)
    (hpos : 0 < cap) (hle : cap ≤ t.vec.res) :
    stdBufferAllocator sizeof (some block') t.heap t.vec.first t.vec.res cap =
      (some b, t.heap) := by
  unfold stdBufferAllocator
  rw [hfirst]
  dsimp only
  rw [if_neg (Nat.ne_of_gt hpos), if_pos hle]

theorem stdBufferAllocator_copied (block' : ℕ) {b : ℕ} (hfirst : t.vec.first = some b)
    (hlt : t.vec.res < cap) (hmax : cap ≤ maxSize sizeof) :
    stdBufferAllocator sizeof (some block') t.heap t.vec.first t.vec.res cap =
      (some block', Function.update t.freed block'
        (some (memcpy (List.replicate cap (.unwritten sizeof)) t.cells t.vec.res))) := by
  have hpos : 0 < cap := by omega
  unfold stdBufferAllocator PodState.freed PodState.cells
  rw [hfirst, if_pos hmax]
  dsimp only
  rw [if_neg (Nat.ne_of_gt hpos), if_neg (Nat.not_le.2 hlt)]
  rfl

/-- An element of the block that `realloc` gives. -/
theorem getElem_regrown {c : List (Element sizeof)} {i : ℕ}
    (hi : i < (c.take cap ++
      (List.range (cap - c.length)).map fun _ => Element.unwritten sizeof).length) :
    (c.take cap ++ (List.range (cap - c.length)).map fun _ => Element.unwritten sizeof)[i] =
      c.getD i (.unwritten sizeof) := by
  rw [List.length_append, List.length_take, List.length_map, List.length_range] at hi
  by_cases hlt : i < c.length
  · rw [List.getElem_append_left (by rw [List.length_take]; omega), List.getElem_take,
      List.getD_eq_getElem _ _ hlt]
  · rw [List.getElem_append_right (by rw [List.length_take]; omega), List.getElem_map,
      List.getD_eq_default _ _ (by omega)]

/-- Where `memcpy` misses nothing, it copies what `realloc` does. -/
theorem memcpy_eq (cap : ℕ) {c c' : List (Element sizeof)} {res : ℕ}
    (hsizeof : 0 < sizeof) (hroom : res ≤ c.length) (hroom' : res ≤ c'.length)
    (hcells : c'.take res = c.take res)
    (hwhole : ∀ i (byte : Fin sizeof), res ≤ i * sizeof + byte →
      c.getD i (.unwritten sizeof) byte = none) :
    memcpy (List.replicate cap (.unwritten sizeof)) c' res =
      c.take cap ++ (List.range (cap - c.length)).map fun _ => .unwritten sizeof := by
  unfold memcpy
  apply List.ext_getElem
  · rw [List.length_mapIdx, List.length_replicate, List.length_append, List.length_take,
      List.length_map, List.length_range]
    omega
  · intro i hi hi'
    rw [getElem_regrown, List.getElem_mapIdx]
    funext byte
    split
    · next hbyte =>
      have hmul : i ≤ i * sizeof := Nat.le_mul_of_pos_right i hsizeof
      have hlow : i < res := by omega
      have hfront : ∀ l : List (Element sizeof), res ≤ l.length →
          l.getD i (.unwritten sizeof) = (l.take res).getD i (.unwritten sizeof) := by
        intro l hl
        rw [List.getD_eq_getElem _ _ (by omega),
          List.getD_eq_getElem _ _ (by rw [List.length_take]; omega), List.getElem_take]
      rw [hfront c' hroom', hfront c hroom, hcells]
    · next hbyte =>
      rw [List.getElem_replicate, hwhole i byte (Nat.not_lt.1 hbyte)]
      rfl

/-- The memories have the two allocators, with blocks for them. -/
def Supplied (mem mem' : PodMemory α (Element sizeof)) (s t : PodState (Element sizeof)) : Prop :=
  ∃ block block', mem.reallocate = bufferAllocator sizeof (some (freshGrant sizeof block)) ∧
    mem'.reallocate = stdBufferAllocator sizeof (some block') ∧ Grants block block' s t

/-- A call that keeps its blocks does not reallocate, and one that does copies everything. -/
structure Smooth (kept : Option Anchor) (s : PodState (Element sizeof)) (request : Option ℕ) :
    Prop where
  grows : s.Grows request
  free : request.isSome → kept = none

/-- After a reallocation both vectors may take any size up to the new capacity. -/
theorem Twin.reallocate (h : Twin sizeof rest rest' kept s t) (hmem : Supplied mem mem' s t)
    {policy : ReallocationPolicy} {size : ℕ} (hcap : newCapacity sizeof s.vec size policy = cap)
    (hpos : 0 < cap) (hmax : cap ≤ maxSize sizeof) (hsmooth : Smooth kept s (some cap)) :
    ∃ s' t', exec (PodVector.reallocate sizeof mem policy size) s = (.ok (), s') ∧
      exec (PodVector.reallocate sizeof mem' policy size) t = (.ok (), t') ∧
      s'.vec.size = s.vec.size ∧ t'.vec.size = t.vec.size ∧ s'.vec.res = cap ∧
      ∀ k ≤ cap, Twin sizeof rest rest' kept (s'.withSize k) (t'.withSize k) := by
  obtain ⟨block, block', hmem, hmem', hgrants⟩ := hmem
  obtain rfl : kept = none := hsmooth.free rfl
  have hcap' : newCapacity sizeof t.vec size policy = cap := by
    rw [← hcap]
    cases policy with
    | exactly => rfl
    | atLeast =>
      unfold newCapacity
      rw [h.res_eq]
  have hleft := exec_reallocate hmem hcap (bufferAllocator_granted (s := s) block hpos hmax)
  have hs := h.has.keeps.moved hgrants.left (regrown s.cells cap fun _ => .unwritten sizeof) cap
  have hlen := length_regrown s.cells cap fun _ => Element.unwritten sizeof
  have hres := h.res_eq
  cases hfirst : t.vec.first with
  | none =>
    have hright := exec_reallocate hmem' hcap' (stdBufferAllocator_new block' hfirst hmax)
    have ht := h.has'.keeps.moved (.inl hgrants.right)
      (List.replicate cap (.unwritten sizeof)) cap
    refine ⟨_, _, hleft, hright, rfl, rfl, rfl, fun k hk => ?_⟩
    refine of_keeps (hs.withSize k) (ht.withSize k) rfl rfl rfl hk hmax ?_ ?_ ?_ nofun
    · exact Nat.le_of_eq hlen.symm
    · exact Nat.le_of_eq List.length_replicate.symm
    · have hnone : s.cells = [] := by
        have hsome := h.some_eq
        rw [hfirst] at hsome
        unfold PodState.cells
        rw [Option.not_isSome_iff_eq_none.1 (Bool.eq_false_iff.1 hsome.symm)]
        rfl
      rw [hnone, regrown, List.take_nil, List.nil_append, List.length_nil, Nat.sub_zero,
        List.map_const', List.length_range]
  | some b =>
    by_cases hle : cap ≤ s.vec.res
    · have hright := exec_reallocate hmem' hcap'
        (stdBufferAllocator_kept block' hfirst hpos (by omega))
      have ht : (PodState.mk { t.vec with first := some b, res := cap } t.heap).Keeps rest'
          t.cells := by
        obtain ⟨hnone, -⟩ | ⟨b', hsome, hcells⟩ := h.has'.keeps.block
        · cases hnone.symm.trans hfirst
        · refine ⟨.inr ⟨b', ?_, hcells⟩, fun c cells hc => ?_⟩
          · exact hfirst.symm.trans hsome
          · rw [← hfirst]
            exact h.has'.keeps.apart c cells hc
      refine ⟨_, _, hleft, hright, rfl, rfl, rfl, fun k hk => ?_⟩
      refine of_keeps (hs.withSize k) (ht.withSize k) rfl rfl rfl hk hmax ?_ ?_ ?_ nofun
      · exact Nat.le_of_eq hlen.symm
      · exact Nat.le_trans hle h.res_le'
      · have hshort : cap - s.cells.length = 0 := by
          have hroom := h.res_le
          omega
        change t.cells.take cap = (s.cells.take cap ++ _).take cap
        rw [hshort, List.range_zero, List.map_nil, List.append_nil, List.take_take, Nat.min_self]
        have hcells := congrArg (List.take cap) h.cells_eq
        rwa [List.take_take, List.take_take, Nat.min_eq_left hle] at hcells
    · have hlt : s.vec.res < cap := Nat.not_le.1 hle
      have hright := exec_reallocate hmem' hcap'
        (stdBufferAllocator_copied block' hfirst (by omega) hmax)
      have ht := h.has'.keeps.moved (.inl hgrants.right)
        (memcpy (List.replicate cap (.unwritten sizeof)) t.cells t.vec.res) cap
      have hsome : s.vec.first.isSome := by
        rw [← h.some_eq, hfirst]
        rfl
      have hsame := memcpy_eq cap (sizeof_pos hpos hmax) h.res_le h.res_le' h.cells_eq
        (hsmooth.grows cap rfl hlt hsome)
      rw [h.res_eq, hsame] at ht hright
      refine ⟨_, _, hleft, hright, rfl, rfl, rfl, fun k hk => ?_⟩
      exact of_keeps (hs.withSize k) (ht.withSize k) rfl rfl rfl hk hmax
        (Nat.le_of_eq hlen.symm) (Nat.le_of_eq hlen.symm) rfl nofun

/-! ## Arguments -/

theorem Twin.forget (h : Twin sizeof rest rest' kept s t) : Twin sizeof rest rest' none s t :=
  ⟨h.toSame, h.has, h.has', nofun⟩

theorem Twins.forget {β : Type} {m m' : Podding (Element sizeof) β}
    (h : Twins sizeof rest rest' kept m m' s t) : Twins sizeof rest rest' none m m' s t :=
  wp₂.imp h (fun _ _ _ h' => h'.forget) fun _ _ _ h' => h'.forget

/-- What is read of the argument is the same on both sides. -/
def ReadsAlike (mem mem' : PodMemory α (Element sizeof)) (val : α)
    (s t : PodState (Element sizeof)) : Prop :=
  ∃ v, exec (mem.read val) s = (.ok v, s) ∧ exec (mem'.read val) t = (.ok v, t)

/-- An argument outside, or a cell of the blocks that the vectors keep. -/
def Argument.Kept (kept : Option Anchor) (first first' : Option ℕ) : Argument sizeof → Prop
  | outside _ => True
  | inside index => ∃ res, kept = some ⟨first, first', res⟩ ∧ index < res

/-- The sizes do not matter. -/
theorem Twin.readsAlike (h : Twin sizeof rest rest' kept (s.withSize 0) (t.withSize 0))
    {first first' : Option ℕ} (alloc alloc' : Reallocate (Element sizeof)) {val : Argument sizeof}
    (hval : val.Kept kept first first') :
    ReadsAlike (.over alloc first) (.over alloc' first') val s t := by
  cases val with
  | outside val => exact ⟨val, rfl, rfl⟩
  | inside index =>
    obtain ⟨res, hkept, hindex⟩ := hval
    obtain ⟨hfirst, hfirst', hres⟩ :
        s.vec.first = first ∧ t.vec.first = first' ∧ s.vec.res = res := h.anchored _ hkept
    have hsame : t.cells.take s.vec.res = s.cells.take s.vec.res := h.cells_eq
    have hcells : t.cells.getD index (.unwritten sizeof) =
        s.cells.getD index (.unwritten sizeof) := by
      have htake : ∀ cells : List (Element sizeof), cells.getD index (.unwritten sizeof) =
          (cells.take s.vec.res).getD index (.unwritten sizeof) := by
        intro cells
        rw [List.getD_eq_getElem?_getD, List.getD_eq_getElem?_getD, List.getElem?_take,
          if_pos (by omega)]
      rw [htake, htake s.cells, hsame]
    refine ⟨s.cells.getD index (.unwritten sizeof), ?_, ?_⟩
    · unfold PodState.cells
      rw [hfirst]
      rfl
    · rw [← hcells]
      unfold PodState.cells
      rw [hfirst']
      rfl

end

end Yasio
