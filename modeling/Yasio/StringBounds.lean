import Yasio.StringReplaceAll
import Yasio.PodLists
import Mathlib.Data.Set.Insert

/-!
# Strings that stay inside their blocks

`capacity()` counts the cell of the terminator after some reallocations and not after others, and
`_Eos` writes wherever the size is at most the capacity.  A call stays inside the block when the new
size is less than the number of cells, or when it asks for a block.
-/

namespace Yasio

open Throwing (wp wp_pure wp_bind wp_get wp_map wp_modify exec)
open PodVector (maxSize)
open Memory (overwrite)
open BasicString

variable {α β : Type}

/-! ## The calls -/

section

variable (sizeof : ℕ) (allowed : Set StringFault) (grants : ℕ → Option (Grant α))
  (s : StringState α)

/-- The operation of `resize_and_overwrite` keeps to its size, and a block that is attached is live
and has so many cells. -/
def StringOp.Legal (heap : Heap α) : StringOp α → Prop
  | resizeAndOverwrite newSize written => written.length ≤ newSize
  | attachAbi block len => (∀ b, block = some b → (heap b).isSome) ∧
    len ≤ ((block.bind heap).getD []).length ∧ len ≤ maxSize sizeof
  | _ => True

variable [DecidableEq α]

/-- What the call writes lies inside the block. -/
def StringOp.Contained : StringOp α → Prop
  | resize newSize => s.Room sizeof newSize
  | resizeFill newSize _ => s.vec.size ≠ newSize → s.Room sizeof newSize
  | expand count => s.Room sizeof (s.vec.size + count)
  | expandFill count _ => count ≠ 0 → s.Room sizeof (s.vec.size + count)
  | pushBack _ => s.Room sizeof (s.vec.size + 1)
  | append d => d ≠ [] → s.Room sizeof (s.vec.size + d.length)
  | insertRange pos range => 0 ≤ pos ∧ pos ≤ s.vec.size → ∀ d ∈ range, d ≠ [] →
    s.Room sizeof (s.vec.size + d.length)
  | insertFill pos count _ => 0 ≤ pos ∧ pos ≤ s.vec.size → count ≠ 0 →
    s.Room sizeof (s.vec.size + count)
  | assign atFirst d => atFirst = false → d ≠ [] → s.Room sizeof d.length
  | reserve newCap => s.vec.res < newCap → newCap + 1 ≤ maxSize sizeof
  | resizeAndOverwrite newSize _ => newSize + 1 ≤ maxSize sizeof
  | replace off nx text => s.shape.Throws sizeof off nx text.length ∨
    s.shape.Fits sizeof off nx allowed (grants 0).isSome text
  | replaceAll fuel fromText toText => fromText ≠ toText →
    EachReplacement sizeof fromText toText
      (fun k w off => w.Throws sizeof off fromText.length toText.length ∨
        w.Fits sizeof off fromText.length allowed (grants k).isSome (.outside toText))
      fuel 0 s.shape 0 s.contents
  | _ => True

variable [Zero α]

/-- Where the call changes the size and writes no terminator, or gets a block and no text, there is
a 0 already. -/
def StringOp.Ends : StringOp α → Prop
  | clear => s.cStr[0]? = some 0
  | assign atFirst d => atFirst = false → d = [] ∨ s.vec.res < d.length ∧ grants 0 = none →
    s.cStr[0]? = some 0
  | erase pos => 0 ≤ pos ∧ pos < s.vec.size → s.cStr[s.vec.size - 1]? = some 0
  | eraseRange first last => first ≤ last ∧ 0 ≤ first ∧ last ≤ s.vec.size →
    s.cStr[s.vec.size - (last.toNat - first.toNat)]? = some 0
  | reserve newCap => s.vec.first = none → s.vec.res < newCap → ∀ g ∈ grants 0, g.fresh 0 = 0
  | attachAbi block len => ∀ b, block = some b → ((s.heap b).getD [])[len]? = some 0
  | _ => True

/-- Whether it returns or throws, the call leaves a sound string. -/
def StringState.Safe (rest : Heap α) (ends : Prop) (m : Stringing α β) : Prop :=
  wp m (fun _ t => t.Sound sizeof rest allowed ends) (fun _ t => t.Sound sizeof rest allowed ends) s

end

section

variable [Zero α] {sizeof : ℕ} {rest : Heap α} {allowed : Set StringFault} {ends : Prop}
  {s t : StringState α} {m : Stringing α β} {d : List α} {n : ℕ}

namespace StringState

theorem Safe.done (h : s.Safe sizeof allowed rest ends m) :
    s.Safe sizeof allowed rest ends (do let _ ← m; return (none : Option ℕ)) := by
  unfold Safe
  rw [wp_bind]
  exact h

theorem Safe.map {γ : Type} {g : β → γ} (h : s.Safe sizeof allowed rest ends m) :
    s.Safe sizeof allowed rest ends (g <$> m) := by
  unfold Safe
  rw [wp_map]
  exact h

theorem Sound.safe_verifyRange {cond : Prop} [Decidable cond] {f : Unit → Stringing α β}
    (h : s.Sound sizeof rest allowed ends)
    (hf : cond → s.Safe sizeof allowed rest ends (f ())) :
    s.Safe sizeof allowed rest ends (verifyRange cond >>= f) := by
  unfold Safe
  rw [wp_bind]
  by_cases hcond : cond
  · exact wp_verifyRange hcond (hf hcond)
  · exact wp_verifyRange_of_not hcond h

/-- A string without a block. -/
theorem sound_empty {s : StringState α} (hvec : s.vec = {})
    (hapart : ∀ b cells, rest b = some cells → s.heap b = some cells)
    (hfaults : ∀ fault ∈ s.faults, fault ∈ allowed) : s.Sound sizeof rest allowed ends := by
  have his : s.Is rest allowed [] {} := by
    refine ⟨⟨.inl ⟨by rw [hvec], rfl⟩, fun b cells hb => ⟨hapart b cells hb, ?_⟩⟩, hvec, hfaults⟩
    rw [hvec]
    exact nofun
  exact his.sound (Nat.le_refl 0) (Nat.le_refl 0) (Nat.zero_le _) fun _ => rfl

theorem Sound.has (h : s.Sound sizeof rest allowed ends) :
    s.toPodState.Has sizeof rest s.contents :=
  h.keeps.has h.size_le h.res_le h.res_le_max

/-- A 0 behind what a copy within the string has changed. -/
theorem cStr_of_overwrite {k : ℕ} (hvec : t.vec = s.vec) (hcells : t.cells = overwrite s.cells k d)
    (hk : k + d.length ≤ n) (hfit : k ≤ s.cells.length) (hzero : s.cStr[n]? = some 0) :
    t.cStr[n]? = some 0 := by
  unfold cStr at hzero ⊢
  rw [hvec]
  split
  · next hsome =>
    rw [if_pos hsome] at hzero
    rwa [hcells, Memory.getElem?_overwrite_of_ge hk hfit]
  · next hnull => rwa [if_neg hnull] at hzero

end StringState

namespace BasicString

variable {grant : Option (Grant α)} {count : ℕ} {val : α}

theorem safe_resize {newSize : ℕ} (h : s.Sound sizeof rest allowed ends)
    (hroom : s.Room sizeof newSize) (hgrant : ∀ g ∈ grant, rest g.block = none) :
    s.Safe sizeof allowed rest ends (resize sizeof grant newSize) :=
  wp_resize h hroom hgrant (fun _ _ => h) fun _ ht _ => ht

theorem safe_resizeFill {newSize : ℕ} (h : s.Sound sizeof rest allowed ends)
    (hroom : s.vec.size ≠ newSize → s.Room sizeof newSize)
    (hgrant : ∀ g ∈ grant, rest g.block = none) :
    s.Safe sizeof allowed rest ends (resizeFill sizeof grant newSize val) := by
  unfold StringState.Safe resizeFill
  rw [wp_bind, wp_get]
  dsimp only
  split
  · next hne =>
    rw [wp_bind]
    apply wp_resize h (hroom hne) hgrant fun _ _ => h
    intro t ht hsize
    split
    · apply wp_write_below ht
      · rw [List.length_replicate]
        omega
      · exact fun u hu _ _ => hu
    · exact ht
  · exact h

theorem safe_expand (h : s.Sound sizeof rest allowed ends)
    (hroom : s.Room sizeof (s.vec.size + count)) (hgrant : ∀ g ∈ grant, rest g.block = none) :
    s.Safe sizeof allowed rest ends (expand sizeof grant count) :=
  wp_expand h hroom hgrant (fun _ => h) fun _ ht _ => ht

/-- `expand`, and then a copy to what is new. -/
theorem safe_expand_write (h : s.Sound sizeof rest allowed ends)
    (hroom : s.Room sizeof (s.vec.size + d.length)) (hgrant : ∀ g ∈ grant, rest g.block = none) :
    s.Safe sizeof allowed rest ends (do
      expand sizeof grant d.length
      write s.vec.size d) := by
  unfold StringState.Safe
  rw [wp_bind]
  apply wp_expand h hroom hgrant fun _ => h
  intro t ht hsize
  apply wp_write_below ht (Nat.le_of_eq hsize.symm)
  exact fun u hu _ _ => hu

theorem safe_expandFill (h : s.Sound sizeof rest allowed ends)
    (hroom : count ≠ 0 → s.Room sizeof (s.vec.size + count))
    (hgrant : ∀ g ∈ grant, rest g.block = none) :
    s.Safe sizeof allowed rest ends (expandFill sizeof grant count val) := by
  unfold expandFill
  split
  · next hne =>
    have hlen : (List.replicate count val).length = count := List.length_replicate
    have hwrite := safe_expand_write (d := List.replicate count val) h
      (by rw [hlen]; exact hroom hne) hgrant
    rw [hlen] at hwrite
    unfold StringState.Safe at hwrite ⊢
    rwa [wp_bind, wp_get]
  · exact h

theorem safe_pushBack (h : s.Sound sizeof rest allowed ends)
    (hroom : s.Room sizeof (s.vec.size + 1)) (hgrant : ∀ g ∈ grant, rest g.block = none) :
    s.Safe sizeof allowed rest ends (pushBack sizeof grant val) := by
  unfold StringState.Safe pushBack
  rw [wp_bind]
  apply wp_expand h hroom hgrant fun _ => h
  intro t ht hsize
  rw [wp_bind, wp_get, wp_bind]
  apply wp_verifyRange (by omega)
  apply wp_write_below ht
  · rw [List.length_singleton]
    omega
  · exact fun u hu _ _ => hu

theorem safe_append (h : s.Sound sizeof rest allowed ends)
    (hroom : d ≠ [] → s.Room sizeof (s.vec.size + d.length))
    (hgrant : ∀ g ∈ grant, rest g.block = none) :
    s.Safe sizeof allowed rest ends (append sizeof grant d) := by
  match d with
  | [] => exact h
  | [val] => exact safe_pushBack h (hroom (List.cons_ne_nil _ _)) hgrant
  | a :: b :: d =>
    have hwrite := safe_expand_write h (hroom (List.cons_ne_nil _ _)) hgrant
    unfold StringState.Safe at hwrite ⊢
    unfold append
    rwa [wp_bind, wp_get]

/-- A gap at a position in the string, and then a copy into it. -/
theorem safe_openGap_write {offset : ℕ} (h : s.Sound sizeof rest allowed ends)
    (hoff : offset ≤ s.vec.size) (hroom : s.Room sizeof (s.vec.size + d.length))
    (hgrant : ∀ g ∈ grant, rest g.block = none) :
    s.Safe sizeof allowed rest ends (do
      openGap sizeof grant offset d.length
      write offset d) := by
  unfold StringState.Safe openGap
  rw [wp_bind, wp_bind]
  apply wp_expand h hroom hgrant fun _ => h
  intro t ht hsize
  rw [wp_bind, wp_get]
  apply wp_move_below ht (.inr (by omega)) (by omega)
  intro u hu hvec _
  apply wp_write_below hu
  · rw [hvec, hsize]
    omega
  · exact fun w hw _ _ => hw

theorem safe_insertRange {pos : Iterator} {range : Option (List α)}
    (h : s.Sound sizeof rest allowed ends)
    (hroom : 0 ≤ pos ∧ pos ≤ s.vec.size → ∀ d ∈ range, d ≠ [] →
      s.Room sizeof (s.vec.size + d.length)) (hgrant : ∀ g ∈ grant, rest g.block = none) :
    s.Safe sizeof allowed rest ends (insertRange sizeof grant pos range) := by
  unfold StringState.Safe insertRange
  rw [wp_bind, wp_get]
  refine h.safe_verifyRange fun ⟨hpos, hle, hsome⟩ => ?_
  obtain ⟨d, rfl⟩ := Option.isSome_iff_exists.1 hsome
  dsimp only [Option.getD_some]
  split
  · next hne =>
    have hroom' := hroom ⟨hpos, hle⟩ d rfl hne
    split
    · have happend := safe_append h (fun _ => hroom') hgrant
      unfold StringState.Safe at happend ⊢
      rwa [wp_bind]
    · have hoff : pos.toNat ≤ s.vec.size := Int.toNat_le.2 hle
      have hwrite := safe_openGap_write h hoff hroom' hgrant
      unfold StringState.Safe at hwrite ⊢
      simp only [wp_bind, wp_pure] at hwrite ⊢
      exact hwrite
  · exact h

theorem safe_insertFill {pos : Iterator} (h : s.Sound sizeof rest allowed ends)
    (hroom : 0 ≤ pos ∧ pos ≤ s.vec.size → count ≠ 0 → s.Room sizeof (s.vec.size + count))
    (hgrant : ∀ g ∈ grant, rest g.block = none) :
    s.Safe sizeof allowed rest ends (insertFill sizeof grant pos count val) := by
  unfold StringState.Safe insertFill
  rw [wp_bind, wp_get]
  refine h.safe_verifyRange fun hpos => ?_
  dsimp only
  split
  · next hne =>
    split
    · have hfill : s.Safe sizeof allowed rest ends (expandFill sizeof grant count val) :=
        safe_expandFill h (hroom hpos) hgrant
      unfold StringState.Safe at hfill ⊢
      rwa [wp_bind]
    · have hoff : pos.toNat ≤ s.vec.size := Int.toNat_le.2 hpos.2
      have hlen : (List.replicate count val).length = count := List.length_replicate
      have hwrite := safe_openGap_write (d := List.replicate count val) h hoff
        (by rw [hlen]; exact hroom hpos hne) hgrant
      rw [hlen] at hwrite
      unfold StringState.Safe at hwrite ⊢
      simp only [wp_bind, wp_pure] at hwrite ⊢
      exact hwrite
  · exact h

/-- What is behind a gap moves into it, and the size is what is left. -/
theorem safe_close {first last : ℕ} (h : s.Sound sizeof rest allowed ends) (hle : first ≤ last)
    (hlast : last ≤ s.vec.size) (hends : ends → s.cStr[s.vec.size - (last - first)]? = some 0) :
    s.Safe sizeof allowed rest ends (do
      move first last (s.vec.size - last)
      setSize (first + (s.vec.size - last))
      return first) := by
  have hsize := h.size_le
  have hres := h.res_le
  unfold StringState.Safe
  rw [wp_bind]
  apply wp_move_below h (.inr (by omega)) (by omega)
  intro t ht hvec hcells
  rw [wp_bind]
  apply wp_setSize_sound ht
  · rw [hvec]
    omega
  · intro hends'
    refine StringState.cStr_of_overwrite hvec hcells ?_ (by omega) ?_
    · rw [length_loaded]
    · rw [show first + (s.vec.size - last) = s.vec.size - (last - first) by omega]
      exact hends hends'
  · exact fun u hu _ => hu

theorem safe_eraseRange {first last : Iterator} (h : s.Sound sizeof rest allowed ends)
    (hends : ends → first ≤ last ∧ 0 ≤ first ∧ last ≤ s.vec.size →
      s.cStr[s.vec.size - (last.toNat - first.toNat)]? = some 0) :
    s.Safe sizeof allowed rest ends (eraseRange first last) := by
  unfold StringState.Safe eraseRange
  rw [wp_bind, wp_get]
  refine h.safe_verifyRange fun hrange => ?_
  have hle : first.toNat ≤ last.toNat := Int.toNat_le_toNat hrange.1
  have hlast : last.toNat ≤ s.vec.size := Int.toNat_le.2 hrange.2.2
  exact safe_close h hle hlast fun hends' => hends hends' hrange

theorem safe_erase {pos : Iterator} (h : s.Sound sizeof rest allowed ends)
    (hends : ends → 0 ≤ pos ∧ pos < s.vec.size → s.cStr[s.vec.size - 1]? = some 0) :
    s.Safe sizeof allowed rest ends (erase pos) := by
  unfold StringState.Safe erase
  rw [wp_bind, wp_get]
  refine h.safe_verifyRange fun hrange => ?_
  have hlt : pos.toNat < s.vec.size := (Int.toNat_lt hrange.1).2 hrange.2
  apply safe_close h (Nat.le_succ _) hlt
  intro hends'
  rw [show pos.toNat + 1 - pos.toNat = 1 by omega]
  exact hends hends' hrange

theorem safe_clear (h : s.Sound sizeof rest allowed ends)
    (hends : ends → s.cStr[0]? = some 0) : s.Safe sizeof allowed rest ends (setSize 0) :=
  wp_setSize_sound h (Nat.zero_le _) hends fun _ ht _ => ht

theorem safe_assign {atFirst : Bool} (h : s.Sound sizeof rest allowed ends)
    (hroom : atFirst = false → d ≠ [] → s.Room sizeof d.length)
    (hends : ends → atFirst = false → d = [] ∨ s.vec.res < d.length ∧ grant = none →
      s.cStr[0]? = some 0) (hgrant : ∀ g ∈ grant, rest g.block = none) :
    s.Safe sizeof allowed rest ends (assign sizeof grant atFirst d) := by
  unfold assign
  cases atFirst with
  | true => exact h
  | false =>
    unfold StringState.Safe
    rw [if_pos Bool.not_false, wp_bind]
    apply wp_setSize h.is
    intro t ht
    -- The old text has lost its terminator when `resize` is called.
    have hcleared : (ends → s.cStr[0]? = some 0) → t.Sound sizeof rest allowed ends := fun hzero =>
      ht.sound (Nat.zero_le _) h.res_le h.res_le_max hzero
    have hbare : t.Sound sizeof rest allowed False :=
      ht.sound (Nat.zero_le _) h.res_le h.res_le_max False.elim
    split
    · next hne =>
      have hroom' : t.Room sizeof d.length := by
        have hroom' := hroom rfl hne
        unfold StringState.Room at hroom' ⊢
        rwa [ht.vec_eq, ht.keeps.cells_eq]
      rw [wp_bind]
      apply wp_resize hbare hroom' hgrant
      · intro hgrow hnone
        rw [ht.vec_eq] at hgrow
        exact hcleared fun hends' => hends hends' rfl (.inr ⟨hgrow, hnone⟩)
      · intro u hu hsize
        apply wp_write_below hu
        · rw [hsize, Nat.zero_add]
        · exact fun w hw _ _ => hw
    · next hnil =>
      exact hcleared fun hends' => hends hends' rfl (.inl (not_not.1 hnil))

/-- `_Reallocate` to a capacity that is not less than the size. -/
theorem safe_reallocate (h : s.Sound sizeof rest allowed ends) (hn : n + 1 ≤ maxSize sizeof)
    (hsize : s.vec.size ≤ n) (hgrant : ∀ g ∈ grant, rest g.block = none)
    (hends : ends → s.vec.first = none → ∀ g ∈ grant, g.fresh 0 = 0) :
    s.Safe sizeof allowed rest ends (reallocate sizeof grant .exactly n) := by
  obtain ⟨hle, hmax⟩ := newCapacity_between h.res_le_max hn .exactly
  apply wp_reallocate h.is hgrant rfl (by omega) hmax fun _ => h
  intro g hg t ht
  have hlen := length_regrown s.cells (newCapacity sizeof s.vec.res n .exactly) g.fresh
  refine ht.sound_of_getElem? ?_ (Nat.le_of_eq hlen.symm) hmax fun hends' => ?_
  · change s.vec.size ≤ newCapacity sizeof s.vec.res n .exactly
    omega
  · change (regrown s.cells (newCapacity sizeof s.vec.res n .exactly) g.fresh)[s.vec.size]? = some 0
    cases hfirst : s.vec.first with
    | none =>
      have hnone : s.cells = [] := by
        unfold PodState.cells
        rw [hfirst]
        rfl
      have hzero : s.vec.size = 0 := by
        have hres := h.res_le
        rw [hnone, List.length_nil] at hres
        exact Nat.le_zero.1 (Nat.le_trans h.size_le hres)
      rw [hnone, hzero, regrown, List.take_nil, List.nil_append, List.length_nil, Nat.sub_zero,
        List.getElem?_map, List.getElem?_range (by omega), Option.map_some,
        hends hends' hfirst g hg]
    | some b =>
      have hzero := h.getElem?_cells (by rw [hfirst]; rfl) hends'
      rw [getElem?_regrown (List.getElem?_eq_some_iff.1 hzero).1 (by omega)]
      exact hzero

theorem safe_reserve {newCap : ℕ} (h : s.Sound sizeof rest allowed ends)
    (hroom : s.vec.res < newCap → newCap + 1 ≤ maxSize sizeof)
    (hgrant : ∀ g ∈ grant, rest g.block = none)
    (hends : ends → s.vec.first = none → s.vec.res < newCap → ∀ g ∈ grant, g.fresh 0 = 0) :
    s.Safe sizeof allowed rest ends (reserve sizeof grant newCap) := by
  have hsize := h.size_le
  unfold StringState.Safe reserve
  rw [wp_bind, wp_get]
  split
  · next hgrow =>
    exact safe_reallocate h (hroom hgrow) (by omega) hgrant
      fun hends' hfirst => hends hends' hfirst hgrow
  · exact h

theorem safe_tidy (h : s.Sound sizeof rest allowed ends) :
    s.Safe sizeof allowed rest ends (onVec PodVector.tidy) := by
  unfold StringState.Safe
  rw [wp_onVec]
  unfold wp
  rw [h.has.exec_tidy]
  exact StringState.sound_empty rfl (fun b cells hb => h.keeps.freed hb) h.faults

theorem safe_shrinkToFit (h : s.Sound sizeof rest allowed ends)
    (hgrant : ∀ g ∈ grant, rest g.block = none) :
    s.Safe sizeof allowed rest ends (shrinkToFit sizeof grant) := by
  have hsize := h.size_le
  have hres := h.res_le
  have hmax := h.res_le_max
  unfold StringState.Safe shrinkToFit
  rw [wp_bind, wp_get]
  split
  · next hne =>
    split
    · exact safe_tidy h
    · next hpos =>
      apply safe_reallocate h (by omega) (Nat.le_refl _) hgrant
      intro _ hfirst
      have hnone : s.cells = [] := by
        unfold PodState.cells
        rw [hfirst]
        rfl
      rw [hnone, List.length_nil] at hres
      omega
  · exact h

theorem safe_resizeAndOverwrite {newSize : ℕ} (h : s.Sound sizeof rest allowed ends)
    (hn : newSize + 1 ≤ maxSize sizeof) (hd : d.length ≤ newSize)
    (hgrant : ∀ g ∈ grant, rest g.block = none) :
    s.Safe sizeof allowed rest ends (resizeAndOverwrite sizeof grant newSize d) := by
  obtain ⟨hle, hmax⟩ := newCapacity_between h.res_le_max hn .exactly
  unfold StringState.Safe resizeAndOverwrite
  rw [wp_bind]
  apply wp_reallocate h.is hgrant rfl (by omega) hmax fun _ => h
  intro g _ t ht
  have hlen := length_regrown s.cells (newCapacity sizeof s.vec.res newSize .exactly) g.fresh
  rw [wp_bind]
  apply wp_write ht (.inr (by omega))
  intro u hu
  have hlen' := Memory.length_overwrite (k := 0) (d := d)
    (m := regrown s.cells (newCapacity sizeof s.vec.res newSize .exactly) g.fresh) (by omega)
  apply wp_eos_sound hu (by omega) _ _ hmax fun w hw _ => hw
  · change d.length ≤ newCapacity sizeof s.vec.res newSize .exactly
    omega
  · exact Nat.le_of_eq (hlen.symm.trans hlen'.symm)

theorem safe_transform (f : α → α) (h : s.Sound sizeof rest allowed ends) :
    s.Safe sizeof allowed rest ends (transform f) := by
  unfold StringState.Safe transform
  rw [wp_bind, wp_get, wp_bind]
  apply wp_read_sound h (.inr (Nat.le_of_eq (Nat.zero_add _)))
  intro t ht hvec _
  apply wp_write_below ht
  · rw [List.length_map, length_loaded, hvec, Nat.zero_add]
  · exact fun u hu _ _ => hu

/-- A call that only looks. -/
theorem safe_checked {cond : PodState α → Prop} [∀ t, Decidable (cond t)] {f : PodState α → ℕ}
    (h : s.Sound sizeof rest allowed ends) : s.Safe sizeof allowed rest ends (onVec do
      let t ← get
      PodVector.verifyRange (cond t)
      return f t) := by
  unfold StringState.Safe
  rw [wp_onVec, wp_bind, wp_get, wp_bind]
  unfold PodVector.verifyRange
  split
  · exact h
  · exact h

theorem safe_detachAbi (h : s.Sound sizeof rest allowed ends) :
    s.Safe sizeof allowed rest ends (onVec PodVector.detachAbi) := by
  unfold StringState.Safe
  rw [wp_onVec]
  exact StringState.sound_empty rfl (fun b cells hb => (h.keeps.apart b cells hb).1) h.faults

theorem safe_attachAbi {block : Option ℕ} {len : ℕ} (h : s.Sound sizeof rest allowed ends)
    (hlive : ∀ b, block = some b → (s.heap b).isSome)
    (hlen : len ≤ ((block.bind s.heap).getD []).length) (hmax : len ≤ maxSize sizeof)
    (hapart : ∀ b, block = some b → s.vec.first ≠ some b ∧ rest b = none)
    (hends : ends → ∀ b, block = some b → ((s.heap b).getD [])[len]? = some 0) :
    s.Safe sizeof allowed rest ends (onVec (PodVector.attachAbi block len)) := by
  unfold StringState.Safe PodVector.attachAbi
  rw [wp_onVec, wp_bind]
  unfold wp
  rw [h.has.exec_tidy]
  cases block with
  | none =>
    have hzero : len = 0 := Nat.le_zero.1 hlen
    subst hzero
    exact StringState.sound_empty rfl (fun b cells hb => h.keeps.freed hb) h.faults
  | some b =>
    obtain ⟨hne, hrest⟩ := hapart b rfl
    obtain ⟨cells, hcells⟩ := Option.isSome_iff_exists.1 (hlive b rfl)
    rw [Option.bind_some, hcells, Option.getD_some] at hlen
    have his : StringState.Is rest allowed { s with vec := ⟨some b, len, len⟩, heap := s.freed }
        cells ⟨some b, len, len⟩ := by
      refine ⟨⟨.inr ⟨b, rfl, ?_⟩, fun c cells' hc => ⟨h.keeps.freed hc, ?_⟩⟩, rfl, h.faults⟩
      · exact (PodState.freed_of_ne hne).trans hcells
      · intro hcb
        obtain rfl := Option.some.inj hcb
        cases hrest.symm.trans hc
    refine his.sound_of_getElem? (Nat.le_refl _) hlen hmax fun hends' => ?_
    have hzero := hends hends' b rfl
    rwa [hcells] at hzero

end BasicString

theorem BasicString.safe_replaceAll [DecidableEq α] {grants : ℕ → Option (Grant α)}
    {fromText toText : List α} {fuel : ℕ} (h : s.Sound sizeof rest allowed ends)
    (hcontained : (StringOp.replaceAll fuel fromText toText).Contained sizeof allowed grants s)
    (hgrants : ∀ k, ∀ g ∈ grants k, rest g.block = none) (hover : .overflow ∈ allowed) :
    s.Safe sizeof allowed rest ends (replaceAll sizeof grants fromText toText fuel) := by
  unfold replaceAll
  split
  · exact h
  · next hne => exact wp_replaceAllLoop h (Nat.zero_le _) hgrants hover (hcontained hne)

open BasicString in
/-- A call that stays inside the block leaves a sound string. -/
theorem StringOp.safe_run [DecidableEq α] {grants : ℕ → Option (Grant α)} {op : StringOp α}
    (h : s.Sound sizeof rest allowed ends) (hlegal : op.Legal sizeof s.heap)
    (hcontained : op.Contained sizeof allowed grants s) (hends : ends → op.Ends grants s)
    (hgrants : ∀ k, ∀ g ∈ grants k, rest g.block = none) (hread : .strayRead ∈ allowed)
    (hover : .overflow ∈ allowed)
    (hattach : ∀ b len, op = attachAbi (some b) len → s.vec.first ≠ some b ∧ rest b = none) :
    s.Safe sizeof allowed rest ends (op.run sizeof grants) := by
  have hgrant := hgrants 0
  cases op with
  | resize newSize => exact (safe_resize h hcontained hgrant).done
  | resizeFill newSize val => exact (safe_resizeFill h hcontained hgrant).done
  | expand count => exact (safe_expand h hcontained hgrant).done
  | expandFill count val => exact (safe_expandFill h hcontained hgrant).done
  | pushBack val => exact (safe_pushBack h hcontained hgrant).done
  | append d => exact (safe_append h hcontained hgrant).done
  | insertRange pos range => exact (safe_insertRange h hcontained hgrant).map
  | insertFill pos count val => exact (safe_insertFill h hcontained hgrant).map
  | erase pos => exact (safe_erase h hends).map
  | eraseRange first last => exact (safe_eraseRange h hends).map
  | assign atFirst d => exact (safe_assign h hcontained hends hgrant).done
  | clear => exact (safe_clear h hends).done
  | reserve newCap => exact (safe_reserve h hcontained hgrant hends).done
  | shrinkToFit => exact (safe_shrinkToFit h hgrant).done
  | resizeAndOverwrite newSize written =>
    exact (safe_resizeAndOverwrite h hcontained hlegal hgrant).done
  | atIndex index => exact (safe_checked h).map
  | front => exact (safe_checked h).map
  | back => exact (safe_checked h).map
  | transform f => exact (safe_transform f h).done
  | replace off nx text =>
    refine StringState.Safe.done ?_
    obtain hthrows | hfits := hcontained
    · exact wp_replace_throws h hthrows fun _ => h
    · exact wp_replace h hfits (fun _ _ _ => hread) hgrant fun _ ht _ _ => ht
  | replaceAll fuel fromText toText => exact safe_replaceAll h hcontained hgrants hover
  | detachAbi => exact (safe_detachAbi h).done
  | attachAbi block len =>
    obtain ⟨hlive, hlen, hmax⟩ := hlegal
    refine (safe_attachAbi h hlive hlen hmax (fun b hb => hattach b len ?_) hends).done
    rw [hb]

end

/-! ## Strings over one heap -/

/-- The strings, of which some are empty and not in use, the heap, and what has happened that is
undefined. -/
structure StringFamily (α : Type) extends PodFamily α where
  faults : List StringFault

/-- A call on a string with what `realloc` has for it, `swap`, which move assignment is too,
`_Assign_rv`, the destructor, or someone else's change to a block. -/
inductive StringAction (α : Type)
  | call (i : ℕ) (op : StringOp α) (grants : ℕ → Option (Grant α))
  | swap (i j : ℕ)
  | assignRv (i j : ℕ)
  | destroy (i : ℕ)
  | outside (b : ℕ) (cells : Option (List α))

namespace StringFamily

section

variable [DecidableEq α] [Zero α] (sizeof : ℕ) (allowed : Set StringFault) (σ : StringFamily α)

/-- A string, the heap and what has happened. -/
def object (i : ℕ) : StringState α := ⟨σ.toPodFamily.object i, σ.faults⟩

/-- What a change to one string leaves. -/
def put (i : ℕ) (t : StringState α) : StringFamily α := ⟨σ.toPodFamily.put i t.toPodState, t.faults⟩

/-- What an action returns or throws, and what it leaves. -/
def act : StringAction α → Except PodError (Option ℕ) × StringFamily α
  | .call i op grants =>
    let r := exec (op.run sizeof grants) (σ.object i)
    (r.1, σ.put i r.2)
  | .swap i j => (.ok none, { σ with vecs := σ.vecs ∘ Equiv.swap i j })
  | .assignRv i j =>
    (.ok none, { σ with vecs := Function.update (Function.update σ.vecs i (σ.vecs j)) j {} })
  | .destroy i => (.ok none, σ.put i (exec (onVec PodVector.tidy) (σ.object i)).2)
  | .outside b cells => (.ok none, { σ with heap := Function.update σ.heap b cells })

def step (a : StringAction α) (σ : StringFamily α) : Option (StringFamily α) :=
  some (σ.act sizeof a).2

omit [DecidableEq α] [Zero α] in
/-- `realloc` gives no block of another string, and nobody touches a block that a string has. -/
def Legal : StringAction α → Prop
  | .call i op grants => op.Legal sizeof σ.heap ∧
    (∀ k, ∀ g ∈ grants k, ∀ j, j ≠ i → (σ.vecs j).first ≠ some g.block) ∧
    ∀ b len, op = .attachAbi (some b) len → ∀ k, (σ.vecs k).first ≠ some b
  | .swap _ _ => True
  | .assignRv i j => i ≠ j
  | .destroy _ => True
  | .outside b _ => ∀ k, (σ.vecs k).first ≠ some b

omit [Zero α] in
/-- What a call writes lies inside the block of its string. -/
def Contained (a : StringAction α) : Prop :=
  σ.Legal sizeof a ∧
    ∀ i op grants, a = .call i op grants → op.Contained sizeof allowed grants (σ.object i)

/-- Each string is sound, and no two have the same block. -/
structure Sound (ends : Prop) : Prop where
  wellFormed : σ.toPodFamily.WellFormed sizeof
  faults : ∀ fault ∈ σ.faults, fault ∈ allowed
  terminated : ends → ∀ i, (σ.object i).cStr[(σ.vecs i).size]? = some 0

end

variable [DecidableEq α] [Zero α] {sizeof : ℕ} {allowed : Set StringFault} {ends : Prop}
  {σ : StringFamily α} {i : ℕ} {t : StringState α}

omit [DecidableEq α] in
theorem cStr_of_block {v : PodVector} {heap heap' : Heap α} {faults faults' : List StringFault}
    (hblock : v.first.bind heap' = v.first.bind heap) :
    (StringState.mk ⟨v, heap'⟩ faults').cStr = (StringState.mk ⟨v, heap⟩ faults).cStr := by
  unfold StringState.cStr PodState.cells
  dsimp only
  rw [hblock]

omit [DecidableEq α] in
theorem Sound.object (h : σ.Sound sizeof allowed ends) (i : ℕ) :
    (σ.object i).Sound sizeof (σ.others i) allowed ends := by
  have hhas := h.wellFormed.has i
  exact ⟨hhas.keeps, h.faults, hhas.wellFormed.size_le, hhas.wellFormed.res_le,
    hhas.wellFormed.res_le_max, fun hends => h.terminated hends i⟩

omit [DecidableEq α] in
theorem Sound.put (h : σ.Sound sizeof allowed ends)
    (ht : t.Sound sizeof (σ.others i) allowed ends) : (σ.put i t).Sound sizeof allowed ends where
  wellFormed := h.wellFormed.put ht.has
  faults := ht.faults
  terminated := fun hends k => by
    by_cases hk : k = i
    · subst hk
      have hobject : (σ.put k t).object k = t :=
        congrArg (StringState.mk · t.faults) (PodFamily.object_put k t.toPodState)
      have hvec : (σ.put k t).vecs k = t.vec := PodFamily.vecs_put k t.toPodState
      rw [hobject, hvec]
      exact ht.terminated hends
    · have hobject : (σ.put i t).object k = ⟨⟨σ.vecs k, t.heap⟩, t.faults⟩ :=
        congrArg (StringState.mk · t.faults) (PodFamily.object_put_of_ne hk t.toPodState)
      have hvec : (σ.put i t).vecs k = σ.vecs k := PodFamily.vecs_put_of_ne hk t.toPodState
      rw [hobject, hvec, cStr_of_block (h.wellFormed.block_eq ht.has hk)]
      exact h.terminated hends k

theorem Sound.call (h : σ.Sound sizeof allowed ends) {op : StringOp α}
    {grants : ℕ → Option (Grant α)} (ha : σ.Contained sizeof allowed (.call i op grants))
    (hends : ends → op.Ends grants (σ.object i)) (hread : .strayRead ∈ allowed)
    (hover : .overflow ∈ allowed) :
    (σ.act sizeof (.call i op grants)).2.Sound sizeof allowed ends := by
  obtain ⟨⟨hlegal, hgrants, hattach⟩, hcontained⟩ := ha
  have hrest : ∀ k, ∀ g ∈ grants k, σ.others i g.block = none := by
    intro k g hg
    apply if_neg
    rintro ⟨j, hj, hfirst⟩
    exact hgrants k g hg j hj hfirst
  have hsafe := StringOp.safe_run (h.object i) hlegal (hcontained i op grants rfl) hends hrest hread
    hover fun b len hop =>
      ⟨hattach b len hop i, PodFamily.others_of_forall (hattach b len hop)⟩
  exact h.put (Throwing.wp_state.1 hsafe)

theorem terminated_assignRv (h : ∀ i, (σ.object i).cStr[(σ.vecs i).size]? = some 0) (i j k : ℕ) :
    ((σ.act sizeof (.assignRv i j)).2.object k).cStr[((σ.act sizeof (.assignRv i j)).2.vecs
      k).size]? = some 0 := by
  change (StringState.mk ⟨Function.update (Function.update σ.vecs i (σ.vecs j)) j {} k, σ.heap⟩
    σ.faults).cStr[(Function.update (Function.update σ.vecs i (σ.vecs j)) j {} k).size]? = some 0
  by_cases hkj : k = j
  · rw [hkj, Function.update_self]
    rfl
  · rw [Function.update_of_ne hkj]
    by_cases hki : k = i
    · rw [hki, Function.update_self]
      exact h j
    · rw [Function.update_of_ne hki]
      exact h k

/-- Every action keeps the strings sound. -/
theorem Sound.act (h : σ.Sound sizeof allowed ends) {a : StringAction α}
    (ha : σ.Contained sizeof allowed a)
    (hends : ends → ∀ i op grants, a = .call i op grants → op.Ends grants (σ.object i))
    (hread : .strayRead ∈ allowed) (hover : .overflow ∈ allowed) :
    (σ.act sizeof a).2.Sound sizeof allowed ends := by
  cases a with
  | call i op grants => exact h.call ha (fun hends' => hends hends' i op grants rfl) hread hover
  | swap i j =>
    have hwell : (σ.toPodFamily.act false sizeof (.swap i j)).2.WellFormed sizeof :=
      h.wellFormed.swap i j
    exact ⟨hwell, h.faults, fun hends' k => h.terminated hends' (Equiv.swap i j k)⟩
  | assignRv i j =>
    have hwell : (σ.toPodFamily.act false sizeof (.assignRv i j)).2.WellFormed sizeof :=
      (h.wellFormed.assignRv i j).1
    exact ⟨hwell, h.faults, fun hends' => terminated_assignRv (h.terminated hends') i j⟩
  | destroy i => exact h.put (Throwing.wp_state.1 (safe_tidy (h.object i)))
  | outside b cells =>
    have hwell : (σ.toPodFamily.act false sizeof (.outside b cells)).2.WellFormed sizeof :=
      (h.wellFormed.outside ha.1).1
    refine ⟨hwell, h.faults, fun hends' k => ?_⟩
    exact (congrArg (·[(σ.vecs k).size]?) (cStr_of_block
      (PodFamily.block_outside ha.1 cells k))).trans (h.terminated hends' k)

/-! ## Runs -/

omit [DecidableEq α] [Zero α] in
/-- Strings that are all empty. -/
def empty (heap : Heap α) : StringFamily α := ⟨⟨fun _ => {}, heap⟩, []⟩

omit [DecidableEq α] in
theorem sound_empty (heap : Heap α) : (empty heap).Sound sizeof allowed ends :=
  ⟨PodFamily.wellFormed_empty heap, fun _ hfault => absurd hfault List.not_mem_nil,
    fun _ _ => rfl⟩

/-- In every run of actions that are contained, nothing was written outside a block, in no state:
what has happened is never taken off the record. -/
theorem not_strayWrite_of_run (sizeof : ℕ) (heap : Heap α) {as : List (StringAction α)}
    (hcontained : Machine.Meets (step sizeof)
      (Contained sizeof {.strayRead, .overlap, .overflow}) as (empty heap))
    (hrun : Machine.run (step sizeof) as (empty heap) = some σ) : .strayWrite ∉ σ.faults := by
  have hsound : σ.Sound sizeof {.strayRead, .overlap, .overflow} False := by
    refine Machine.invariant_of_meets (I := fun σ : StringFamily α =>
      σ.Sound sizeof {.strayRead, .overlap, .overflow} False) ?_ (sound_empty heap) hcontained hrun
    intro σ a σ' hσ ha hstep
    obtain rfl := Option.some.inj hstep
    exact hσ.act ha False.elim (by simp) (by simp)
  intro hmem
  have hallowed := hsound.faults _ hmem
  simp at hallowed

/-- The block that `realloc` has for a call. -/
def grantZero : ℕ → Option (Grant ℕ) := fun _ => some ⟨0, fun _ => 0⟩

theorem legal_grantZero {σ : StringFamily ℕ} {op : StringOp ℕ} (hlegal : op.Legal 1 σ.heap)
    (hothers : ∀ j, j ≠ 0 → (σ.vecs j).first = none)
    (hattach : ∀ b len, op ≠ .attachAbi (some b) len) :
    σ.Legal 1 (.call 0 op grantZero) := by
  refine ⟨hlegal, fun _ _ _ j hj => ?_, fun b len hop => absurd hop (hattach b len)⟩
  rw [hothers j hj]
  exact nofun

/-- The first call of a run on the only string. -/
theorem contained_cons {allowed : Set StringFault} {σ : StringFamily ℕ} {op : StringOp ℕ}
    {as : List (StringAction ℕ)} (hlegal : op.Legal 1 σ.heap)
    (hattach : ∀ b len, op ≠ .attachAbi (some b) len)
    (hothers : ∀ j, j ≠ 0 → (σ.vecs j).first = none)
    (hop : op.Contained 1 allowed grantZero (σ.object 0))
    (hrest : (∀ j, j ≠ 0 → ((σ.act 1 (.call 0 op grantZero)).2.vecs j).first = none) →
      Machine.Meets (step 1) (Contained 1 allowed) as (σ.act 1 (.call 0 op grantZero)).2) :
    Machine.Meets (step 1) (Contained 1 allowed) (.call 0 op grantZero :: as) σ := by
  refine ⟨⟨legal_grantZero hlegal hothers hattach, fun i op' grants heq => ?_⟩,
    hrest fun j hj => ?_⟩
  · obtain ⟨rfl, rfl, rfl⟩ := StringAction.call.inj heq
    exact hop
  · change (Function.update σ.vecs 0 _ j).first = none
    rw [Function.update_of_ne hj]
    exact hothers j hj

/-- A string that grows twice, and is then replaced in at the same length, a smaller one, a larger
one that fits, and one that does not. -/
def growAndReplace : List (StringAction ℕ) :=
  [.call 0 (.append [97, 98, 99]) grantZero, .call 0 (.insertFill 1 2 100) grantZero,
    .call 0 (.replace 1 2 (.outside [120, 121])) grantZero,
    .call 0 (.replace 0 3 (.outside [122])) grantZero,
    .call 0 (.replace 0 1 (.outside [49, 50, 51])) grantZero,
    .call 0 (.replace 4 1 (.outside [52, 53, 54, 55, 56])) grantZero]

theorem contained_growAndReplace (allowed : Set StringFault) :
    Machine.Meets (step 1) (Contained 1 allowed) growAndReplace (empty fun _ => none) := by
  refine contained_cons trivial nofun (fun _ _ => rfl) (fun _ => (by decide : 4 ≤ maxSize 1))
    fun h => ?_
  refine contained_cons trivial nofun h (fun _ _ => (by decide : 6 ≤ maxSize 1)) fun h => ?_
  refine contained_cons trivial nofun h (.inr ⟨by decide +kernel, fun hlt => ?_, fun hlt => ?_,
    fun hlt => ?_⟩) fun h => ?_
  · exact absurd hlt (by decide +kernel)
  · exact absurd hlt (by decide +kernel)
  · exact absurd hlt (by decide +kernel)
  refine contained_cons trivial nofun h (.inr ⟨by decide +kernel, fun _ => .inr (by decide +kernel),
    fun hlt => ?_, fun hlt => ?_⟩) fun h => ?_
  · exact absurd hlt (by decide +kernel)
  · exact absurd hlt (by decide +kernel)
  refine contained_cons trivial nofun h (.inr ⟨by decide +kernel, fun hlt => ?_,
    fun _ _ => ⟨by decide +kernel, Nat.le_refl 3⟩, fun hlt => ?_⟩) fun h => ?_
  · exact absurd hlt (by decide +kernel)
  · exact absurd hlt (by decide +kernel)
  refine contained_cons trivial nofun h (.inr ⟨by decide +kernel, fun hlt => ?_, fun _ hle => ?_,
    fun _ => ⟨by decide +kernel, by decide +kernel, rfl, .inr (by decide +kernel)⟩⟩)
    fun _ => trivial
  · exact absurd hlt (by decide +kernel)
  · exact absurd hle (by decide +kernel)

theorem not_strayWrite_growAndReplace : ∃ σ : StringFamily ℕ,
    Machine.run (step 1) growAndReplace (empty fun _ => none) = some σ ∧
      σ.contents 0 = [49, 50, 51, 98, 52, 53, 54, 55, 56] ∧ .strayWrite ∉ σ.faults :=
  ⟨_, rfl, by decide +kernel,
    not_strayWrite_of_run 1 (fun _ => none) (contained_growAndReplace _) rfl⟩

/-- After `resize(1)` the capacity is 2 and the block has two cells.  `resize(2)` writes the
terminator to the third. -/
def resizeTwice : List (StringAction ℕ) :=
  [.call 0 (.resize 1) grantZero, .call 0 (.resize 2) grantZero]

theorem strayWrite_resizeTwice : ¬ ∀ (as : List (StringAction ℕ)) (σ : StringFamily ℕ),
    Machine.Meets (step 1) (Legal 1) as (empty fun _ => none) →
    Machine.run (step 1) as (empty fun _ => none) = some σ → .strayWrite ∉ σ.faults := by
  intro hall
  have hlegal : Machine.Meets (step 1) (Legal 1) resizeTwice (empty fun _ => none) := by
    refine ⟨legal_grantZero trivial (fun _ _ => rfl) nofun, ?_, trivial⟩
    refine legal_grantZero trivial (fun j hj => ?_) nofun
    change (Function.update (fun _ => ({} : PodVector)) 0 _ j).first = none
    rw [Function.update_of_ne hj]
  exact hall resizeTwice _ hlegal rfl (by decide)

end StringFamily

end Yasio
