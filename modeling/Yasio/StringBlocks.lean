import Yasio.BasicString

/-!
# The block of a string

What the parts of the calls make of the cells, as long as they stay inside the block.  A string is
sound when its block has room for its capacity; the terminator is part of it when it is asked for.
-/

namespace Yasio

open Throwing (wp wp_pure wp_bind wp_get wp_modify wp_map)
open Memory (overwrite)
open PodVector (sizeT maxSize calculateGrowth)

variable {α : Type} {rest : Heap α} {allowed : Set StringFault} {s : StringState α} {v : PodVector}
  {c d : List α} {E : PodError → StringState α → Prop}

/-- The string has these fields, its block these cells, and only allowed faults have happened. -/
structure StringState.Is (rest : Heap α) (allowed : Set StringFault) (s : StringState α)
    (c : List α) (v : PodVector) : Prop where
  keeps : s.toPodState.Keeps rest c
  vec_eq : s.vec = v
  faults : ∀ fault ∈ s.faults, fault ∈ allowed

theorem StringState.Is.first_isSome (h : s.Is rest allowed c v) (hc : c ≠ []) :
    v.first.isSome := by
  rw [← h.vec_eq]
  obtain ⟨-, rfl⟩ | ⟨b, hfirst, -⟩ := h.keeps.block
  · exact absurd rfl hc
  · rw [hfirst]
    rfl

namespace BasicString

section

variable {Q : Unit → StringState α → Prop} {fault : StringFault} {offset n : ℕ}

theorem wp_onVec {β : Type} {m : Podding α β} {Q : β → StringState α → Prop} :
    wp (onVec m) Q E s ↔ wp m (fun b t => Q b { s with toPodState := t })
      (fun e t => E e { s with toPodState := t }) s.toPodState := Throwing.wp_zoom

theorem wp_verifyRange {cond : Prop} [Decidable cond] (hcond : cond) (hQ : Q () s) :
    wp (verifyRange cond) Q E s := by
  unfold verifyRange
  rw [wp_onVec]
  exact PodVector.wp_verifyRange hcond hQ

theorem wp_verifyRange_of_not {cond : Prop} [Decidable cond] (hcond : ¬ cond)
    (hE : E .outOfRange s) : wp (verifyRange cond) Q E s := by
  unfold verifyRange PodVector.verifyRange
  rw [wp_onVec, if_neg hcond]
  exact hE

theorem wp_mark {cond : Prop} [Decidable cond] (h : s.Is rest allowed c v)
    (hcond : fault ∈ allowed ∨ ¬ cond) (hQ : ∀ t, t.Is rest allowed c v → Q () t) :
    wp (mark fault cond) Q E s := by
  unfold mark
  rw [wp_modify]
  apply hQ
  split
  · next hholds =>
    refine ⟨h.keeps, h.vec_eq, fun f hf => ?_⟩
    obtain rfl | hf := List.mem_cons.1 hf
    · exact hcond.resolve_right (not_not_intro hholds)
    · exact h.faults f hf
  · exact h

theorem wp_setSize (h : s.Is rest allowed c v)
    (hQ : ∀ t, t.Is rest allowed c { v with size := n } → Q () t) :
    wp (setSize n) Q E s := by
  unfold setSize
  rw [wp_onVec]
  refine hQ _ ⟨h.keeps.withSize n, ?_, h.faults⟩
  rw [← h.vec_eq]

theorem wp_write (h : s.Is rest allowed c v) (hfit : d = [] ∨ offset + d.length ≤ c.length)
    (hQ : ∀ t, t.Is rest allowed (overwrite c offset d) v → Q () t) :
    wp (write offset d) Q E s := by
  have hcells := h.keeps.cells_eq
  unfold write
  rw [wp_bind, wp_get, wp_bind]
  apply wp_mark h
  · right
    rw [hcells]
    rintro ⟨hne, hlt⟩
    have hle := hfit.resolve_left hne
    omega
  · intro t ht
    have htake : d.take (s.cells.length - offset) = d := by
      obtain rfl | hle := hfit
      · exact List.take_nil
      · rw [hcells]
        exact List.take_of_length_le (by omega)
    rw [wp_onVec, htake]
    refine hQ _ ⟨?_, (PodState.vec_stored offset d).trans ht.vec_eq, ht.faults⟩
    have hstored := ht.keeps.stored offset d
    split at hstored
    · exact hstored
    · next hnull =>
      -- Without a block there are no cells and nothing is written.
      have hc : c = [] := by
        by_contra hne
        have hsome := ht.first_isSome hne
        rw [← ht.vec_eq] at hsome
        exact hnull hsome
      have hd : d = [] := by
        obtain hnil | hle := hfit
        · exact hnil
        · rw [hc, List.length_nil] at hle
          exact List.eq_nil_of_length_eq_zero (by omega)
      have hsame : overwrite c offset d = c := by rw [hd, Memory.overwrite_nil]
      rw [hsame]
      exact hstored

end

variable [Zero α] {source target k n : ℕ}

@[simp] theorem length_loaded (c : List α) (source n : ℕ) : (loaded c source n).length = n := by
  rw [loaded, List.length_rightpad, List.length_take]
  omega

theorem take_loaded (hk : k ≤ n) (hfit : source + k ≤ c.length) :
    (loaded c source n).take k = (c.drop source).take k := by
  have hlen : k ≤ ((c.drop source).take n).length := by
    rw [List.length_take, List.length_drop]
    omega
  rw [loaded, List.rightpad, List.take_append_of_le_length hlen, List.take_take,
    Nat.min_eq_left hk]

theorem loaded_eq (hfit : source + n ≤ c.length) : loaded c source n = (c.drop source).take n := by
  have htake := take_loaded (Nat.le_refl n) hfit
  rwa [List.take_of_length_le (Nat.le_of_eq (length_loaded c source n))] at htake

theorem wp_read {Q : List α → StringState α → Prop} (h : s.Is rest allowed c v)
    (hfit : .strayRead ∈ allowed ∨ source + n ≤ c.length)
    (hQ : ∀ t, t.Is rest allowed c v → Q (loaded c source n) t) : wp (read source n) Q E s := by
  have hcells := h.keeps.cells_eq
  unfold read
  rw [wp_bind, wp_get, wp_bind]
  apply wp_mark h
  · rw [hcells]
    exact hfit.imp_right fun hle hlt => Nat.not_lt.2 hle hlt.2
  · intro t ht
    rw [wp_pure, hcells]
    exact hQ t ht

theorem wp_move {Q : Unit → StringState α → Prop} (h : s.Is rest allowed c v)
    (hread : .strayRead ∈ allowed ∨ source + n ≤ c.length) (hwrite : n = 0 ∨ target + n ≤ c.length)
    (hQ : ∀ t, t.Is rest allowed (overwrite c target (loaded c source n)) v → Q () t) :
    wp (move target source n) Q E s := by
  unfold move
  rw [wp_bind]
  apply wp_read h hread
  intro t ht
  refine wp_write ht ?_ hQ
  rw [length_loaded]
  exact hwrite.imp_left fun hzero => List.eq_nil_of_length_eq_zero ((length_loaded ..).trans hzero)

theorem wp_copy {Q : Unit → StringState α → Prop} (h : s.Is rest allowed c v)
    (hover : .overlap ∈ allowed ∨ target + n ≤ source ∨ source + n ≤ target)
    (hread : .strayRead ∈ allowed ∨ source + n ≤ c.length) (hwrite : n = 0 ∨ target + n ≤ c.length)
    (hQ : ∀ t, t.Is rest allowed (overwrite c target (loaded c source n)) v → Q () t) :
    wp (copy target source n) Q E s := by
  unfold copy
  rw [wp_bind]
  apply wp_mark h
  · refine hover.imp_right fun happart hlt => ?_
    omega
  · exact fun t ht => wp_move ht hread hwrite hQ

theorem wp_eos {Q : Unit → StringState α → Prop} (h : s.Is rest allowed c v) (hn : n < c.length)
    (hQ : ∀ t, t.Is rest allowed (overwrite c n [0]) { v with size := n } → Q () t) :
    wp (eos n) Q E s := by
  unfold eos
  rw [wp_bind]
  apply wp_setSize h
  exact fun t ht => wp_write ht (.inr hn) hQ

theorem wp_readText {Q : List α → StringState α → Prop} {text : StringText α}
    (h : s.Is rest allowed c v) (hown : ∀ start count, text = .own start count →
      .strayRead ∈ allowed) (hk : ∀ d, text = .outside d → n = 0 ∨ k + n ≤ d.length)
    (hQ : ∀ t d, d.length = n → (∀ d', text = .outside d' → d = loaded d' k n) →
      t.Is rest allowed c v → Q d t) : wp (readText k n text) Q E s := by
  cases text with
  | outside d =>
    have hfit := hk d rfl
    unfold readText
    rw [wp_bind]
    apply wp_mark h
    · right
      omega
    · intro t ht
      refine hQ t _ (length_loaded ..) (fun d' hd' => ?_) ht
      cases hd'
      rfl
  | own start count =>
    unfold readText
    exact wp_read h (.inl (hown start count rfl)) fun t ht =>
      hQ t _ (length_loaded ..) (fun d' hd' => nomatch hd') ht

end BasicString

/-! ## New blocks -/

namespace BasicString

variable {sizeof n cap : ℕ} {grant : Option (Grant α)} {policy : ReallocationPolicy}
  {Q : Unit → StringState α → Prop}

theorem wp_reallocate (h : s.Is rest allowed c v) (hgrant : ∀ g ∈ grant, rest g.block = none)
    (hcap : newCapacity sizeof v.res n policy = cap) (hpos : 0 < cap) (hmax : cap ≤ maxSize sizeof)
    (hE : grant = none → E .badAlloc s)
    (hQ : ∀ g ∈ grant, ∀ t, t.Is rest allowed (regrown c cap g.fresh)
      { v with first := some g.block, res := cap } → Q () t) :
    wp (reallocate sizeof grant policy n) Q E s := by
  unfold reallocate
  rw [wp_bind, wp_get, h.vec_eq, hcap, wp_onVec, PodVector.reallocate_buffer, wp_bind, wp_get]
  unfold PodVector.newCapacity
  dsimp only
  cases grant with
  | none =>
    rw [reallocBlock_none hpos hmax]
    exact hE rfl
  | some g =>
    rw [reallocBlock_some g hpos hmax]
    refine hQ g rfl _ ⟨?_, ?_, h.faults⟩
    · have hmoved := h.keeps.moved_of_none (hgrant g rfl) (regrown s.cells cap g.fresh) cap
      rw [h.keeps.cells_eq] at hmoved ⊢
      exact hmoved
    · rw [← h.vec_eq]

theorem newCapacity_between (hres : v.res ≤ maxSize sizeof) (hn : n + 1 ≤ maxSize sizeof)
    (policy : ReallocationPolicy) : n + 1 ≤ newCapacity sizeof v.res n policy ∧
      newCapacity sizeof v.res n policy ≤ maxSize sizeof := by
  have hlimit : maxSize sizeof ≤ 2 ^ 64 - 1 := Nat.div_le_self _ _
  have hsum : sizeT (n + 1 : ℕ) = n + 1 := by
    unfold sizeT
    omega
  cases policy with
  | exactly =>
    rw [newCapacity, hsum]
    exact ⟨Nat.le_refl _, hn⟩
  | atLeast =>
    rw [newCapacity, hsum]
    exact ⟨Nat.le_max_right _ _,
      Nat.max_le.2 ⟨PodVector.calculateGrowth_le hres (by omega), hn⟩⟩

end BasicString

/-! ## Sound strings -/

section

variable [Zero α] {sizeof n offset : ℕ} {ends : Prop}

/-- The block has room for the capacity, only allowed faults have happened, and if the text ends
with a terminator, it is there. -/
structure StringState.Sound (sizeof : ℕ) (rest : Heap α) (allowed : Set StringFault) (ends : Prop)
    (s : StringState α) : Prop where
  keeps : s.toPodState.Keeps rest s.cells
  faults : ∀ fault ∈ s.faults, fault ∈ allowed
  size_le : s.vec.size ≤ s.vec.res
  res_le : s.vec.res ≤ s.cells.length
  res_le_max : s.vec.res ≤ maxSize sizeof
  terminated : ends → s.cStr[s.vec.size]? = some 0

namespace StringState

theorem Sound.is (h : s.Sound sizeof rest allowed ends) : s.Is rest allowed s.cells s.vec :=
  ⟨h.keeps, rfl, h.faults⟩

theorem Is.sound (h : s.Is rest allowed c v) (hsize : v.size ≤ v.res) (hres : v.res ≤ c.length)
    (hmax : v.res ≤ maxSize sizeof)
    (hends : ends → (if v.first.isSome then c else [0])[v.size]? = some 0) :
    s.Sound sizeof rest allowed ends := by
  obtain ⟨hkeeps, rfl, hfaults⟩ := h
  have hcells := hkeeps.cells_eq
  rw [← hcells] at hkeeps hres hends
  exact ⟨hkeeps, hfaults, hsize, hres, hmax, hends⟩

/-- A block with a terminator is not null. -/
theorem Is.sound_of_getElem? (h : s.Is rest allowed c v) (hsize : v.size ≤ v.res)
    (hres : v.res ≤ c.length) (hmax : v.res ≤ maxSize sizeof)
    (hends : ends → (c)[v.size]? = some 0) : s.Sound sizeof rest allowed ends := by
  refine h.sound hsize hres hmax fun hends' => ?_
  have hzero := hends hends'
  have hc : c ≠ [] := by
    rintro rfl
    cases hzero
  rwa [if_pos (h.first_isSome hc)]

theorem Sound.getElem?_cells (h : s.Sound sizeof rest allowed ends) (hsome : s.vec.first.isSome)
    (hends : ends) : s.cells[s.vec.size]? = some 0 := by
  have hterminated := h.terminated hends
  unfold cStr at hterminated
  rwa [if_pos hsome] at hterminated

end StringState

namespace BasicString

variable {Q : Unit → StringState α → Prop}

/-- A copy over characters of the string. -/
theorem wp_write_below (h : s.Sound sizeof rest allowed ends)
    (hfit : offset + d.length ≤ s.vec.size)
    (hQ : ∀ t, t.Sound sizeof rest allowed ends → t.vec = s.vec →
      t.cells = overwrite s.cells offset d → Q () t) : wp (write offset d) Q E s := by
  have hsize := h.size_le
  have hres := h.res_le
  have hlen : offset + d.length ≤ s.cells.length := by omega
  apply wp_write h.is (.inr hlen)
  intro t ht
  refine hQ t (ht.sound hsize ?_ h.res_le_max fun hends => ?_) ht.vec_eq ht.keeps.cells_eq
  · rwa [Memory.length_overwrite hlen]
  · have hzero := h.terminated hends
    unfold StringState.cStr at hzero
    split
    · next hsome =>
      rw [if_pos hsome] at hzero
      rwa [Memory.getElem?_overwrite_of_ge hfit (by omega)]
    · next hnull => rwa [if_neg hnull] at hzero

theorem wp_read_sound {Q : List α → StringState α → Prop} {source : ℕ}
    (h : s.Sound sizeof rest allowed ends)
    (hread : .strayRead ∈ allowed ∨ source + n ≤ s.vec.size)
    (hQ : ∀ t, t.Sound sizeof rest allowed ends → t.vec = s.vec → t.cells = s.cells →
      Q (loaded s.cells source n) t) : wp (read source n) Q E s := by
  have hsize := h.size_le
  have hres := h.res_le
  apply wp_read h.is (hread.imp_right fun hle => by omega)
  exact fun t ht => hQ t (ht.sound hsize hres h.res_le_max h.terminated) ht.vec_eq ht.keeps.cells_eq

theorem wp_move_below {target source : ℕ} (h : s.Sound sizeof rest allowed ends)
    (hread : .strayRead ∈ allowed ∨ source + n ≤ s.vec.size) (hwrite : target + n ≤ s.vec.size)
    (hQ : ∀ t, t.Sound sizeof rest allowed ends → t.vec = s.vec →
      t.cells = overwrite s.cells target (loaded s.cells source n) → Q () t) :
    wp (move target source n) Q E s := by
  unfold move
  rw [wp_bind]
  apply wp_read_sound h hread
  intro t ht hvec hcells
  apply wp_write_below ht
  · rwa [hvec, length_loaded]
  · intro u hu hvec' hcells'
    rw [hcells] at hcells'
    exact hQ u hu (hvec'.trans hvec) hcells'

/-- A new size at which there is a 0 already. -/
theorem wp_setSize_sound (h : s.Sound sizeof rest allowed ends) (hn : n ≤ s.vec.res)
    (hends : ends → s.cStr[n]? = some 0)
    (hQ : ∀ t, t.Sound sizeof rest allowed ends → t.vec.size = n → Q () t) :
    wp (setSize n) Q E s := by
  apply wp_setSize h.is
  intro t ht
  refine hQ t (ht.sound hn h.res_le h.res_le_max hends) ?_
  rw [ht.vec_eq]

theorem wp_eos_sound (h : s.Is rest allowed c v) (hn : n < c.length) (hsize : n ≤ v.res)
    (hres : v.res ≤ c.length) (hmax : v.res ≤ maxSize sizeof)
    (hQ : ∀ t, t.Sound sizeof rest allowed ends → t.vec.size = n → Q () t) :
    wp (eos n) Q E s := by
  apply wp_eos h hn
  intro t ht
  refine hQ t (ht.sound_of_getElem? hsize ?_ hmax fun _ => ?_) ?_
  · rwa [Memory.length_overwrite (by rw [List.length_singleton]; omega)]
  · exact Memory.getElem?_overwrite_singleton (by omega)
  · rw [ht.vec_eq]

end BasicString

/-- There is a cell for the terminator behind so many characters, or there will be one in the block
that is asked for. -/
def StringState.Room (sizeof : ℕ) (s : StringState α) (n : ℕ) : Prop :=
  if s.vec.res < n then n + 1 ≤ maxSize sizeof else n < s.cells.length

namespace BasicString

variable {grant : Option (Grant α)} {policy : ReallocationPolicy} {Q : Unit → StringState α → Prop}

theorem wp_resizeReallocate {start : Prop} (h : s.Sound sizeof rest allowed start)
    (hgrant : ∀ g ∈ grant, rest g.block = none) (hn : n + 1 ≤ maxSize sizeof)
    (hE : grant = none → E .badAlloc s)
    (hQ : ∀ t, t.Sound sizeof rest allowed ends → t.vec.size = n → Q () t) :
    wp (resizeReallocate sizeof grant policy n) Q E s := by
  obtain ⟨hle, hmax⟩ := newCapacity_between h.res_le_max hn policy
  unfold resizeReallocate
  rw [wp_bind]
  apply wp_reallocate h.is hgrant rfl (by omega) hmax hE
  intro g _ t ht
  have hlen := length_regrown s.cells (newCapacity sizeof s.vec.res n policy) g.fresh
  apply wp_eos_sound ht _ _ (Nat.le_of_eq hlen.symm) hmax hQ
  · rw [hlen]
    exact hle
  · exact Nat.le_of_lt hle

/-- What `resize` and `expand` do.  The terminator is written in any case. -/
theorem wp_grow {start : Prop} (h : s.Sound sizeof rest allowed start) (hroom : s.Room sizeof n)
    (hgrant : ∀ g ∈ grant, rest g.block = none)
    (hE : s.vec.res < n → grant = none → E .badAlloc s)
    (hQ : ∀ t, t.Sound sizeof rest allowed ends → t.vec.size = n → Q () t) :
    wp (if s.vec.res < n then resizeReallocate sizeof grant policy n else eos n) Q E s := by
  unfold StringState.Room at hroom
  split
  · next hgrow =>
    rw [if_pos hgrow] at hroom
    exact wp_resizeReallocate h hgrant hroom (hE hgrow) hQ
  · next hfits =>
    rw [if_neg hfits] at hroom
    exact wp_eos_sound h.is hroom (Nat.not_lt.1 hfits) h.res_le h.res_le_max hQ

theorem wp_resize {start : Prop} (h : s.Sound sizeof rest allowed start) (hroom : s.Room sizeof n)
    (hgrant : ∀ g ∈ grant, rest g.block = none)
    (hE : s.vec.res < n → grant = none → E .badAlloc s)
    (hQ : ∀ t, t.Sound sizeof rest allowed ends → t.vec.size = n → Q () t) :
    wp (resize sizeof grant n) Q E s := by
  unfold resize
  rw [wp_bind, wp_get]
  exact wp_grow h hroom hgrant hE hQ

theorem wp_expand {count : ℕ} (h : s.Sound sizeof rest allowed ends)
    (hroom : s.Room sizeof (s.vec.size + count)) (hgrant : ∀ g ∈ grant, rest g.block = none)
    (hE : grant = none → E .badAlloc s)
    (hQ : ∀ t, t.Sound sizeof rest allowed ends → t.vec.size = s.vec.size + count → Q () t) :
    wp (expand sizeof grant count) Q E s := by
  have hlimit : maxSize sizeof ≤ 2 ^ 64 - 1 := Nat.div_le_self _ _
  have hmax := h.res_le_max
  have hnew : sizeT (s.vec.size + count : ℕ) = s.vec.size + count := by
    have hle : s.vec.size + count ≤ maxSize sizeof := by
      unfold StringState.Room at hroom
      split at hroom <;> omega
    unfold sizeT
    omega
  unfold expand
  rw [wp_bind, wp_get]
  dsimp only
  rw [hnew]
  exact wp_grow h hroom hgrant (fun _ => hE) hQ

end BasicString

end

end Yasio
