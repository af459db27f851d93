import Yasio.PodThrows

/-!
# The elements of a vector

A vector holds the list of its first `_Mysize` cells.  Each call makes of this list what the same
operation on lists makes of it, and leaves the blocks of everyone else alone.
-/

namespace Yasio

open Throwing (wp wp_pure wp_bind wp_get wp_modify wp_map)
open Memory (overwrite)

variable {α β : Type}

/-- The cells of the block of the vector. -/
def PodState.cells (s : PodState α) : List α := (s.vec.first.bind s.heap).getD []

/-- The elements of the vector. -/
def PodState.contents (s : PodState α) : List α := s.cells.take s.vec.size

/-- The vector owns a block with room for its capacity. -/
structure PodState.WellFormed (sizeof : ℕ) (s : PodState α) : Prop where
  owns : s.Owns
  size_le : s.vec.size ≤ s.vec.res
  res_le : s.vec.res ≤ s.cells.length
  res_le_max : s.vec.res ≤ PodVector.maxSize sizeof

/-- The vector holds these elements, and the blocks of `rest` are somewhere else. -/
structure PodState.Has (sizeof : ℕ) (rest : Heap α) (s : PodState α) (l : List α) : Prop where
  wellFormed : s.WellFormed sizeof
  contents_eq : s.contents = l
  apart : ∀ c cells, rest c = some cells → s.heap c = some cells ∧ s.vec.first ≠ some c

/-- A block that `realloc` may give: no one has it, or the vector itself does. -/
def Grant.Valid (grant : Option (Grant α)) (s : PodState α) : Prop :=
  ∀ g ∈ grant, s.heap g.block = none ∨ s.vec.first = some g.block

section

variable {sizeof : ℕ} {rest : Heap α} {s : PodState α} {l : List α} {grant : Option (Grant α)}

theorem PodState.cells_some {b : ℕ} {cells : List α} (hfirst : s.vec.first = some b)
    (hcells : s.heap b = some cells) : s.cells = cells := by
  simp [PodState.cells, hfirst, hcells]

theorem PodState.Has.size_eq (h : s.Has sizeof rest l) : s.vec.size = l.length := by
  rw [← h.contents_eq, PodState.contents, List.length_take, Nat.min_eq_left]
  exact Nat.le_trans h.wellFormed.size_le h.wellFormed.res_le

theorem PodState.Has.size_ne_zero (h : s.Has sizeof rest l) (hl : l ≠ []) : s.vec.size ≠ 0 := by
  rw [h.size_eq]
  exact fun hzero => hl (List.eq_nil_of_length_eq_zero hzero)

theorem PodState.Has.length_le (h : s.Has sizeof rest l) : l.length ≤ s.vec.res :=
  h.size_eq ▸ h.wellFormed.size_le

/-- The block of a vector that has room. -/
theorem PodState.Has.block (h : s.Has sizeof rest l) :
    (s.vec.first = none ∧ s.vec.res = 0) ∨ ∃ b, s.vec.first = some b ∧ s.heap b = some s.cells := by
  cases hfirst : s.vec.first with
  | none =>
    have hroom := h.wellFormed.res_le
    have hcells : s.cells = [] := by simp [PodState.cells, hfirst]
    rw [hcells] at hroom
    exact .inl ⟨rfl, Nat.le_zero.1 hroom⟩
  | some b =>
    obtain ⟨cells, hcells⟩ := Option.isSome_iff_exists.1 (h.wellFormed.owns b hfirst)
    exact .inr ⟨b, rfl, hcells.trans (congrArg some (PodState.cells_some hfirst hcells).symm)⟩

/-- A vector with a block. -/
theorem PodState.has_of_block {b : ℕ} {cells : List α} (hfirst : s.vec.first = some b)
    (hcells : s.heap b = some cells) (hsize : s.vec.size ≤ s.vec.res)
    (hres : s.vec.res ≤ cells.length) (hmax : s.vec.res ≤ PodVector.maxSize sizeof)
    (hcontents : cells.take s.vec.size = l)
    (hapart : ∀ c cells, rest c = some cells → s.heap c = some cells ∧ c ≠ b) :
    s.Has sizeof rest l where
  wellFormed :=
    { owns := fun c hc => by
        obtain rfl : b = c := Option.some.inj (hfirst.symm.trans hc)
        rw [hcells]
        rfl
      size_le := hsize
      res_le := by rwa [PodState.cells_some hfirst hcells]
      res_le_max := hmax }
  contents_eq := by rwa [PodState.contents, PodState.cells_some hfirst hcells]
  apart := fun c cells hc => by
    obtain ⟨hheap, hne⟩ := hapart c cells hc
    refine ⟨hheap, ?_⟩
    rw [hfirst]
    exact fun hcb => hne (Option.some.inj hcb).symm

/-- A change to the block of the vector. -/
theorem PodState.Has.apart_update (h : s.Has sizeof rest l) {b : ℕ}
    (hb : s.heap b = none ∨ s.vec.first = some b) (cells : Option (List α)) :
    ∀ c cells', rest c = some cells' →
      Function.update s.heap b cells c = some cells' ∧ c ≠ b := by
  intro c cells' hc
  obtain ⟨hheap, hne⟩ := h.apart c cells' hc
  have hcb : c ≠ b := by
    rintro rfl
    obtain hnone | hfirst := hb
    · cases hnone.symm.trans hheap
    · exact hne hfirst
  exact ⟨by rwa [Function.update_of_ne hcb], hcb⟩

/-- One more block that is somewhere else. -/
theorem PodState.Has.insert (h : s.Has sizeof rest l) {b : ℕ} {cells : List α}
    (hne : s.vec.first ≠ some b) (hcells : s.heap b = some cells) :
    s.Has sizeof (Function.update rest b (some cells)) l := by
  refine ⟨h.wellFormed, h.contents_eq, ?_⟩
  intro c cells' hc
  by_cases hcb : c = b
  · rw [hcb] at hc ⊢
    rw [Function.update_self] at hc
    exact ⟨hcells.trans hc, hne⟩
  · rw [Function.update_of_ne hcb] at hc
    exact h.apart c cells' hc

/-! ## After `realloc` -/

theorem PodVector.mul_sizeof_lt {cap : ℕ} (hmax : cap ≤ PodVector.maxSize sizeof) :
    cap * sizeof < 2 ^ 64 := by
  have hle : cap * sizeof ≤ 2 ^ 64 - 1 :=
    Nat.le_trans (Nat.mul_le_mul_right sizeof hmax) (Nat.div_mul_le_self _ _)
  omega

theorem PodVector.sizeof_pos {cap : ℕ} (hpos : 0 < cap)
    (hmax : cap ≤ PodVector.maxSize sizeof) : 0 < sizeof := by
  by_contra hzero
  rw [Nat.eq_zero_of_not_pos hzero, PodVector.maxSize, Nat.div_zero] at hmax
  omega

/-- The heap without the block of the vector. -/
def PodState.freed (s : PodState α) : Heap α :=
  match s.vec.first with
  | some b => Function.update s.heap b none
  | none => s.heap

theorem PodState.freed_of_ne {b : ℕ} (h : s.vec.first ≠ some b) : s.freed b = s.heap b := by
  unfold PodState.freed
  cases hfirst : s.vec.first with
  | none => rfl
  | some b₀ =>
    have hne : b ≠ b₀ := fun heq => h (heq ▸ hfirst)
    exact Function.update_of_ne hne _ _

/-- The cells of a block after `realloc`. -/
def regrown (c : List α) (cap : ℕ) (fresh : ℕ → α) : List α :=
  c.take cap ++ (List.range (cap - c.length)).map fresh

theorem length_regrown (c : List α) (cap : ℕ) (fresh : ℕ → α) :
    (regrown c cap fresh).length = cap := by
  rw [regrown, List.length_append, List.length_take, List.length_map, List.length_range]
  omega

theorem take_regrown {c : List α} {n cap : ℕ} {fresh : ℕ → α} (hn : n ≤ c.length)
    (hcap : n ≤ cap) : (regrown c cap fresh).take n = c.take n := by
  have hle : n ≤ (c.take cap).length := by
    rw [List.length_take]
    omega
  rw [regrown, List.take_append_of_le_length hle, List.take_take, Nat.min_eq_left hcap]

theorem getElem?_regrown {c : List α} {n cap : ℕ} {fresh : ℕ → α} (hn : n < c.length)
    (hcap : n < cap) : (regrown c cap fresh)[n]? = (c)[n]? := by
  have hlt : n < (c.take cap).length := by
    rw [List.length_take]
    omega
  rw [regrown, List.getElem?_append_left hlt, List.getElem?_take, if_pos hcap]

theorem reallocBlock_some {cap : ℕ} (g : Grant α) (hpos : 0 < cap)
    (hmax : cap ≤ PodVector.maxSize sizeof) :
    reallocBlock sizeof s.heap s.vec.first cap (some g) =
      (some g.block, Function.update s.freed g.block (some (regrown s.cells cap g.fresh))) := by
  have hsizeof := PodVector.sizeof_pos hpos hmax
  have hbytes : cap * sizeof % 2 ^ 64 = cap * sizeof :=
    Nat.mod_eq_of_lt (PodVector.mul_sizeof_lt hmax)
  have hmul := Nat.mul_pos hpos hsizeof
  unfold reallocBlock
  dsimp only
  rw [hbytes, if_neg (fun hzero => Nat.ne_of_gt hmul hzero.1), Nat.mul_div_cancel cap hsizeof]
  rfl

theorem reallocBlock_none {cap : ℕ} (hpos : 0 < cap)
    (hmax : cap ≤ PodVector.maxSize sizeof) :
    reallocBlock sizeof s.heap s.vec.first cap none = (none, s.heap) := by
  have hmul := Nat.mul_pos hpos (PodVector.sizeof_pos hpos hmax)
  have hbytes : cap * sizeof % 2 ^ 64 = cap * sizeof :=
    Nat.mod_eq_of_lt (PodVector.mul_sizeof_lt hmax)
  unfold reallocBlock
  dsimp only
  rw [hbytes, if_neg (fun hzero => Nat.ne_of_gt hmul hzero.1)]

end

namespace PodVector

variable {sizeof : ℕ} {rest : Heap α} {s : PodState α} {l d : List α} {grant : Option (Grant α)}
  {E : PodError → PodState α → Prop} {n offset : ℕ}

/-! ## What the parts of the calls do -/

/-- A new size: the elements behind the old ones are whatever the cells hold. -/
theorem has_withSize (h : s.Has sizeof rest l) (hn : n ≤ s.vec.res) :
    (s.withSize n).Has sizeof rest (l.take n ++ (s.cells.take n).drop l.length) := by
  refine ⟨⟨h.wellFormed.owns, hn, h.wellFormed.res_le, h.wellFormed.res_le_max⟩, ?_, h.apart⟩
  have hfront : l.take n = (s.cells.take n).take l.length := by
    rw [← h.size_eq, ← h.contents_eq, PodState.contents, List.take_take, List.take_take,
      Nat.min_comm]
  rw [hfront]
  exact (List.take_append_drop l.length _).symm

theorem has_cleared (h : s.Has sizeof rest l) : (s.withSize 0).Has sizeof rest [] := by
  have hcleared := has_withSize h (Nat.zero_le _)
  rwa [List.take_zero, List.take_zero, List.drop_nil, List.append_nil] at hcleared

theorem wp_eos {Q : Unit → PodState α → Prop} (h : s.Has sizeof rest l) (hn : n ≤ s.vec.res)
    (hQ : ∀ t grown, grown.length = n - l.length → t.Has sizeof rest (l.take n ++ grown) →
      Q () t) : wp (eos n) Q E s := by
  have hroom := h.wellFormed.res_le
  refine hQ _ _ ?_ (has_withSize h hn)
  rw [List.length_drop, List.length_take]
  omega

/-- A copy over elements of the vector. -/
theorem wp_store {Q : Unit → PodState α → Prop} (h : s.Has sizeof rest l)
    (hd : offset + d.length ≤ l.length)
    (hQ : ∀ t, t.Has sizeof rest (overwrite l offset d) → Q () t) : wp (store offset d) Q E s := by
  have hlen := h.length_le
  have hroom := h.wellFormed.res_le
  obtain ⟨hfirst, hres⟩ | ⟨b, hfirst, hcells⟩ := h.block
  · have hd0 : d = [] := List.eq_nil_of_length_eq_zero (by omega)
    apply hQ
    simp only [hfirst]
    rwa [hd0, Memory.overwrite_nil]
  · apply hQ
    simp only [hfirst, hcells, Option.map_some]
    refine PodState.has_of_block hfirst (Function.update_self ..) h.wellFormed.size_le ?_
      h.wellFormed.res_le_max ?_ (h.apart_update (.inr hfirst) _)
    · rwa [Memory.length_overwrite (by omega)]
    · rw [Memory.take_overwrite_of_ge (by rw [h.size_eq]; exact hd) (by rw [h.size_eq]; omega)]
      exact congrArg (fun l => overwrite l offset d) h.contents_eq

/-- `_Reallocate` keeps the elements for which there is room, and throws when there is no block. -/
theorem wp_reallocate_take {policy : ReallocationPolicy} {size cap : ℕ}
    {Q : Unit → PodState α → Prop} (h : s.Has sizeof rest l) (hgrant : Grant.Valid grant s)
    (hcap : newCapacity sizeof s.vec size policy = cap) (hpos : 0 < cap)
    (hmax : cap ≤ maxSize sizeof) (hE : grant = none → E .badAlloc s)
    (hQ : ∀ t, (t.withSize (min l.length cap)).Has sizeof rest (l.take cap) → t.vec.res = cap →
      t.vec.size = l.length → Q () t) :
    wp (reallocate sizeof (buffer sizeof grant) policy size) Q E s := by
  rw [reallocate_buffer, wp_bind, wp_get, hcap]
  dsimp only
  cases grant with
  | none =>
    rw [reallocBlock_none hpos hmax]
    exact hE rfl
  | some g =>
    have hroom := h.wellFormed.res_le
    have hlen := h.length_le
    rw [reallocBlock_some g hpos hmax]
    apply hQ
    · refine PodState.has_of_block rfl (Function.update_self ..) (Nat.min_le_right _ _) ?_ hmax
        ?_ ?_
      · exact (length_regrown ..).ge
      · have htake : s.cells.take l.length = l := by
          rw [← h.size_eq]
          exact h.contents_eq
        change (regrown s.cells cap g.fresh).take (min l.length cap) = l.take cap
        rw [take_regrown (by omega) (Nat.min_le_right _ _), Nat.min_comm, ← List.take_take, htake]
      · -- The blocks of the others are neither the old block nor the new one.
        intro c cells hc
        obtain ⟨hheap, hne⟩ := h.apart c cells hc
        obtain ⟨-, hblock⟩ := h.apart_update (hgrant g rfl) none c cells hc
        refine ⟨(Function.update_of_ne hblock _ _).trans ?_, hblock⟩
        rwa [PodState.freed_of_ne hne]
    · rfl
    · exact h.size_eq

/-- `_Reallocate` to a capacity for all elements. -/
theorem wp_reallocate {policy : ReallocationPolicy} {size cap : ℕ} {Q : Unit → PodState α → Prop}
    (h : s.Has sizeof rest l) (hgrant : Grant.Valid grant s)
    (hcap : newCapacity sizeof s.vec size policy = cap) (hlen : l.length ≤ cap) (hpos : 0 < cap)
    (hmax : cap ≤ maxSize sizeof) (hE : grant = none → E .badAlloc s)
    (hQ : ∀ t, t.Has sizeof rest l → t.vec.res = cap → Q () t) :
    wp (reallocate sizeof (buffer sizeof grant) policy size) Q E s := by
  apply wp_reallocate_take h hgrant hcap hpos hmax hE
  intro t ht hres hsize
  rw [List.take_of_length_le hlen, Nat.min_eq_left hlen, ← hsize] at ht
  exact hQ t ht hres

/-! ## Growing -/

theorem le_calculateGrowth {oldCap newSize : ℕ} (hmax : newSize ≤ maxSize sizeof) :
    newSize ≤ calculateGrowth sizeof oldCap newSize := by
  unfold calculateGrowth
  split
  · exact hmax
  · dsimp only
    split <;> omega

theorem calculateGrowth_le {oldCap newSize : ℕ} (hold : oldCap ≤ maxSize sizeof)
    (hmax : newSize ≤ maxSize sizeof) : calculateGrowth sizeof oldCap newSize ≤ maxSize sizeof := by
  have hlimit : maxSize sizeof ≤ 2 ^ 64 - 1 := Nat.div_le_self _ _
  unfold calculateGrowth sizeT
  split
  · exact Nat.le_refl _
  · dsimp only
    split <;> omega

theorem wp_resizeReallocate {policy : ReallocationPolicy} {Q : Unit → PodState α → Prop}
    (h : s.Has sizeof rest l) (hgrant : Grant.Valid grant s) (hlen : l.length ≤ n) (hpos : 0 < n)
    (hmax : n ≤ maxSize sizeof) (hE : grant = none → E .badAlloc s)
    (hQ : ∀ t grown, grown.length = n - l.length → t.Has sizeof rest (l ++ grown) → Q () t) :
    wp (resizeReallocate sizeof (buffer sizeof grant) policy n) Q E s := by
  have hres := h.wellFormed.res_le_max
  have hcap : n ≤ newCapacity sizeof s.vec n policy ∧
      newCapacity sizeof s.vec n policy ≤ maxSize sizeof := by
    cases policy with
    | exactly => exact ⟨Nat.le_refl n, hmax⟩
    | atLeast => exact ⟨le_calculateGrowth hmax, calculateGrowth_le hres hmax⟩
  unfold resizeReallocate
  rw [wp_bind]
  apply wp_reallocate h hgrant rfl (by omega) (by omega) hcap.2 hE
  intro t ht htres
  apply wp_eos ht (by omega)
  intro u grown hgrown hu
  rw [List.take_of_length_le hlen] at hu
  exact hQ u grown hgrown hu

/-- The elements up to a new size, and room behind them. -/
theorem wp_grow {policy : ReallocationPolicy} {Q : Unit → PodState α → Prop}
    (h : s.Has sizeof rest l) (hgrant : Grant.Valid grant s) (hmax : n ≤ maxSize sizeof)
    (hE : grant = none → E .badAlloc s)
    (hQ : ∀ t grown, grown.length = n - l.length → t.Has sizeof rest (l.take n ++ grown) →
      Q () t) :
    wp (if s.vec.res < n then resizeReallocate sizeof (buffer sizeof grant) policy n else eos n)
      Q E s := by
  have hlen := h.length_le
  split
  · next hgrow =>
    apply wp_resizeReallocate h hgrant (by omega) (by omega) hmax hE
    intro t grown hgrown ht
    rw [← List.take_of_length_le (i := n) (l := l) (by omega)] at ht
    exact hQ t grown hgrown ht
  · next hroom =>
    apply wp_eos h (by omega)
    intro t grown hgrown ht
    exact hQ t grown hgrown ht

theorem wp_resize {Q : Unit → PodState α → Prop} (h : s.Has sizeof rest l)
    (hgrant : Grant.Valid grant s) (hmax : n ≤ maxSize sizeof) (hE : grant = none → E .badAlloc s)
    (hQ : ∀ t grown, grown.length = n - l.length → t.Has sizeof rest (l.take n ++ grown) →
      Q () t) : wp (resize sizeof (buffer sizeof grant) n) Q E s := by
  unfold resize
  rw [wp_bind, wp_get]
  exact wp_grow h hgrant hmax hE hQ

theorem wp_expand {count : ℕ} {Q : Unit → PodState α → Prop} (h : s.Has sizeof rest l)
    (hgrant : Grant.Valid grant s) (hmax : l.length + count ≤ maxSize sizeof)
    (hE : grant = none → E .badAlloc s)
    (hQ : ∀ t grown, grown.length = count → t.Has sizeof rest (l ++ grown) → Q () t) :
    wp (expand sizeof (buffer sizeof grant) count) Q E s := by
  have hlimit : maxSize sizeof ≤ 2 ^ 64 - 1 := Nat.div_le_self _ _
  have hnew : sizeT (s.vec.size + count : ℕ) = l.length + count := by
    rw [h.size_eq]
    unfold sizeT
    omega
  unfold expand
  rw [wp_bind, wp_get]
  dsimp only
  rw [hnew]
  apply wp_grow h hgrant hmax hE
  intro t grown hgrown ht
  rw [List.take_of_length_le (by omega)] at ht
  exact hQ t grown (by omega) ht

/-! ## The calls -/

section

variable {a b z : List α} {val : α} {count : ℕ}

/-- A copy over elements between two others. -/
theorem wp_store_between {Q : Unit → PodState α → Prop} (h : s.Has sizeof rest (a ++ z ++ b))
    (hoffset : offset = a.length) (hz : z.length = d.length)
    (hQ : ∀ t, t.Has sizeof rest (a ++ d ++ b) → Q () t) : wp (store offset d) Q E s := by
  apply wp_store h
  · rw [List.length_append, List.length_append]
    omega
  · rw [hoffset, Memory.overwrite_between hz]
    exact hQ

/-- A copy over the last elements. -/
theorem wp_store_last {Q : Unit → PodState α → Prop} (h : s.Has sizeof rest (a ++ z))
    (hoffset : offset = a.length) (hz : z.length = d.length)
    (hQ : ∀ t, t.Has sizeof rest (a ++ d) → Q () t) : wp (store offset d) Q E s := by
  rw [← List.append_nil (a ++ z)] at h
  apply wp_store_between h hoffset hz
  rw [List.append_nil]
  exact hQ

theorem wp_emplaceBack {Q : Unit → PodState α → Prop} (h : s.Has sizeof rest l)
    (hgrant : Grant.Valid grant s) (hmax : l.length + 1 ≤ maxSize sizeof)
    (hE : grant = none → E .badAlloc s)
    (hQ : ∀ t, t.Has sizeof rest (l ++ [val]) → Q () t) :
    wp (emplaceBack sizeof (buffer sizeof grant) val) Q E s := by
  have hsize := h.size_eq
  unfold emplaceBack
  rw [wp_bind, wp_get]
  split
  · next hroom =>
    rw [wp_bind]
    apply wp_eos h hroom
    intro t grown hgrown ht
    rw [List.take_of_length_le (by omega)] at ht
    apply wp_store_last ht hsize _ hQ
    rw [hgrown, hsize]
    exact Nat.add_sub_cancel_left _ 1
  · unfold emplaceBackReallocate
    rw [wp_bind, wp_get]
    dsimp only
    rw [if_neg (by omega), wp_bind]
    apply wp_resizeReallocate h hgrant (by omega) (Nat.succ_pos _) (by omega) hE
    intro t grown hgrown ht
    apply wp_store_last ht hsize _ hQ
    rw [hgrown, hsize]
    exact Nat.add_sub_cancel_left _ 1

/-- Growth, and a copy behind the old elements. -/
theorem wp_expand_store {Q : Unit → PodState α → Prop} (h : s.Has sizeof rest l)
    (hgrant : Grant.Valid grant s) (hmax : l.length + d.length ≤ maxSize sizeof)
    (hE : grant = none → E .badAlloc s)
    (hQ : ∀ t, t.Has sizeof rest (l ++ d) → Q () t) :
    wp (do
      let oldSize := (← get).vec.size
      expand sizeof (buffer sizeof grant) d.length
      store oldSize d) Q E s := by
  rw [wp_bind, wp_get, wp_bind]
  apply wp_expand h hgrant hmax hE
  intro t grown hgrown ht
  exact wp_store_last ht h.size_eq hgrown hQ

theorem wp_append {Q : Unit → PodState α → Prop} (h : s.Has sizeof rest l)
    (hgrant : Grant.Valid grant s) (hmax : l.length + d.length ≤ maxSize sizeof)
    (hE : grant = none → E .badAlloc s)
    (hQ : ∀ t, t.Has sizeof rest (l ++ d) → Q () t) :
    wp (append sizeof (buffer sizeof grant) d) Q E s := by
  match d with
  | [] =>
    apply hQ
    rwa [List.append_nil]
  | [val] => exact wp_emplaceBack h hgrant hmax hE hQ
  | x :: y :: d =>
    rw [append_buffer]
    exact wp_expand_store h hgrant hmax hE hQ

theorem wp_expandFill {Q : Unit → PodState α → Prop} (h : s.Has sizeof rest l)
    (hgrant : Grant.Valid grant s) (hmax : l.length + count ≤ maxSize sizeof)
    (hE : grant = none → E .badAlloc s)
    (hQ : ∀ t, t.Has sizeof rest (l ++ List.replicate count val) → Q () t) :
    wp (expandFill sizeof (buffer sizeof grant) count val) Q E s := by
  unfold expandFill
  split
  · have hlen : (List.replicate count val).length = count := List.length_replicate
    have hstored := wp_expand_store (d := List.replicate count val) h hgrant (by rwa [hlen]) hE hQ
    rwa [hlen] at hstored
  · next hcount =>
    apply hQ
    rwa [not_not.1 hcount, List.replicate_zero, List.append_nil]

theorem load_eq (h : s.Has sizeof rest l) (hn : offset + n ≤ l.length) :
    load s offset n = (l.drop offset).take n := by
  rw [← h.contents_eq, PodState.contents, List.drop_take, List.take_take,
    Nat.min_eq_left (by rw [h.size_eq]; omega)]
  rfl

theorem wp_copyWithin {Q : Unit → PodState α → Prop} {source target : ℕ}
    (h : s.Has sizeof rest l) (hsource : source + n ≤ l.length) (htarget : target + n ≤ l.length)
    (hQ : ∀ t, t.Has sizeof rest (overwrite l target ((l.drop source).take n)) → Q () t) :
    wp (copyWithin source n target) Q E s := by
  unfold copyWithin
  rw [wp_bind, wp_get, load_eq h hsource]
  apply wp_store h _ hQ
  rw [List.length_take, List.length_drop]
  omega

/-- Room for `count` elements at an offset. -/
theorem wp_openGap {Q : Unit → PodState α → Prop} (h : s.Has sizeof rest l)
    (hgrant : Grant.Valid grant s) (hoffset : offset ≤ l.length)
    (hmax : l.length + count ≤ maxSize sizeof) (hE : grant = none → E .badAlloc s)
    (hQ : ∀ t gap, gap.length = count → t.Has sizeof rest (l.take offset ++ gap ++ l.drop offset) →
      Q () t) : wp (openGap sizeof (buffer sizeof grant) offset count) Q E s := by
  unfold openGap
  rw [wp_bind]
  apply wp_expand h hgrant hmax hE
  intro t grown hgrown ht
  have hsize : t.vec.size = l.length + count := by
    rw [ht.size_eq, List.length_append, hgrown]
  rw [wp_bind, wp_get, hsize]
  apply wp_copyWithin ht
  · rw [List.length_append]
    omega
  · rw [List.length_append]
    omega
  intro u hu
  -- The copy moves just the elements behind the offset, over those that were added.
  have hmoved : ((l ++ grown).drop offset).take (l.length + count - (offset + count)) =
      l.drop offset := by
    have htail : (l.drop offset).length = l.length + count - (offset + count) := by
      rw [List.length_drop]
      omega
    rw [List.drop_append_of_le_length hoffset, ← htail, List.take_left]
  have hfront : (l ++ grown).take (offset + count) =
      l.take offset ++ ((l ++ grown).drop offset).take count := by
    rw [List.take_add, List.take_append_of_le_length hoffset]
  rw [hmoved, Memory.overwrite_end, hfront] at hu
  · refine hQ u _ ?_ hu
    rw [List.length_take, List.length_drop, List.length_append]
    omega
  · rw [List.length_drop, List.length_append]
    omega

/-- Elements put at an offset. -/
theorem wp_openGap_store {Q : Unit → PodState α → Prop} (h : s.Has sizeof rest l)
    (hgrant : Grant.Valid grant s) (hoffset : offset ≤ l.length)
    (hmax : l.length + d.length ≤ maxSize sizeof) (hE : grant = none → E .badAlloc s)
    (hQ : ∀ t, t.Has sizeof rest (l.take offset ++ d ++ l.drop offset) → Q () t) :
    wp (openGap sizeof (buffer sizeof grant) offset d.length)
      (fun _ => wp (store offset d) Q E) E s := by
  apply wp_openGap h hgrant hoffset hmax hE
  intro t gap hgap ht
  exact wp_store_between ht (by rw [List.length_take, Nat.min_eq_left hoffset]) hgap hQ

theorem wp_verifyRange {cond : Prop} [Decidable cond] {Q : Unit → PodState α → Prop}
    (hcond : cond) (hQ : Q () s) : wp (verifyRange cond) Q E s := by
  unfold verifyRange
  rwa [if_pos hcond]

/-- Elements put at the end. -/
theorem insert_end {pos : Int} (hpos : pos = l.length) :
    l.take pos.toNat ++ d ++ l.drop pos.toNat = l ++ d := by
  rw [hpos, Int.toNat_natCast, List.take_length, List.drop_length, List.append_nil]

theorem wp_insertRange {pos : Int} {Q : ℕ → PodState α → Prop} (h : s.Has sizeof rest l)
    (hgrant : Grant.Valid grant s) (hpos : 0 ≤ pos ∧ pos ≤ l.length)
    (hmax : l.length + d.length ≤ maxSize sizeof) (hE : grant = none → E .badAlloc s)
    (hQ : ∀ t, t.Has sizeof rest (l.take pos.toNat ++ d ++ l.drop pos.toNat) → Q pos.toNat t) :
    wp (insertRange sizeof (buffer sizeof grant) pos (some d)) Q E s := by
  have hoffset : pos.toNat ≤ l.length := by omega
  rw [insertRange_buffer, wp_bind, wp_get, wp_bind, h.size_eq]
  apply wp_verifyRange ⟨hpos.1, hpos.2, rfl⟩
  dsimp only [Option.getD_some]
  by_cases hd : d = []
  · rw [if_neg (not_not.2 hd), wp_pure]
    apply hQ
    rwa [hd, List.append_nil, List.take_append_drop]
  · rw [if_pos hd]
    split
    · next hend =>
      rw [wp_bind]
      apply wp_append h hgrant hmax hE
      rw [← insert_end hend]
      exact hQ
    · simp only [wp_bind, wp_pure]
      exact wp_openGap_store h hgrant hoffset hmax hE hQ

theorem wp_insertFill {pos : Int} {Q : ℕ → PodState α → Prop} (h : s.Has sizeof rest l)
    (hgrant : Grant.Valid grant s) (hpos : 0 ≤ pos ∧ pos ≤ l.length)
    (hmax : l.length + count ≤ maxSize sizeof) (hE : grant = none → E .badAlloc s)
    (hQ : ∀ t, t.Has sizeof rest (l.take pos.toNat ++ List.replicate count val ++
      l.drop pos.toNat) → Q pos.toNat t) :
    wp (insertFill sizeof (buffer sizeof grant) pos count val) Q E s := by
  have hoffset : pos.toNat ≤ l.length := by omega
  have hlen : (List.replicate count val).length = count := List.length_replicate
  unfold insertFill
  rw [wp_bind, wp_get, wp_bind, h.size_eq]
  apply wp_verifyRange hpos
  by_cases hcount : count = 0
  · rw [if_neg (not_not.2 hcount), wp_pure]
    apply hQ
    rwa [hcount, List.replicate_zero, List.append_nil, List.take_append_drop]
  · rw [if_pos hcount]
    split
    · next hend =>
      rw [wp_bind]
      apply wp_expandFill h hgrant hmax hE
      rw [← insert_end hend]
      exact hQ
    · simp only [wp_bind, wp_pure]
      have hput := wp_openGap_store (d := List.replicate count val) (Q := fun _ => Q pos.toNat) h
        hgrant hoffset (by rwa [hlen]) hE hQ
      rwa [hlen] at hput

/-- `std::rotate` of the last element. -/
theorem wp_rotateLast {Q : Unit → PodState α → Prop} (h : s.Has sizeof rest (l ++ [val]))
    (hoffset : offset ≤ l.length)
    (hQ : ∀ t, t.Has sizeof rest (l.take offset ++ [val] ++ l.drop offset) → Q () t) :
    wp (rotateLast offset) Q E s := by
  have hlen : (l ++ [val]).length = l.length + 1 := List.length_append
  have hdrop : (l.drop offset).length = l.length - offset := List.length_drop
  have hlast : load s l.length 1 = [val] := by
    rw [load_eq h (Nat.le_of_eq hlen.symm), List.drop_left]
    rfl
  have hmoved : load s offset (l.length - offset) = l.drop offset := by
    rw [load_eq h (by omega), List.drop_append_of_le_length hoffset,
      List.take_append_of_le_length (Nat.le_of_eq hdrop.symm),
      List.take_of_length_le (Nat.le_of_eq hdrop)]
  unfold rotateLast
  rw [wp_bind, wp_get, h.size_eq, hlen, Nat.add_sub_cancel, hlast, hmoved]
  have hend : offset + ([val] ++ l.drop offset).length = (l ++ [val]).length := by
    rw [hlen, List.length_append, List.length_drop, List.length_singleton]
    omega
  apply wp_store h (Nat.le_of_eq hend)
  rw [Memory.overwrite_end hend, List.take_append_of_le_length hoffset, ← List.append_assoc]
  exact hQ

theorem wp_emplace {cxx20 : Bool} {pos : Int} {Q : ℕ → PodState α → Prop}
    (h : s.Has sizeof rest l) (hgrant : Grant.Valid grant s) (hpos : 0 ≤ pos ∧ pos ≤ l.length)
    (hmax : l.length + 1 ≤ maxSize sizeof) (hE : grant = none → E .badAlloc s)
    (hQ : ∀ t, t.Has sizeof rest (l.take pos.toNat ++ [val] ++ l.drop pos.toNat) →
      Q pos.toNat t) : wp (emplace sizeof (buffer sizeof grant) cxx20 pos val) Q E s := by
  have hoffset : pos.toNat ≤ l.length := by omega
  unfold emplace
  rw [wp_bind, wp_get, wp_bind, h.size_eq]
  apply wp_verifyRange hpos
  cases cxx20 with
  | true =>
    simp only [if_true, wp_bind, wp_pure]
    apply wp_emplaceBack h hgrant hmax hE
    intro t ht
    exact wp_rotateLast ht hoffset hQ
  | false =>
    simp only [Bool.false_eq_true, if_false]
    split
    · next hend =>
      rw [wp_bind]
      apply wp_emplaceBack h hgrant hmax hE
      rw [← insert_end hend]
      exact hQ
    · simp only [wp_bind, wp_pure]
      refine wp_openGap_store (d := [val]) (Q := fun _ => Q pos.toNat) h hgrant hoffset hmax hE hQ

/-- The elements from `target` up to `source` go. -/
theorem wp_close {source target : ℕ} {Q : Unit → PodState α → Prop} (h : s.Has sizeof rest l)
    (hle : target ≤ source) (hsource : source ≤ l.length)
    (hQ : ∀ t, t.Has sizeof rest (l.take target ++ l.drop source) → Q () t) :
    wp (copyWithin source (l.length - source) target)
      (fun _ => wp (eos (target + (l.length - source))) Q E) E s := by
  have htail : (l.drop source).length = l.length - source := List.length_drop
  apply wp_copyWithin h (by omega) (by omega)
  intro t ht
  rw [List.take_of_length_le (Nat.le_of_eq htail)] at ht
  have hlen : (overwrite l target (l.drop source)).length = l.length :=
    Memory.length_overwrite (by omega)
  have hres := ht.length_le
  apply wp_eos ht (by omega)
  intro u grown hgrown hu
  -- `_Eos` cuts off what the copy has left behind the tail.
  have hnil : grown = [] := List.eq_nil_of_length_eq_zero (by omega)
  rw [← htail, Memory.take_overwrite (by omega), hnil, List.append_nil] at hu
  exact hQ u hu

theorem wp_eraseRange {first last : Int} {Q : ℕ → PodState α → Prop}
    (h : s.Has sizeof rest l) (hrange : first ≤ last ∧ 0 ≤ first ∧ last ≤ l.length)
    (hQ : ∀ t, t.Has sizeof rest (l.take first.toNat ++ l.drop last.toNat) → Q first.toNat t) :
    wp (eraseRange first last) Q E s := by
  have hle : first.toNat ≤ last.toNat := by omega
  have hlast : last.toNat ≤ l.length := by omega
  unfold eraseRange
  rw [wp_bind, wp_get, wp_bind, h.size_eq]
  apply wp_verifyRange hrange
  simp only [wp_bind, wp_pure]
  exact wp_close h hle hlast hQ

theorem wp_erase {pos : Int} {Q : ℕ → PodState α → Prop} (h : s.Has sizeof rest l)
    (hpos : 0 ≤ pos ∧ pos < l.length)
    (hQ : ∀ t, t.Has sizeof rest (l.eraseIdx pos.toNat) → Q pos.toNat t) :
    wp (erase pos) Q E s := by
  have hnext : pos.toNat + 1 ≤ l.length := by omega
  unfold erase
  rw [wp_bind, wp_get, wp_bind, h.size_eq]
  apply wp_verifyRange hpos
  simp only [wp_bind, wp_pure]
  apply wp_close h (Nat.le_succ _) hnext
  rw [← List.eraseIdx_eq_take_drop_succ]
  exact hQ

theorem wp_resizeFill {Q : Unit → PodState α → Prop} (h : s.Has sizeof rest l)
    (hgrant : Grant.Valid grant s) (hmax : n ≤ maxSize sizeof) (hE : grant = none → E .badAlloc s)
    (hQ : ∀ t, t.Has sizeof rest (l.take n ++ List.replicate (n - l.length) val) → Q () t) :
    wp (resizeFill sizeof (buffer sizeof grant) n val) Q E s := by
  unfold resizeFill
  rw [wp_bind, wp_get, h.size_eq]
  dsimp only
  split
  · rw [wp_bind]
    apply wp_resize h hgrant hmax hE
    intro t grown hgrown ht
    split
    · next hgrow =>
      rw [List.take_of_length_le (by omega)] at ht hQ
      exact wp_store_last ht rfl (by rw [hgrown, List.length_replicate]) hQ
    · next hshrink =>
      have hnil : grown = [] := List.eq_nil_of_length_eq_zero (by omega)
      apply hQ
      rw [hnil] at ht
      rwa [Nat.sub_eq_zero_of_le (by omega), List.replicate_zero]
  · next hsame =>
    apply hQ
    rw [← not_not.1 hsame, List.take_length, Nat.sub_self, List.replicate_zero, List.append_nil]
    exact h

theorem wp_reserve {Q : Unit → PodState α → Prop} (h : s.Has sizeof rest l)
    (hgrant : Grant.Valid grant s) (hmax : n ≤ maxSize sizeof) (hE : grant = none → E .badAlloc s)
    (hQ : ∀ t, t.Has sizeof rest l → Q () t) :
    wp (reserve sizeof (buffer sizeof grant) n) Q E s := by
  have hlen := h.length_le
  unfold reserve
  rw [wp_bind, wp_get]
  split
  · next hgrow =>
    have hcap : newCapacity sizeof s.vec n .exactly = n := rfl
    apply wp_reallocate h hgrant hcap (by omega) (by omega) hmax hE
    exact fun t ht _ => hQ t ht
  · exact hQ s h

/-- `_Tidy` makes the vector empty. -/
theorem wp_tidy {Q : Unit → PodState α → Prop} (h : s.Has sizeof rest l)
    (hQ : ∀ t, t.Has sizeof rest [] → t.vec = {} → Q () t) : wp tidy Q E s := by
  have hlen := h.length_le
  have hsize := h.size_eq
  unfold tidy
  rw [wp_modify]
  obtain ⟨hfirst, hres⟩ | ⟨b, hfirst, -⟩ := h.block
  · have hnil : l = [] := List.eq_nil_of_length_eq_zero (by omega)
    have hvec : s.vec = {} := by
      rw [hnil] at hsize
      exact PodVector.ext hfirst hsize hres
    apply hQ
    · simp only [hfirst]
      rwa [hnil] at h
    · simp only [hfirst]
      exact hvec
  · apply hQ
    · simp only [hfirst]
      refine ⟨⟨nofun, Nat.le_refl _, Nat.zero_le _, Nat.zero_le _⟩, rfl, ?_⟩
      intro c cells hc
      exact ⟨(h.apart_update (.inr hfirst) none c cells hc).1, nofun⟩
    · simp only [hfirst]

theorem wp_shrinkToFit {Q : Unit → PodState α → Prop} (h : s.Has sizeof rest l)
    (hgrant : Grant.Valid grant s) (hE : grant = none → E .badAlloc s)
    (hQ : ∀ t, t.Has sizeof rest l → Q () t) :
    wp (shrinkToFit sizeof (buffer sizeof grant)) Q E s := by
  have hlen := h.length_le
  have hmax := h.wellFormed.res_le_max
  unfold shrinkToFit
  rw [wp_bind, wp_get, h.size_eq]
  split
  · split
    · next hzero =>
      apply wp_tidy h
      rw [List.eq_nil_of_length_eq_zero hzero] at hQ
      exact fun t ht _ => hQ t ht
    · have hcap : newCapacity sizeof s.vec l.length .exactly = l.length := rfl
      apply wp_reallocate h hgrant hcap (by omega) (by omega) (by omega) hE
      exact fun t ht _ => hQ t ht
  · exact hQ s h

/-- Where the size is set last, it does not matter before. -/
theorem exec_store_eos (t : PodState α) (k : ℕ) :
    Throwing.exec (store 0 d >>= fun _ => eos n) t =
      Throwing.exec (store 0 d >>= fun _ => eos n) (t.withSize k) := by
  obtain ⟨⟨first, size, res⟩, heap⟩ := t
  cases first <;> rfl

theorem wp_resizeAndOverwrite {Q : Unit → PodState α → Prop} (h : s.Has sizeof rest l)
    (hgrant : Grant.Valid grant s) (hd : d.length ≤ n) (hpos : 0 < n)
    (hmax : n ≤ maxSize sizeof) (hE : grant = none → E .badAlloc s)
    (hQ : ∀ t, t.Has sizeof rest d → Q () t) :
    wp (resizeAndOverwrite sizeof (buffer sizeof grant) n d) Q E s := by
  rw [resizeAndOverwrite_buffer, wp_bind]
  have hcap : newCapacity sizeof s.vec n .exactly = n := rfl
  apply wp_reallocate_take h hgrant hcap hpos hmax hE
  intro t ht hres _
  -- After a smaller capacity `_Mysize` may exceed it; taken to be `n`, the vector is well formed.
  obtain ⟨full, hfull⟩ : ∃ full, (t.withSize n).Has sizeof rest full :=
    ⟨_, has_withSize (s := t.withSize (min l.length n)) ht (Nat.le_of_eq hres.symm)⟩
  have hsize : n = full.length := hfull.size_eq
  unfold wp
  rw [exec_store_eos t n]
  change wp (store 0 d >>= fun _ => eos d.length) Q E (t.withSize n)
  rw [wp_bind]
  apply wp_store hfull (by omega)
  intro u hu
  have hlen : (overwrite full 0 d).length = full.length := Memory.length_overwrite (by omega)
  have hroom := hu.length_le
  apply wp_eos hu (by omega)
  intro v grown hgrown hv
  have hnil : grown = [] := List.eq_nil_of_length_eq_zero (by omega)
  have hfront := Memory.take_overwrite (d := d) (Nat.zero_le full.length)
  rw [Nat.zero_add, List.take_zero, List.nil_append] at hfront
  rw [hnil, hfront, List.append_nil] at hv
  exact hQ v hv

/-- `assign` throws with the vector cleared. -/
theorem wp_assign {Q : Unit → PodState α → Prop} (h : s.Has sizeof rest l)
    (hgrant : Grant.Valid grant s) (hmax : d.length ≤ maxSize sizeof)
    (hE : grant = none → ∀ t, t.Has sizeof rest [] → E .badAlloc t)
    (hQ : ∀ t, t.Has sizeof rest d → Q () t) :
    wp (assign sizeof (buffer sizeof grant) d) Q E s := by
  have hcleared := has_cleared h
  rw [assign_buffer, wp_bind]
  change wp (if d ≠ [] then _ else _) Q E (s.withSize 0)
  split
  · rw [wp_bind]
    apply wp_resize hcleared hgrant hmax fun hnone => hE hnone _ hcleared
    intro t grown hgrown ht
    rw [List.take_nil] at ht
    exact wp_store_last ht rfl hgrown hQ
  · next hd =>
    apply hQ
    rwa [not_not.1 hd]

end

end PodVector

end Yasio
