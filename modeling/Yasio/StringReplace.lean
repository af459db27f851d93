import Yasio.StringBlocks

/-!
# `replace`

Whether a call of `replace` stays inside the block, and what it makes of the sizes, depends on the
sizes alone.  When it fits, the string is spliced.
-/

namespace Yasio

open Throwing (wp wp_pure wp_bind wp_get wp_set)
open Memory (overwrite)
open PodVector (sizeT maxSize calculateGrowth)
open BasicString (loaded shiftedAfter)

/-- The size, the capacity and the number of cells of the block. -/
@[ext]
structure StringShape where
  size : ℕ
  res : ℕ
  cells : ℕ
  deriving DecidableEq, Repr

def StringState.shape {α : Type} (s : StringState α) : StringShape :=
  ⟨s.vec.size, s.vec.res, s.cells.length⟩

section

variable {α : Type} (s : StringState α)

@[simp] theorem StringState.shape_size : s.shape.size = s.vec.size := rfl

@[simp] theorem StringState.shape_res : s.shape.res = s.vec.res := rfl

@[simp] theorem StringState.shape_cells : s.shape.cells = s.cells.length := rfl

end

namespace StringShape

variable {α : Type} (sizeof : ℕ) (w : StringShape) (off nx : ℕ)

/-- How many characters `replace` takes out. -/
def taken : ℕ := min nx (w.size - off)

def growth (count : ℕ) : ℕ := count - w.taken off nx

/-- The offset is out of range, or the text too long. -/
def Throws (count : ℕ) : Prop :=
  w.size ≤ off ∨ w.res - w.size < w.growth off nx count ∧
    maxSize sizeof < w.size + w.growth off nx count

/-- A call of `replace` returns and does only what is allowed. -/
structure Fits (allowed : Set StringFault) (granted : Prop) (text : StringText α) : Prop where
  off_lt : off < w.size
  /-- The terminator is moved too. -/
  shrinks : text.length < w.taken off nx → .strayRead ∈ allowed ∨ w.size < w.cells
  grows_in_place : w.taken off nx < text.length →
    w.growth off nx text.length ≤ w.res - w.size →
      w.size + w.growth off nx text.length < w.cells ∧
        shiftedAfter w.size off (w.taken off nx) text ≤ text.length
  reallocates : w.res - w.size < w.growth off nx text.length →
    w.size + w.growth off nx text.length ≤ maxSize sizeof ∧
      calculateGrowth sizeof w.res (w.size + w.growth off nx text.length) + 1 ≤ maxSize sizeof ∧
      granted ∧
      -- The suffix is copied within one block.
      (.overlap ∈ allowed ∨ w.size - w.taken off nx - off + 1 ≤ w.growth off nx text.length)

/-- The sizes after `replace`. -/
def replaced (count : ℕ) : StringShape :=
  let size := w.size - w.taken off nx + count
  if w.res - w.size < w.growth off nx count then
    let cap := calculateGrowth sizeof w.res size
    ⟨size, cap, cap + 1⟩
  else ⟨size, w.res, w.cells⟩

end StringShape

/-- `d` in the place of the `nx` elements from `off` on. -/
def splice {α : Type} (l : List α) (off nx : ℕ) (d : List α) : List α :=
  l.take off ++ d ++ l.drop (off + nx)

section

variable {α : Type} {rest : Heap α} {allowed : Set StringFault} {s t : StringState α}
  {v : PodVector} {c d l tail : List α} {E : PodError → StringState α → Prop}
  {sizeof off nx n : ℕ} {ends : Prop} {text : StringText α}

theorem splice_min (h : off ≤ l.length) :
    splice l off (min nx (l.length - off)) d = splice l off nx d := by
  unfold splice
  by_cases hnx : nx ≤ l.length - off
  · rw [Nat.min_eq_left hnx]
  · rw [Nat.min_eq_right (by omega), List.drop_eq_nil_of_le (by omega),
      List.drop_eq_nil_of_le (by omega)]

/-- A text over a gap of its length. -/
theorem overwrite_splice {gap : List α} (hgap : gap.length = d.length) (hoff : off ≤ l.length) :
    overwrite (splice l off nx gap) off d = splice l off nx d := by
  have hfront : (l.take off).length = off := by
    rw [List.length_take, Nat.min_eq_left hoff]
  have hbetween := Memory.overwrite_between (a := l.take off) (b := l.drop (off + nx)) hgap
  rwa [hfront] at hbetween

variable [Zero α]

/-! ## The cells of a spliced string -/

/-- The characters in front of the offset, the text, and the suffix with its terminator. -/
def splicedCells (c : List α) (n off nx : ℕ) (d tail : List α) : List α :=
  c.take off ++ d ++ loaded c (off + nx) (n - nx - off + 1) ++ tail

theorem take_splicedCells (hoff : off + nx ≤ n) (hn : n ≤ c.length) :
    (splicedCells c n off nx d tail).take (n - nx + d.length) = splice (c.take n) off nx d := by
  have hlen : (c.take off ++ d).length = off + d.length := by
    rw [List.length_append, List.length_take]
    omega
  have hsplit : n - nx + d.length = (c.take off ++ d).length + (n - nx - off) := by omega
  have hle : n - nx - off ≤ (loaded c (off + nx) (n - nx - off + 1)).length := by
    rw [BasicString.length_loaded]
    omega
  unfold splicedCells splice
  rw [List.append_assoc, hsplit, List.take_length_add_append, List.take_append_of_le_length hle,
    BasicString.take_loaded (by omega) (by omega), List.take_take, Nat.min_eq_left (by omega),
    List.drop_take]
  congr 2
  omega

theorem getElem?_splicedCells (hoff : off + nx ≤ n) (hn : n < c.length) :
    (splicedCells c n off nx d tail)[n - nx + d.length]? = (c)[n]? := by
  have hlen : (c.take off ++ d).length = off + d.length := by
    rw [List.length_append, List.length_take]
    omega
  have hlt : n - nx - off < (loaded c (off + nx) (n - nx - off + 1)).length := by
    rw [BasicString.length_loaded]
    omega
  unfold splicedCells
  rw [List.append_assoc, List.getElem?_append_right (by omega), hlen,
    show n - nx + d.length - (off + d.length) = n - nx - off by omega,
    List.getElem?_append_left hlt, BasicString.loaded_eq (by omega),
    List.getElem?_take_of_lt (by omega), List.getElem?_drop]
  congr 1
  omega

theorem length_splicedCells (hoff : off ≤ c.length) :
    (splicedCells c n off nx d tail).length =
      off + d.length + (n - nx - off + 1) + tail.length := by
  unfold splicedCells
  rw [List.length_append, List.length_append, List.length_append, BasicString.length_loaded,
    List.length_take, Nat.min_eq_left hoff]

theorem StringState.Sound.length_contents (h : s.Sound sizeof rest allowed ends) :
    s.contents.length = s.vec.size := by
  have hsize := h.size_le
  have hres := h.res_le
  rw [PodState.contents, List.length_take]
  omega

/-- The terminator has a cell. -/
theorem StringState.Sound.size_lt (h : s.Sound sizeof rest allowed ends) (hpos : 0 < s.cells.length)
    (hends : ends) : s.vec.size < s.cells.length ∧ s.cells[s.vec.size]? = some 0 := by
  have hsome : s.vec.first.isSome := h.is.first_isSome (List.length_pos_iff.1 hpos)
  have hzero := h.getElem?_cells hsome hends
  exact ⟨(List.getElem?_eq_some_iff.1 hzero).1, hzero⟩

/-- The suffix moves away from a gap, in which the old cells still are. -/
theorem overwrite_eq_splicedCells (k : ℕ) :
    overwrite c (off + k) (loaded c (off + nx) (n - nx - off + 1)) =
      splicedCells c n off nx ((c.drop off).take k) (c.drop (off + k + (n - nx - off + 1))) := by
  unfold overwrite splicedCells
  rw [List.take_add, BasicString.length_loaded]

theorem StringState.Is.spliced (ht : t.Is rest allowed (splicedCells c n off nx d tail) v)
    (hsize : v.size = n - nx + d.length) (hoff : off + nx ≤ n) (hn : n ≤ c.length)
    (hle : v.size ≤ v.res) (hres : v.res ≤ (splicedCells c n off nx d tail).length)
    (hmax : v.res ≤ maxSize sizeof) (hends : ends → n < c.length ∧ (c)[n]? = some 0) :
    t.Sound sizeof rest allowed ends ∧ t.contents = splice (c.take n) off nx d := by
  refine ⟨ht.sound_of_getElem? hle hres hmax fun hends' => ?_, ?_⟩
  · obtain ⟨hlt, hzero⟩ := hends hends'
    rw [hsize, getElem?_splicedCells hoff hlt]
    exact hzero
  · rw [PodState.contents, ht.keeps.cells_eq, ht.vec_eq, hsize]
    exact take_splicedCells hoff hn

/-- After the suffix has moved, the text has a gap of its length. -/
theorem StringState.Is.gapped {k : ℕ}
    (ht : t.Is rest allowed (overwrite c (off + k) (loaded c (off + nx) (n - nx - off + 1))) v)
    (hsize : v.size = n - nx + k) (hoff : off + nx ≤ n) (hn : n ≤ c.length)
    (hroom : v.size < c.length) (hle : v.size ≤ v.res) (hres : v.res ≤ c.length)
    (hmax : v.res ≤ maxSize sizeof) (hends : ends → n < c.length ∧ (c)[n]? = some 0) :
    t.Sound sizeof rest allowed ends ∧ t.cells.length = c.length ∧
      ∃ gap, gap.length = k ∧ t.contents = splice (c.take n) off nx gap := by
  have hgap : ((c.drop off).take k).length = k := by
    rw [List.length_take, List.length_drop]
    omega
  have hcells : (overwrite c (off + k) (loaded c (off + nx) (n - nx - off + 1))).length =
      c.length := by
    apply Memory.length_overwrite
    rw [BasicString.length_loaded]
    omega
  have htotal := ht.keeps.cells_eq
  rw [overwrite_eq_splicedCells] at ht hcells
  obtain ⟨hsound, hcontents⟩ := ht.spliced (by rw [hgap]; exact hsize) hoff hn hle
    (by rw [hcells]; exact hres) hmax hends
  refine ⟨hsound, ?_, _, hgap, hcontents⟩
  rw [htotal, overwrite_eq_splicedCells]
  exact hcells

namespace BasicString

/-! ## The ways through `replace` -/

variable {Q : Unit → StringState α → Prop}

theorem wp_write_contents {offset : ℕ} (h : s.Sound sizeof rest allowed ends)
    (hfit : offset + d.length ≤ s.vec.size)
    (hQ : ∀ t, t.Sound sizeof rest allowed ends → t.vec = s.vec →
      t.cells.length = s.cells.length → t.contents = overwrite s.contents offset d → Q () t) :
    wp (write offset d) Q E s := by
  have hsize := h.size_le
  have hres := h.res_le
  apply wp_write_below h hfit
  intro t ht hvec hcells
  refine hQ t ht hvec ?_ ?_
  · rw [hcells, Memory.length_overwrite (by omega)]
  · rw [PodState.contents, hcells, hvec, Memory.take_overwrite_of_ge hfit (by omega)]
    rfl

theorem loaded_all (d : List α) : loaded d 0 d.length = d := by
  rw [loaded_eq (Nat.le_of_eq (Nat.zero_add _)), List.drop_zero, List.take_length]

/-- All characters of the text. -/
theorem wp_readText_all {Q : List α → StringState α → Prop} (h : s.Is rest allowed c v)
    (hown : ∀ start count, text = .own start count → .strayRead ∈ allowed)
    (hQ : ∀ t d, d.length = text.length → (∀ d', text = .outside d' → d = d') →
      t.Is rest allowed c v → Q d t) : wp (readText 0 text.length text) Q E s := by
  apply wp_readText h hown
  · rintro d rfl
    exact .inr (Nat.le_of_eq (Nat.zero_add _))
  · intro t d hd htext ht
    refine hQ t d hd (fun d' hd' => ?_) ht
    have hloaded := htext d' hd'
    rw [hd'] at hloaded
    exact hloaded.trans (loaded_all d')

/-- The size stays. -/
theorem wp_replace_same (h : s.Sound sizeof rest allowed ends) (hlen : text.length = nx)
    (hoff : off + nx ≤ s.vec.size)
    (hown : ∀ start count, text = .own start count → .strayRead ∈ allowed)
    (hQ : ∀ t, t.Sound sizeof rest allowed ends → t.vec = s.vec →
      t.cells.length = s.cells.length →
      (∀ d, text = .outside d → t.contents = splice s.contents off nx d) → Q () t) :
    wp (do write off (← readText 0 text.length text)) Q E s := by
  have hsize := h.size_le
  have hres := h.res_le
  rw [wp_bind]
  apply wp_readText_all h.is hown
  intro t d hd htext ht
  have hsound := ht.sound hsize hres h.res_le_max h.terminated
  have hfit : off + d.length ≤ t.vec.size := by
    rw [ht.vec_eq, hd, hlen]
    exact hoff
  apply wp_write_contents hsound hfit
  intro u hu hvec hcells hcontents
  refine hQ u hu (hvec.trans ht.vec_eq) ?_ fun d' hd' => ?_
  · rw [hcells, ht.keeps.cells_eq]
  · obtain rfl := htext d' hd'
    rw [hcontents, PodState.contents, ht.keeps.cells_eq, ht.vec_eq, splice, ← hlen, ← hd]
    rfl

/-- The suffix moves to the front. -/
theorem wp_replace_shrink (h : s.Sound sizeof rest allowed ends) (hlen : text.length < nx)
    (hoff : off + nx ≤ s.vec.size)
    (hown : ∀ start count, text = .own start count → .strayRead ∈ allowed)
    (hread : .strayRead ∈ allowed ∨ s.vec.size < s.cells.length)
    (hQ : ∀ t, t.Sound sizeof rest allowed ends →
      t.vec = { s.vec with size := s.vec.size - nx + text.length } →
      t.cells.length = s.cells.length →
      (∀ d, text = .outside d → t.contents = splice s.contents off nx d) → Q () t) :
    wp (do
      write off (← readText 0 text.length text)
      move (off + text.length) (off + nx) (s.vec.size - nx - off + 1)
      setSize (s.vec.size - (nx - text.length))) Q E s := by
  have hsize := h.size_le
  have hres := h.res_le
  rw [wp_bind]
  apply wp_readText_all h.is hown
  intro t d hd htext ht
  rw [wp_bind, ← hd]
  apply wp_write ht (.inr (by omega))
  intro t' ht'
  have hcells : (overwrite s.cells off d).length = s.cells.length :=
    Memory.length_overwrite (by omega)
  rw [wp_bind]
  apply wp_move ht' (hread.imp_right fun hlt => by rw [hcells]; omega)
    (.inr (by rw [hcells]; omega))
  intro u hu
  -- The write is in front of the suffix.
  have hload : loaded (overwrite s.cells off d) (off + nx) (s.vec.size - nx - off + 1) =
      loaded s.cells (off + nx) (s.vec.size - nx - off + 1) := by
    unfold loaded
    rw [Memory.drop_overwrite (by omega) (by omega)]
  rw [hload, Memory.overwrite_overwrite_behind (by omega)] at hu
  apply wp_setSize hu
  intro u' hu'
  have hsum : s.vec.size - (nx - d.length) = s.vec.size - nx + d.length := by omega
  rw [hsum] at hu'
  have hroom : (splicedCells s.cells s.vec.size off nx d (s.cells.drop (off + d.length +
      (loaded s.cells (off + nx) (s.vec.size - nx - off + 1)).length))).length =
        s.cells.length := by
    rw [length_splicedCells (by omega), length_loaded, List.length_drop]
    omega
  obtain ⟨hsound, hcontents⟩ := StringState.Is.spliced hu' rfl hoff (by omega)
    (by change s.vec.size - nx + d.length ≤ s.vec.res; omega) (by rw [hroom]; exact hres)
    h.res_le_max fun hends => h.size_lt (by omega) hends
  refine hQ u' hsound ?_ ?_ fun d' hd' => ?_
  · rw [hu'.vec_eq, hd]
  · rw [hu'.keeps.cells_eq]
    exact hroom
  · obtain rfl := htext d' hd'
    exact hcontents

/-- A second part of the text that has moved along with the suffix. -/
theorem wp_copyText {offset k : ℕ} (h : s.Sound sizeof rest allowed ends)
    (hfit : offset + n ≤ s.vec.size)
    (hown : ∀ start count, text = .own start count → .strayRead ∈ allowed ∧
      (offset + n ≤ start + k ∨ start + k + n ≤ offset))
    (hout : ∀ d, text = .outside d → n = 0)
    (hQ : ∀ t, t.Sound sizeof rest allowed ends → t.vec = s.vec →
      t.cells.length = s.cells.length → (∀ d, text = .outside d → t.contents = s.contents) →
      Q () t) : wp (copyText offset k n text) Q E s := by
  cases text with
  | outside d =>
    have hzero := hout d rfl
    have hempty : loaded d k n = [] :=
      List.eq_nil_of_length_eq_zero ((length_loaded ..).trans hzero)
    unfold copyText readText
    rw [wp_bind, wp_bind]
    apply wp_mark h.is (.inr fun hne => hne.1 hzero)
    intro t ht
    have hsound := ht.sound h.size_le h.res_le h.res_le_max h.terminated
    rw [wp_pure, hempty]
    apply wp_write_contents hsound
    · rw [ht.vec_eq, List.length_nil]
      omega
    · intro u hu hvec hcells hcontents
      rw [ht.keeps.cells_eq] at hcells
      refine hQ u hu (hvec.trans ht.vec_eq) hcells fun _ _ => ?_
      rw [hcontents, Memory.overwrite_nil, PodState.contents, ht.keeps.cells_eq, ht.vec_eq]
      rfl
  | own start count =>
    obtain ⟨hread, happart⟩ := hown start count rfl
    unfold copyText copy
    rw [wp_bind]
    apply wp_mark h.is
    · right
      omega
    · intro t ht
      have hsound := ht.sound h.size_le h.res_le h.res_le_max h.terminated
      apply wp_move_below hsound (.inl hread) (by rw [ht.vec_eq]; exact hfit)
      intro u hu hvec hcells
      refine hQ u hu (hvec.trans ht.vec_eq) ?_ (by simp)
      have hres := hsound.res_le
      have hsize := hsound.size_le
      rw [hcells, Memory.length_overwrite, ht.keeps.cells_eq]
      rw [length_loaded]
      rw [← ht.vec_eq] at hfit
      omega

omit [Zero α] in
/-- What is left of the text has moved along with the suffix, and there it is apart from its new
place. -/
theorem shiftedAfter_apart {size start count k : ℕ} (hlen : nx < count)
    (hk : shiftedAfter size off nx (.own start count : StringText α) = k) (hle : k ≤ count) :
    off + k + (count - k) ≤ start + (count - nx + k) ∨
      start + (count - nx + k) + (count - k) ≤ off + k := by
  unfold shiftedAfter at hk
  dsimp only at hk
  split_ifs at hk
  · omega
  · omega
  · omega

/-- There is room for the suffix behind a longer text. -/
theorem wp_replace_grow (h : s.Sound sizeof rest allowed ends) (hlen : nx < text.length)
    (hoff : off + nx ≤ s.vec.size)
    (hown : ∀ start count, text = .own start count → .strayRead ∈ allowed)
    (hres : s.vec.size + (text.length - nx) ≤ s.vec.res)
    (hroom : s.vec.size + (text.length - nx) < s.cells.length)
    (hshifted : shiftedAfter s.vec.size off nx text ≤ text.length)
    (hQ : ∀ t, t.Sound sizeof rest allowed ends →
      t.vec = { s.vec with size := s.vec.size - nx + text.length } →
      t.cells.length = s.cells.length →
      (∀ d, text = .outside d → t.contents = splice s.contents off nx d) → Q () t) :
    wp (do
      setSize (s.vec.size + (text.length - nx))
      move (off + nx + (text.length - nx)) (off + nx) (s.vec.size - nx - off + 1)
      write off (← readText 0 (shiftedAfter s.vec.size off nx text) text)
      copyText (off + shiftedAfter s.vec.size off nx text)
        (text.length - nx + shiftedAfter s.vec.size off nx text)
        (sizeT ((text.length : Int) - shiftedAfter s.vec.size off nx text)) text) Q E s := by
  have hlimit : maxSize sizeof ≤ 2 ^ 64 - 1 := Nat.div_le_self _ _
  have hmax := h.res_le_max
  have hcells := h.res_le
  have hsum : s.vec.size + (text.length - nx) = s.vec.size - nx + text.length := by omega
  have htarget : off + nx + (text.length - nx) = off + text.length := by omega
  have hrest : sizeT ((text.length : Int) - shiftedAfter s.vec.size off nx text) =
      text.length - shiftedAfter s.vec.size off nx text := by
    unfold sizeT
    omega
  rw [hsum, htarget, hrest, wp_bind]
  rw [hsum] at hres hroom
  apply wp_setSize h.is
  intro t ht
  rw [wp_bind]
  apply wp_move ht (.inr (by omega)) (.inr (by omega))
  intro t' ht'
  obtain ⟨hsound, hcells', gap, hgap, hcontents⟩ := ht'.gapped rfl hoff (by omega) hroom hres
    hcells hmax fun hends => h.size_lt (by omega) hends
  have hsize : t'.vec.size = s.vec.size - nx + text.length := by rw [ht'.vec_eq]
  rw [wp_bind]
  apply wp_readText hsound.is hown
  · rintro d rfl
    exact .inr (Nat.le_of_eq (Nat.zero_add _))
  intro u d hd htext hu
  have hsound' : u.Sound sizeof rest allowed ends := by
    have hle := hsound.size_le
    exact hu.sound hle hsound.res_le hsound.res_le_max hsound.terminated
  rw [wp_bind]
  apply wp_write_contents hsound'
  · rw [hu.vec_eq, hsize, hd]
    omega
  intro u' hu' hvec' hcells'' hcontents'
  have hvec : u'.vec = { s.vec with size := s.vec.size - nx + text.length } := by
    rw [hvec', hu.vec_eq, ht'.vec_eq]
  apply wp_copyText hu'
  · rw [hvec]
    change _ ≤ s.vec.size - nx + text.length
    omega
  · intro start count htext'
    refine ⟨hown start count htext', ?_⟩
    subst htext'
    exact shiftedAfter_apart hlen rfl hshifted
  · rintro d rfl
    exact Nat.sub_self _
  intro w hw hwvec hwcells hwcontents
  refine hQ w hw (hwvec.trans hvec) ?_ fun d' hd' => ?_
  · rw [hwcells, hcells'', hu.keeps.cells_eq, hcells']
  · have hsame : d = d' := by
      have hloaded := htext d' hd'
      rw [hd'] at hloaded
      exact hloaded.trans (loaded_all d')
    have hlength : gap.length = d'.length := by
      rw [hgap, hd']
      rfl
    have hold : u.contents = t'.contents := by
      rw [PodState.contents, hu.keeps.cells_eq, hu.vec_eq]
      rfl
    rw [hwcontents d' hd', hcontents', hold, hcontents, hsame]
    apply overwrite_splice hlength
    rw [List.length_take]
    omega

theorem wp_staleText {Q : List α → StringState α → Prop} (h : s.Is rest allowed c v)
    (hown : ∀ start count, text = .own start count → .strayRead ∈ allowed)
    (hQ : ∀ t d, d.length = text.length → (∀ d', text = .outside d' → d = d') →
      t.Is rest allowed c v → Q d t) : wp (staleText text) Q E s := by
  cases text with
  | outside d => exact hQ s d rfl (fun _ hd => StringText.outside.inj hd) h
  | own start count =>
    unfold staleText
    rw [wp_bind]
    apply wp_mark h (.inl (hown start count rfl))
    exact fun t ht => hQ t _ List.length_replicate nofun ht

/-- The block is reallocated for a longer text. -/
theorem wp_reallocateGrowBy {grant : Option (Grant α)} {growth cap : ℕ}
    (h : s.Sound sizeof rest allowed ends) (hlen : nx < text.length)
    (hgrowth : growth = text.length - nx) (hoff : off + nx ≤ s.vec.size) (hpos : 0 < s.vec.size)
    (hown : ∀ start count, text = .own start count → .strayRead ∈ allowed)
    (hgrant : ∀ g ∈ grant, rest g.block = none) (hsum : s.vec.size + growth ≤ maxSize sizeof)
    (hcap : calculateGrowth sizeof s.vec.res (s.vec.size + growth) = cap)
    (hmax : cap + 1 ≤ maxSize sizeof) (hsome : grant.isSome)
    (hover : .overlap ∈ allowed ∨ s.vec.size - nx - off + 1 ≤ growth)
    (hQ : ∀ t, t.Sound sizeof rest allowed ends →
      t.shape = ⟨s.vec.size - nx + text.length, cap, cap + 1⟩ →
      (∀ d, text = .outside d → t.contents = splice s.contents off nx d) → Q () t) :
    wp (reallocateGrowBy sizeof grant growth off nx text) Q E s := by
  have hlimit : maxSize sizeof ≤ 2 ^ 64 - 1 := Nat.div_le_self _ _
  have hsize := h.size_le
  have hres := h.res_le
  obtain ⟨g, rfl⟩ := Option.isSome_iff_exists.1 hsome
  have hle : s.vec.size + growth ≤ cap := hcap ▸ PodVector.le_calculateGrowth hsum
  have hnothrow : ¬ sizeT ((maxSize sizeof : Int) - s.vec.size) < growth := by
    unfold sizeT
    omega
  have hbytes : sizeT (cap + 1 : ℕ) = cap + 1 := by
    unfold sizeT
    omega
  unfold reallocateGrowBy
  rw [wp_bind, wp_get]
  dsimp only
  rw [if_neg hnothrow, hcap, hbytes, reallocBlock_some g (Nat.succ_pos cap) hmax, wp_bind, wp_set]
  have hnew : StringState.Is rest allowed { s with
      vec := ⟨some g.block, s.vec.size + growth, cap⟩
      heap := Function.update s.freed g.block (some (regrown s.cells (cap + 1) g.fresh)) }
      (regrown s.cells (cap + 1) g.fresh) ⟨some g.block, s.vec.size + growth, cap⟩ := by
    have hmoved := (h.keeps.withSize (s.vec.size + growth)).moved_of_none (hgrant g rfl)
      (regrown s.cells (cap + 1) g.fresh) cap
    exact ⟨hmoved, rfl, h.faults⟩
  have hcells := length_regrown s.cells (cap + 1) g.fresh
  rw [wp_bind]
  apply wp_copy hnew (hover.imp_right fun hapart => by omega) (.inr (by omega)) (.inr (by omega))
  intro t ht
  obtain ⟨hsound, hcells', gap, hgap, hcontents⟩ := ht.gapped
    (by change s.vec.size + growth = s.vec.size - nx + text.length; omega) hoff (by omega)
    (by change s.vec.size + growth < _; omega) hle (by change cap ≤ _; omega)
    (Nat.le_of_succ_le hmax) fun hends => by
      obtain ⟨hlt, hzero⟩ := h.size_lt (by omega) hends
      refine ⟨by omega, ?_⟩
      rw [getElem?_regrown hlt (by omega)]
      exact hzero
  rw [take_regrown (by omega) (by omega)] at hcontents
  rw [wp_bind]
  apply wp_staleText hsound.is hown
  intro u d hd htext hu
  have hsound' : u.Sound sizeof rest allowed ends :=
    hu.sound hsound.size_le hsound.res_le hsound.res_le_max hsound.terminated
  apply wp_write_contents hsound'
  · rw [hu.vec_eq, ht.vec_eq, hd]
    change off + text.length ≤ s.vec.size + growth
    omega
  intro w hw hwvec hwcells hwcontents
  refine hQ w hw ?_ fun d' hd' => ?_
  · unfold StringState.shape
    rw [hwcells, hu.keeps.cells_eq, hcells', hcells, hwvec, hu.vec_eq, ht.vec_eq]
    ext <;> dsimp only
    omega
  · obtain rfl := htext d' hd'
    have hold : u.contents = t.contents := by
      rw [PodState.contents, hu.keeps.cells_eq, hu.vec_eq]
      rfl
    rw [hwcontents, hold, hcontents]
    apply overwrite_splice (hgap.trans hd.symm)
    rw [List.length_take]
    omega

/-- A call that fits splices the string. -/
theorem wp_replace {grant : Option (Grant α)} (h : s.Sound sizeof rest allowed ends)
    (hfits : s.shape.Fits sizeof off nx allowed grant.isSome text)
    (hown : ∀ start count, text = .own start count → .strayRead ∈ allowed)
    (hgrant : ∀ g ∈ grant, rest g.block = none)
    (hQ : ∀ t, t.Sound sizeof rest allowed ends →
      t.shape = s.shape.replaced sizeof off nx text.length →
      (∀ d, text = .outside d → t.contents = splice s.contents off nx d) → Q () t) :
    wp (replace sizeof grant off nx text) Q E s := by
  have hlimit : maxSize sizeof ≤ 2 ^ 64 - 1 := Nat.div_le_self _ _
  have hmax := h.res_le_max
  have hsize := h.size_le
  have hroom : sizeT ((s.vec.res : Int) - s.vec.size) = s.vec.res - s.vec.size := by
    unfold sizeT
    omega
  obtain ⟨hoff, hshrinks, hgrows, hreallocates⟩ := hfits
  simp only [StringState.shape_size, StringState.shape_res, StringState.shape_cells,
    StringShape.growth] at hoff hshrinks hgrows hreallocates
  have htaken : s.shape.taken off nx = min nx (s.vec.size - off) := rfl
  have hcontents : ∀ d, splice s.contents off (s.shape.taken off nx) d =
      splice s.contents off nx d := by
    intro d
    have hlen := h.length_contents
    rw [htaken, ← hlen]
    exact splice_min (by rw [hlen]; exact Nat.le_of_lt hoff)
  have hle : off + s.shape.taken off nx ≤ s.vec.size := by omega
  unfold replace
  rw [wp_bind, wp_get, wp_bind]
  dsimp only
  apply wp_verifyRange hoff
  rw [← htaken, hroom]
  have hshape : ∀ t : StringState α, ¬ s.vec.res - s.vec.size < text.length - s.shape.taken off nx →
      t.vec.size = s.vec.size - s.shape.taken off nx + text.length → t.vec.res = s.vec.res →
      t.cells.length = s.cells.length → t.shape = s.shape.replaced sizeof off nx text.length := by
    intro t hkeeps htsize htres htcells
    have hstays : s.shape.replaced sizeof off nx text.length =
        ⟨s.vec.size - s.shape.taken off nx + text.length, s.vec.res, s.cells.length⟩ :=
      if_neg hkeeps
    rw [hstays, StringState.shape, htsize, htres, htcells]
  split
  · next hsame =>
    apply wp_replace_same h hsame.symm hle hown
    intro t ht hvec hcells htext
    refine hQ t ht (hshape t (by omega) ?_ (by rw [hvec]) hcells) fun d hd => ?_
    · rw [hvec]
      omega
    · rw [htext d hd, hcontents]
  · next hne =>
    split
    · next hshrink =>
      apply wp_replace_shrink h hshrink hle hown (hshrinks hshrink)
      intro t ht hvec hcells htext
      refine hQ t ht (hshape t (by omega) (by rw [hvec]) (by rw [hvec]) hcells) fun d hd => ?_
      rw [htext d hd, hcontents]
    · next hgrow =>
      have hlen : s.shape.taken off nx < text.length := by omega
      split
      · next hfits =>
        obtain ⟨hcells', hshifted⟩ := hgrows hlen hfits
        apply wp_replace_grow h hlen hle hown (by omega) hcells' hshifted
        intro t ht hvec hcells htext
        refine hQ t ht (hshape t (by omega) (by rw [hvec]) (by rw [hvec]) hcells) fun d hd => ?_
        rw [htext d hd, hcontents]
      · next hfull =>
        obtain ⟨hsum, hcap, hsome, hover⟩ := hreallocates (Nat.not_le.1 hfull)
        apply wp_reallocateGrowBy h hlen rfl hle (by omega) hown hgrant hsum rfl hcap hsome hover
        intro t ht hshape' htext
        refine hQ t ht ?_ fun d hd => ?_
        · have hmoves : s.shape.replaced sizeof off nx text.length = _ :=
            if_pos (Nat.not_le.1 hfull)
          have hnew : s.vec.size - s.shape.taken off nx + text.length =
              s.vec.size + (text.length - s.shape.taken off nx) := by omega
          rw [hshape', hmoves, StringState.shape_size, StringState.shape_res, hnew]
        · rw [htext d hd, hcontents]

/-- A call that throws changes nothing. -/
theorem wp_replace_throws {grant : Option (Grant α)} (h : s.Sound sizeof rest allowed ends)
    (hthrows : s.shape.Throws sizeof off nx text.length) (hE : ∀ e, E e s) :
    wp (replace sizeof grant off nx text) Q E s := by
  have hlimit : maxSize sizeof ≤ 2 ^ 64 - 1 := Nat.div_le_self _ _
  have hmax := h.res_le_max
  have hsize := h.size_le
  have htaken : s.shape.taken off nx = min nx (s.vec.size - off) := rfl
  unfold replace
  rw [wp_bind, wp_get, wp_bind]
  dsimp only
  by_cases hoff : off < s.vec.size
  · obtain hge | ⟨hgrow, hlong⟩ := hthrows
    · exact absurd hge (Nat.not_le.2 hoff)
    simp only [StringState.shape_size, StringState.shape_res, StringShape.growth] at hgrow hlong
    have hroom : ¬ text.length - s.shape.taken off nx ≤ sizeT ((s.vec.res : Int) - s.vec.size) := by
      unfold sizeT
      omega
    have hshort : sizeT ((maxSize sizeof : Int) - s.vec.size) <
        text.length - s.shape.taken off nx := by
      unfold sizeT
      omega
    apply wp_verifyRange hoff
    rw [← htaken, if_neg (by omega), if_neg (by omega), if_neg hroom]
    unfold reallocateGrowBy
    rw [wp_bind, wp_get]
    dsimp only
    rw [if_pos hshort]
    exact hE _
  · exact wp_verifyRange_of_not hoff (hE _)

end BasicString

end

end Yasio
