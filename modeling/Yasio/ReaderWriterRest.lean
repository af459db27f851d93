import Mathlib.Data.List.Perm.Subperm
import Yasio.ReaderWriterRuns

/-!
# The lock-free queue at rest

When neither thread is in a call, `size_approx` counts what is in the queue, and the destructor
destroys what is in the queue, in its order, and frees every block that has been made.
-/

namespace Yasio

namespace ReaderWriterQueue

open Function CircularBuffer

variable {α : Type*} {s : ReaderWriterQueue α} {l : Layout α} {b size least maxBlockSize : ℕ}
  {xs : List α} {block : Block α}

/-! ## The loops -/

/-- A loop over the blocks comes round. -/
theorem blocksFrom_eq {bs : List ℕ}
    (hnext : (b :: bs ++ [s.frontBlock]).IsChain fun a b => (s.block a).next = b)
    (hfront : s.frontBlock ∉ bs) {fuel : ℕ} (hfuel : bs.length < fuel) :
    s.blocksFrom fuel b = some (b :: bs) := by
  induction bs generalizing b fuel with
  | nil =>
    obtain ⟨fuel, rfl⟩ : ∃ n, fuel = n + 1 := ⟨fuel - 1, by omega⟩
    have hb := (List.isChain_cons_cons.1 hnext).1
    rw [blocksFrom, if_pos hb]
  | cons c cs ih =>
    obtain ⟨fuel, rfl⟩ : ∃ n, fuel = n + 1 := ⟨fuel - 1, by omega⟩
    obtain ⟨hb, hnext⟩ := List.isChain_cons_cons.1 hnext
    have hne : c ≠ s.frontBlock := by
      rintro rfl
      exact hfront List.mem_cons_self
    have hcs : s.frontBlock ∉ cs := fun hmem => hfront (List.mem_cons_of_mem c hmem)
    rw [blocksFrom, hb, if_neg hne, ih hnext hcs (Nat.lt_of_succ_lt_succ hfuel)]
    rfl

/-- The number of elements in a block, which the difference of two words gives. -/
theorem Block.count_eq (hpow : PowerOfTwo block.size)
    (h : Holds block.size block.front block.tail block.data false xs []) :
    block.count = xs.length := by
  have hlt := h.front_lt
  have hlen : xs.length < block.size := by simpa using h.length_lt
  have htail := h.tail_eq
  have hdvd : block.size ∣ 2 ^ 64 := by
    obtain ⟨k, hk, hsize⟩ := hpow
    exact hsize ▸ Nat.pow_dvd_pow 2 (by omega)
  have hle : block.size ≤ 2 ^ 64 := Nat.le_of_dvd (by decide) hdvd
  obtain ⟨q, hq⟩ := hdvd
  rw [Block.count, Block.and_sizeMask hpow, Nat.mod_mod_of_dvd _ ⟨q, hq⟩]
  rw [add_mod_eq hlt hlen] at htail
  split at htail
  · have heq : block.tail + (2 ^ 64 - block.front) = xs.length + block.size * q := by omega
    rw [heq, Nat.add_mul_mod_self_left, Nat.mod_eq_of_lt hlen]
  · have hq' : block.size * (q - 1) + block.size = 2 ^ 64 := by
      have hpos : 0 < q := by
        rcases Nat.eq_zero_or_pos q with rfl | hpos
        · rw [Nat.mul_zero] at hq
          omega
        · exact hpos
      rw [← Nat.mul_succ, hq, Nat.succ_eq_add_one, Nat.sub_add_cancel hpos]
    have heq : block.tail + (2 ^ 64 - block.front) = xs.length + block.size * (q - 1) := by omega
    rw [heq, Nat.add_mul_mod_self_left, Nat.mod_eq_of_lt hlen]

/-- The loop of the destructor over the cells of a block. -/
theorem Block.destroyFrom_eq (hpow : PowerOfTwo block.size)
    (h : Holds block.size block.front block.tail block.data false xs []) {j fuel : ℕ}
    (hj : j ≤ xs.length) (hfuel : xs.length - j < fuel) :
    block.destroyFrom fuel ((block.front + j) % block.size) = some ((xs.drop j).map some) := by
  have hlen : xs.length < block.size := by simpa using h.length_lt
  induction fuel generalizing j with
  | zero => exact absurd hfuel (Nat.not_lt_zero _)
  | succ fuel ih =>
    rw [Block.destroyFrom, h.tail_eq]
    rcases Nat.eq_or_lt_of_le hj with rfl | hlt
    · rw [if_pos rfl, List.drop_length]
      rfl
    · have hne : (block.front + j) % block.size ≠ (block.front + xs.length) % block.size := by
        rw [Ne, add_mod_inj h.front_lt (by omega) hlen]
        omega
      have hnext : block.succ ((block.front + j) % block.size) =
          (block.front + (j + 1)) % block.size := by
        rw [Block.succ_eq hpow, Nat.mod_add_mod, Nat.add_assoc]
      rw [if_neg hne, hnext, ih hlt (by omega), h.data_eq j (by omega),
        List.drop_eq_getElem_cons hlt, cell, if_neg (by simp), List.append_nil,
        List.getElem?_eq_getElem hlt]
      rfl

/-! ## The blocks of a queue at rest -/

/-- Neither thread is in a call. -/
structure AtRest (s : ReaderWriterQueue α) : Prop where
  enqueuing : s.enqueuing = none
  dequeuing : s.dequeuing = none

namespace AtRest

theorem early_eq (h : s.AtRest) (b : ℕ) : s.early b = [] := by
  rw [early, h.enqueuing]
  rfl

theorem holds (h : s.AtRest) (hs : Stored size least s l) (hb : b ∈ l.live ++ l.spare) :
    Holds (s.block b).size (s.block b).front (s.block b).tail (s.block b).data false (l.items b)
      [] := by
  have hhold := hs.holds b hb
  have hflight : s.flight b = [] := by
    rw [flight, h.enqueuing]
    rfl
  have hhole : s.hole b = false := by
    rw [hole, h.dequeuing]
    rfl
  rwa [Holding, hflight, hhole] at hhold

/-- The elements of the queue stand in the blocks that a loop visits. -/
theorem drop_eq (h : s.AtRest) (hs : Stored size least s l) :
    (l.live ++ l.spare).flatMap l.items = s.enqueued.drop s.removed.length := by
  have hspare : l.spare.flatMap l.items = [] := by
    rw [List.flatMap_eq_nil_iff]
    exact fun b hb => (hs.spare b hb).trans (h.early_eq b)
  rw [List.flatMap_append, hspare, List.append_nil, hs.queue, List.drop_left]

theorem blocksFrom_eq (hs : Stored size least s l) {fuel : ℕ}
    (hfuel : (l.live ++ l.spare).length ≤ fuel) :
    s.blocksFrom fuel s.frontBlock = some (l.live ++ l.spare) := by
  obtain ⟨rest, hlive⟩ := hs.exists_cons
  have hnext := hs.next
  have hnodup := hs.nodup
  rw [hlive, List.cons_append] at hnext hnodup hfuel ⊢
  exact ReaderWriterQueue.blocksFrom_eq hnext (List.nodup_cons.1 hnodup).1 hfuel

theorem foldl_count_eq (h : s.AtRest) (hs : Stored size least s l) {bs : List ℕ}
    (hbs : ∀ b ∈ bs, b ∈ l.live ++ l.spare) (result : ℕ) (hresult : result < 2 ^ 64) :
    bs.foldl (fun result b => (result + (s.block b).count) % 2 ^ 64) result =
      (result + (bs.flatMap l.items).length) % 2 ^ 64 := by
  induction bs generalizing result with
  | nil => exact (Nat.mod_eq_of_lt hresult).symm
  | cons b bs ih =>
    have hb := hbs b List.mem_cons_self
    have hcount := Block.count_eq (hs.two_pow b (hs.made b hb)) (h.holds hs hb)
    rw [List.foldl_cons, hcount, ih (fun c hc => hbs c (List.mem_cons_of_mem b hc)) _
      (Nat.mod_lt _ (by decide)), Nat.mod_add_mod, List.flatMap_cons, List.length_append,
      Nat.add_assoc]

theorem destroyBlocks_eq (h : s.AtRest) (hs : Stored size least s l) {bs : List ℕ}
    (hbs : ∀ b ∈ bs, b ∈ l.live ++ l.spare) {fuel : ℕ}
    (hfuel : ∀ b ∈ bs, (l.items b).length < fuel) :
    s.destroyBlocks fuel bs = some ((bs.flatMap l.items).map some) := by
  induction bs with
  | nil => rfl
  | cons b bs ih =>
    have hb := hbs b List.mem_cons_self
    have hhold := h.holds hs hb
    have hfrom := Block.destroyFrom_eq (hs.two_pow b (hs.made b hb)) hhold (Nat.zero_le _)
      (hfuel b List.mem_cons_self)
    rw [Nat.add_zero, Nat.mod_eq_of_lt hhold.front_lt, List.drop_zero] at hfrom
    rw [destroyBlocks, hfrom, Option.bind_some,
      ih (fun c hc => hbs c (List.mem_cons_of_mem b hc))
        fun c hc => hfuel c (List.mem_cons_of_mem b hc),
      List.flatMap_cons, List.map_append]
    rfl

end AtRest

/-- At rest `size_approx` is what is in the queue, and the destructor destroys just that and frees
every block once; both loops come to an end. -/
theorem destroy_of_run (hmax : BlockSizeOk maxBlockSize) (hpos : 0 < size) (hlt : size < 2 ^ 63)
    {as : List (Action α)}
    (hrun : Machine.run (step maxBlockSize) as (construct maxBlockSize size) = some s)
    (hrest : s.AtRest) :
    ∃ n blocks, blocks.Perm (List.range s.made) ∧ ∀ fuel ≥ n,
      s.destroy fuel = some ((s.enqueued.drop (taken s.answers).length).map some, blocks) ∧
        s.sizeApprox fuel =
          some ((s.enqueued.length - (taken s.answers).length) % 2 ^ 64) := by
  obtain ⟨least, h⟩ := inv_of_run hmax hpos hlt hrun
  obtain ⟨l, hs, -⟩ := h.layout
  have hdrop := hrest.drop_eq hs
  have hcount : (l.live ++ l.spare).length = s.made := by
    have hcount := hs.count
    rwa [unlinked, hrest.enqueuing] at hcount
  have hperm : (l.live ++ l.spare).Perm (List.range s.made) := by
    refine (List.subperm_of_subset hs.nodup fun b hb => ?_).perm_of_length_le ?_
    · exact List.mem_range.2 (hs.made b hb)
    · rw [hcount, List.length_range]
  have hlen : ∀ b ∈ l.live ++ l.spare, (l.items b).length ≤ s.enqueued.length := by
    intro b hb
    have hsub : ([b].flatMap l.items).Sublist ((l.live ++ l.spare).flatMap l.items) :=
      (List.singleton_sublist.2 hb).flatMap l.items
    rw [List.flatMap_singleton, hdrop] at hsub
    exact hsub.length_le.trans (List.length_drop ▸ Nat.sub_le _ _)
  rw [← h.removed]
  refine ⟨s.made + s.enqueued.length + 1, l.live ++ l.spare, hperm, fun fuel hfuel => ⟨?_, ?_⟩⟩
  · rw [destroy, AtRest.blocksFrom_eq hs (by omega), Option.bind_some,
      hrest.destroyBlocks_eq hs (fun _ => id) fun b hb => ?_, hdrop]
    · rfl
    · have := hlen b hb
      omega
  · rw [sizeApprox, AtRest.blocksFrom_eq hs (by omega), Option.map_some,
      hrest.foldl_count_eq hs (fun _ => id) 0 (by decide), hdrop, Nat.zero_add, List.length_drop]

theorem destroy_of_run_relay : ∃ s : ReaderWriterQueue ℕ,
    Machine.run (step 2) relay (construct 2 1) = some s ∧
      ∃ n blocks, blocks.Perm (List.range s.made) ∧ ∀ fuel ≥ n,
        s.destroy fuel = some ((s.enqueued.drop (taken s.answers).length).map some, blocks) ∧
          s.sizeApprox fuel =
            some ((s.enqueued.length - (taken s.answers).length) % 2 ^ 64) := by
  obtain ⟨s, hrun, -, henqueuing, hdequeuing, -⟩ := run_relay
  exact ⟨s, hrun, destroy_of_run ⟨0, by decide, rfl⟩ Nat.one_pos (by decide) hrun
    ⟨Option.isNone_iff_eq_none.1 henqueuing, Option.isNone_iff_eq_none.1 hdequeuing⟩⟩

end ReaderWriterQueue

end Yasio
