import Yasio.Service.Base
import Mathlib.Data.List.Nodup
import Mathlib.Data.List.Perm.Basic

/-!
# The pool of transports

The blocks that live and those that wait in `tpool_` are all different, whatever is connected,
released and cleared.
-/

namespace Yasio

open Function (update)

namespace Pool

variable {p : Pool} {b b' : Block} {n : ℕ}

/-! ## Operations -/

@[simp] theorem transports_allocate (built : Built) :
    (p.allocate built).transports = p.transports := rfl

@[simp] theorem transportMap_allocate (built : Built) :
    (p.allocate built).transportMap = p.transportMap := rfl

@[simp] theorem built_allocate_freshBlock (built : Built) :
    (p.allocate built).built p.freshBlock = { built with id := (p.objectId + 1) % 2 ^ 32 } :=
  Function.update_self _ _ _

theorem built_allocate_of_ne (built : Built) (h : b ≠ p.freshBlock) :
    (p.allocate built).built b = p.built b :=
  Function.update_of_ne h _ _

/-- `allocate_transport` and `active_transport`. -/
def connect (p : Pool) (built : Built) : Pool :=
  (p.allocate built).activate built.kind p.freshBlock

/-- `handle_close` of the transport at position `n`, and its removal. -/
def release (p : Pool) (n : ℕ) (b : Block) (kind : ℕ) (remote : Endpoint) : Pool :=
  { (p.detach kind remote).deallocate b with transports := p.transports.eraseIdx n }

/-- The entry that `do_dgram_accept` adds for the transport that it made. -/
def register (p : Pool) (peer : Endpoint) (b : Block) : Pool :=
  { p with transportMap := p.transportMap.emplace peer b, mapKey := update p.mapKey b (some peer) }

/-- `clear_transports` -/
def clear (p : Pool) : Pool :=
  { p with transports := [], tpool := p.transports.reverse ++ p.tpool, transportMap := [] }

@[simp] theorem transports_connect (built : Built) :
    (p.connect built).transports = p.transports ++ [p.freshBlock] := rfl

@[simp] theorem tpool_connect (built : Built) : (p.connect built).tpool = p.tpool.tail := rfl

@[simp] theorem transportMap_connect (built : Built) :
    (p.connect built).transportMap = p.transportMap := rfl

@[simp] theorem built_connect_freshBlock (built : Built) :
    (p.connect built).built p.freshBlock = { built with id := (p.objectId + 1) % 2 ^ 32 } :=
  built_allocate_freshBlock built

theorem built_connect_of_ne (built : Built) (h : b ≠ p.freshBlock) :
    (p.connect built).built b = p.built b :=
  built_allocate_of_ne built h

@[simp] theorem mapKey_connect_freshBlock (built : Built) :
    (p.connect built).mapKey p.freshBlock = none :=
  Function.update_self _ _ _

theorem mapKey_connect_of_ne (built : Built) (h : b ≠ p.freshBlock) :
    (p.connect built).mapKey b = p.mapKey b :=
  Function.update_of_ne h _ _

/-! ## The blocks are all different -/

/-- The blocks in use and in the pool are different, and all have been allocated. -/
structure Sound (p : Pool) : Prop where
  nodup : (p.transports ++ p.tpool).Nodup
  lt : ∀ b ∈ p.transports ++ p.tpool, b < p.nextBlock

theorem Sound.freshBlock_notMem (h : p.Sound) : p.freshBlock ∉ p.transports := by
  intro hmem
  cases ht : p.tpool with
  | nil =>
    have := h.lt _ (List.mem_append_left _ hmem)
    simp [freshBlock, ht] at this
  | cons b bs =>
    have hfresh : p.freshBlock = b := by simp [freshBlock, ht]
    have hdisj := List.disjoint_of_nodup_append h.nodup
    exact hdisj hmem (by rw [ht, hfresh]; exact List.mem_cons_self)

theorem Sound.ne_freshBlock (h : p.Sound) (hb : b ∈ p.transports) : b ≠ p.freshBlock := by
  rintro rfl
  exact h.freshBlock_notMem hb

theorem Sound.nodup_transports (h : p.Sound) : p.transports.Nodup :=
  (List.nodup_append.1 h.nodup).1

theorem Sound.connect (h : p.Sound) (built : Built) : (p.connect built).Sound := by
  have hnext :
      (p.connect built).nextBlock = if p.tpool = [] then p.nextBlock + 1 else p.nextBlock := rfl
  cases ht : p.tpool with
  | nil =>
    have hfresh : p.freshBlock = p.nextBlock := by simp [freshBlock, ht]
    rw [ht, if_pos rfl] at hnext
    constructor
    · rw [transports_connect, tpool_connect, ht, List.tail_nil, List.append_nil]
      exact List.Nodup.append h.nodup_transports (List.nodup_singleton _)
        (List.disjoint_singleton.2 h.freshBlock_notMem)
    · intro b hb
      rw [transports_connect, tpool_connect, ht, List.tail_nil, List.append_nil] at hb
      rw [hnext]
      rcases List.mem_append.1 hb with hb | hb
      · exact Nat.lt_succ_of_lt (h.lt b (List.mem_append_left _ hb))
      · rw [List.mem_singleton.1 hb, hfresh]
        exact Nat.lt_succ_self _
  | cons b bs =>
    have hfresh : p.freshBlock = b := by simp [freshBlock, ht]
    have heq : (p.connect built).transports ++ (p.connect built).tpool =
        p.transports ++ p.tpool := by
      simp [hfresh, ht]
    rw [ht, if_neg (List.cons_ne_nil b bs)] at hnext
    exact ⟨heq ▸ h.nodup, fun b' hb => by rw [hnext]; exact h.lt b' (heq ▸ hb)⟩

theorem nextBlock_le_connect (built : Built) : p.nextBlock ≤ (p.connect built).nextBlock := by
  change p.nextBlock ≤ if p.tpool = [] then p.nextBlock + 1 else p.nextBlock
  split
  · exact Nat.le_succ _
  · exact le_rfl

theorem Sound.freshBlock_lt (h : p.Sound) (built : Built) :
    p.freshBlock < (p.connect built).nextBlock :=
  (h.connect built).lt _ (by simp)

theorem Sound.release (h : p.Sound) (hb : p.transports[n]? = some b) (kind : ℕ)
    (remote : Endpoint) : (p.release n b kind remote).Sound := by
  have hn : n < p.transports.length := (List.getElem?_eq_some_iff.1 hb).1
  have hperm : ((p.release n b kind remote).transports ++ (p.release n b kind remote).tpool).Perm
      (p.transports ++ p.tpool) := by
    have hget : p.transports[n] = b := (List.getElem?_eq_some_iff.1 hb).2
    have := List.getElem_cons_eraseIdx_perm hn
    rw [hget] at this
    exact List.perm_middle.trans (this.append_right p.tpool)
  exact ⟨hperm.nodup_iff.2 h.nodup, fun b' hb' => h.lt b' (hperm.mem_iff.1 hb')⟩

theorem Sound.clear (h : p.Sound) : p.clear.Sound := by
  have hperm : (p.clear.transports ++ p.clear.tpool).Perm (p.transports ++ p.tpool) :=
    (List.reverse_perm _).append_right p.tpool
  exact ⟨hperm.nodup_iff.2 h.nodup, fun b' hb' => h.lt b' (hperm.mem_iff.1 hb')⟩

theorem mem_release (h : p.Sound) (hb : p.transports[n]? = some b) {kind : ℕ} {remote : Endpoint} :
    b' ∈ (p.release n b kind remote).transports ↔ b' ∈ p.transports ∧ b' ≠ b := by
  obtain ⟨hn, hget⟩ := List.getElem?_eq_some_iff.1 hb
  change b' ∈ p.transports.eraseIdx n ↔ _
  rw [← List.Nodup.erase_getElem h.nodup_transports n hn, hget, h.nodup_transports.mem_erase_iff]
  exact and_comm

end Pool

end Yasio
