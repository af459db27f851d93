import Yasio.PodContents

/-!
# The block of a vector

All cells of the block, also those behind the elements, and what the parts of the calls make of
them.
-/

namespace Yasio

open Throwing (exec)
open Memory (overwrite)

variable {α : Type} {sizeof : ℕ} {rest : Heap α} {s : PodState α} {c : List α}

/-- The block of the vector has these cells, and the blocks of `rest` are somewhere else. -/
structure PodState.Keeps (rest : Heap α) (s : PodState α) (c : List α) : Prop where
  block : (s.vec.first = none ∧ c = []) ∨ ∃ b, s.vec.first = some b ∧ s.heap b = some c
  apart : ∀ b cells, rest b = some cells → s.heap b = some cells ∧ s.vec.first ≠ some b

theorem PodState.Keeps.cells_eq (h : s.Keeps rest c) : s.cells = c := by
  obtain ⟨hfirst, rfl⟩ | ⟨b, hfirst, hcells⟩ := h.block
  · unfold PodState.cells
    rw [hfirst]
    rfl
  · exact PodState.cells_some hfirst hcells

theorem PodState.Has.keeps {l : List α} (h : s.Has sizeof rest l) : s.Keeps rest s.cells := by
  refine ⟨?_, h.apart⟩
  cases hfirst : s.vec.first with
  | none =>
    left
    refine ⟨rfl, ?_⟩
    unfold PodState.cells
    rw [hfirst]
    rfl
  | some b =>
    obtain ⟨cells, hcells⟩ := Option.isSome_iff_exists.1 (h.wellFormed.owns b hfirst)
    right
    refine ⟨b, rfl, ?_⟩
    rw [PodState.cells_some hfirst hcells]
    exact hcells

theorem PodState.Keeps.has (h : s.Keeps rest c) (hsize : s.vec.size ≤ s.vec.res)
    (hres : s.vec.res ≤ c.length) (hmax : s.vec.res ≤ PodVector.maxSize sizeof) :
    s.Has sizeof rest s.contents where
  wellFormed :=
    { owns := fun b hb => by
        obtain ⟨hfirst, -⟩ | ⟨b', hfirst, hcells⟩ := h.block
        · cases hfirst.symm.trans hb
        · obtain rfl := Option.some.inj (hfirst.symm.trans hb)
          rw [hcells]
          rfl
      size_le := hsize
      res_le := by rwa [h.cells_eq]
      res_le_max := hmax }
  contents_eq := rfl
  apart := h.apart

theorem PodState.Keeps.withSize (h : s.Keeps rest c) (n : ℕ) : (s.withSize n).Keeps rest c :=
  ⟨h.block, h.apart⟩

/-- What a copy from outside leaves. -/
def PodState.stored (s : PodState α) (offset : ℕ) (d : List α) : PodState α :=
  (exec (PodVector.store offset d) s).2

theorem PodState.vec_stored (offset : ℕ) (d : List α) : (s.stored offset d).vec = s.vec := by
  obtain ⟨⟨first, size, res⟩, heap⟩ := s
  cases first <;> rfl

theorem PodState.Keeps.stored (h : s.Keeps rest c) (offset : ℕ) (d : List α) :
    (s.stored offset d).Keeps rest (if s.vec.first.isSome then overwrite c offset d else c) := by
  obtain ⟨⟨first, size, res⟩, heap⟩ := s
  cases first with
  | none => exact h
  | some b =>
    obtain ⟨hfirst, -⟩ | ⟨b', hfirst, hcells⟩ := h.block
    · cases hfirst
    · obtain rfl := Option.some.inj hfirst
      refine ⟨.inr ⟨b, rfl, ?_⟩, fun b' cells hb' => ?_⟩
      · change Function.update heap b ((heap b).map fun cells => overwrite cells offset d) b = _
        rw [Function.update_self, show heap b = some c from hcells]
        rfl
      · obtain ⟨hheap, hne⟩ := h.apart b' cells hb'
        have hbb : b' ≠ b := fun hbb => hne (congrArg some hbb.symm)
        exact ⟨(Function.update_of_ne hbb _ _).trans hheap, hne⟩

/-- A new block for the vector. -/
def PodState.moved (s : PodState α) (b : ℕ) (cells : List α) (cap : ℕ) : PodState α where
  vec := { s.vec with first := some b, res := cap }
  heap := Function.update s.freed b (some cells)

theorem PodState.Keeps.moved_of_none (h : s.Keeps rest c) {b : ℕ} (hb : rest b = none)
    (cells : List α) (cap : ℕ) : (s.moved b cells cap).Keeps rest cells := by
  refine ⟨.inr ⟨b, rfl, Function.update_self ..⟩, fun b' cells' hb' => ?_⟩
  obtain ⟨hheap, hne⟩ := h.apart b' cells' hb'
  have hbb : b' ≠ b := by
    rintro rfl
    cases hb.symm.trans hb'
  refine ⟨(Function.update_of_ne hbb _ _).trans ?_, fun heq => hbb (Option.some.inj heq).symm⟩
  rw [PodState.freed_of_ne hne]
  exact hheap

theorem PodState.Keeps.moved (h : s.Keeps rest c) {b : ℕ}
    (hb : s.heap b = none ∨ s.vec.first = some b) (cells : List α) (cap : ℕ) :
    (s.moved b cells cap).Keeps rest cells := by
  refine h.moved_of_none ?_ cells cap
  rw [Option.eq_none_iff_forall_ne_some]
  intro cells' hcells
  obtain ⟨hheap, hne⟩ := h.apart b cells' hcells
  obtain hnone | hfirst := hb
  · cases hnone.symm.trans hheap
  · exact hne hfirst

theorem PodState.Keeps.freed (h : s.Keeps rest c) {b : ℕ} {cells : List α}
    (hb : rest b = some cells) : s.freed b = some cells := by
  obtain ⟨hheap, hne⟩ := h.apart b cells hb
  rwa [PodState.freed_of_ne hne]

/-- `_Tidy` leaves an empty vector. -/
theorem PodState.Has.exec_tidy {l : List α} (h : s.Has sizeof rest l) :
    exec PodVector.tidy s = (.ok (), ⟨{}, s.freed⟩) := by
  have hsize := h.wellFormed.size_le
  have hblock := h.block
  obtain ⟨⟨first, size, res⟩, heap⟩ := s
  cases first with
  | none =>
    obtain ⟨-, hres⟩ | ⟨b, hfirst, -⟩ := hblock
    · obtain rfl : res = 0 := hres
      obtain rfl : size = 0 := Nat.le_zero.1 hsize
      rfl
    · cases hfirst
  | some b => rfl

end Yasio
