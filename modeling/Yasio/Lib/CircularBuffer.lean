import Mathlib.Data.List.Basic
import Mathlib.Logic.Function.Basic

/-!
# Circular buffers

A buffer of `size` cells is read from `front` on and written at `tail`; one cell stays free, so that
`front = tail` means that it is empty.  `Holds` says what stands in the cells while one thread
writes and another one reads: in `flight` is an element that is in its cell before `tail` has moved
on, and there is a `hole` when the first element is out of its cell and `front` has not moved on.
-/

namespace CircularBuffer

open Function

variable {α : Type*} {size front tail i j k m : ℕ} {data : ℕ → Option α} {hole : Bool}
  {xs flight : List α} {x : α}

/-- The cell that is `i` cells behind the first one. -/
def cell (hole : Bool) (xs : List α) (i : ℕ) : Option α :=
  if hole = true ∧ i = 0 then none else xs[i]?

structure Holds (size front tail : ℕ) (data : ℕ → Option α) (hole : Bool) (xs flight : List α) :
    Prop where
  front_lt : front < size
  length_lt : xs.length + flight.length < size
  tail_eq : tail = (front + xs.length) % size
  hole_imp : hole = true → xs ≠ []
  data_eq : ∀ i < size, data ((front + i) % size) = cell hole (xs ++ flight) i

/-! ## Positions -/

theorem add_mod_eq (hfront : front < size) (hi : i < size) :
    (front + i) % size = if front + i < size then front + i else front + i - size := by
  split
  · rename_i hlt
    exact Nat.mod_eq_of_lt hlt
  · rename_i hle
    rw [Nat.mod_eq_sub_mod (by omega), Nat.mod_eq_of_lt (by omega)]

theorem add_mod_inj (hfront : front < size) (hi : i < size) (hj : j < size) :
    (front + i) % size = (front + j) % size ↔ i = j := by
  rw [add_mod_eq hfront hi, add_mod_eq hfront hj]
  split_ifs <;> omega

theorem add_mod_eq_self (hfront : front < size) (hi : i < size) :
    (front + i) % size = front ↔ i = 0 := by
  rw [add_mod_eq hfront hi]
  split_ifs <;> omega

/-- A walk of at most one round comes back to where it began by a whole round alone. -/
theorem add_succ_mod_eq_self (hfront : front < size) (hi : i < size) :
    ((front + i) % size + 1) % size = front ↔ i + 1 = size := by
  rw [Nat.mod_add_mod, Nat.add_assoc]
  rcases Nat.lt_or_ge (i + 1) size with hlt | hge
  · rw [add_mod_eq_self hfront hlt]
    omega
  · have heq : i + 1 = size := by omega
    rw [heq, Nat.add_mod_right, Nat.mod_eq_of_lt hfront]
    exact iff_of_true rfl rfl

namespace Holds

theorem size_pos (h : Holds size front tail data hole xs flight) : 0 < size := by
  have := h.front_lt
  omega

theorem tail_eq_front_iff (h : Holds size front tail data hole xs flight) :
    tail = front ↔ xs = [] := by
  have := h.length_lt
  rw [h.tail_eq, add_mod_eq_self h.front_lt (by omega), List.length_eq_zero_iff]

theorem succ_tail_eq_front_iff (h : Holds size front tail data hole xs flight) :
    (tail + 1) % size = front ↔ xs.length + 1 = size := by
  have := h.length_lt
  rw [h.tail_eq, add_succ_mod_eq_self h.front_lt (by omega)]

theorem data_front (h : Holds size front tail data hole xs flight) :
    data front = cell hole (xs ++ flight) 0 := by
  have := h.data_eq 0 h.size_pos
  rwa [Nat.add_zero, Nat.mod_eq_of_lt h.front_lt] at this

theorem data_front_eq_head? (h : Holds size front tail data false xs flight) (hxs : xs ≠ []) :
    data front = xs.head? := by
  obtain ⟨x, xs', rfl⟩ := List.exists_cons_of_ne_nil hxs
  rw [h.data_front]
  rfl

/-! ## The steps of the two threads -/

/-- The writer finds a free cell and puts an element there. -/
theorem data_tail (h : Holds size front tail data hole xs []) : data tail = none := by
  have hlt : xs.length < size := by simpa using h.length_lt
  rw [h.tail_eq, h.data_eq _ hlt, cell]
  simp

theorem construct (h : Holds size front tail data hole xs []) (hroom : xs.length + 1 < size)
    (x : α) : Holds size front tail (update data tail (some x)) hole xs [x] := by
  refine ⟨h.front_lt, by simpa using hroom, h.tail_eq, h.hole_imp, fun i hi => ?_⟩
  rcases eq_or_ne i xs.length with rfl | hne
  · have hcell : ¬(hole = true ∧ xs.length = 0) := by
      rintro ⟨hhole, hlen⟩
      exact h.hole_imp hhole (List.length_eq_zero_iff.1 hlen)
    rw [← h.tail_eq, update_self, cell, if_neg hcell]
    simp
  · have hpos : (front + i) % size ≠ tail := by
      rw [h.tail_eq, Ne, add_mod_inj h.front_lt hi (by omega)]
      exact hne
    rw [update_of_ne hpos, h.data_eq i hi, cell, cell]
    congr 1
    rcases Nat.lt_or_gt_of_ne hne with hlt | hgt
    · rw [List.append_nil, List.getElem?_append_left hlt]
    · rw [List.getElem?_eq_none (by simp; omega), List.getElem?_eq_none (by simp; omega)]

/-- The writer moves `tail` on. -/
theorem publish (h : Holds size front tail data hole xs [x]) :
    Holds size front ((tail + 1) % size) data hole (xs ++ [x]) [] := by
  refine ⟨h.front_lt, by simpa using h.length_lt, ?_, fun _ => by simp, fun i hi => ?_⟩
  · rw [h.tail_eq, Nat.mod_add_mod, List.length_append]
    rfl
  · rw [h.data_eq i hi, List.append_nil]

/-- The reader takes the first element out of its cell. -/
theorem take (h : Holds size front tail data false xs flight) (hxs : xs ≠ []) :
    Holds size front tail (update data front none) true xs flight := by
  refine ⟨h.front_lt, h.length_lt, h.tail_eq, fun _ => hxs, fun i hi => ?_⟩
  rcases Nat.eq_zero_or_pos i with rfl | hpos
  · rw [Nat.add_zero, Nat.mod_eq_of_lt h.front_lt, update_self]
    rfl
  · have hne : (front + i) % size ≠ front := by
      rw [Ne, add_mod_eq_self h.front_lt hi]
      omega
    rw [update_of_ne hne, h.data_eq i hi, cell, cell, if_neg (by simp), if_neg (by simp; omega)]

/-- The reader moves `front` on. -/
theorem release (h : Holds size front tail data true (x :: xs) flight) :
    Holds size ((front + 1) % size) tail data false xs flight := by
  have hlen : xs.length + 1 + flight.length < size := by simpa using h.length_lt
  refine ⟨Nat.mod_lt _ h.size_pos, by omega, ?_, fun hhole => absurd hhole (by simp),
    fun i hi => ?_⟩
  · rw [h.tail_eq, Nat.mod_add_mod, List.length_cons]
    congr 1
    omega
  · rw [Nat.mod_add_mod, Nat.add_right_comm, Nat.add_assoc]
    rcases Nat.lt_or_ge (i + 1) size with hlt | hge
    · rw [h.data_eq _ hlt, cell, cell, if_neg (by simp), if_neg (by simp)]
      rfl
    · -- the cell that was the first one is now the free one
      have heq : i + 1 = size := by omega
      rw [heq, Nat.add_mod_right, Nat.mod_eq_of_lt h.front_lt, h.data_front, cell,
        if_pos ⟨rfl, rfl⟩, cell, if_neg (by simp), List.getElem?_eq_none (by simp; omega)]

/-! ## Copies that lag behind -/

/-- An older `tail` other than `front` shows that there is something to read. -/
theorem ne_nil_of_older (h : Holds size front tail data hole xs flight) (hm : m ≤ xs.length)
    (hne : (front + m) % size ≠ front) : xs ≠ [] := by
  rintro rfl
  obtain rfl : m = 0 := by simpa using hm
  exact hne (Nat.mod_eq_of_lt h.front_lt)

/-- An older `front` that `tail` does not run into shows that there is room. -/
theorem room_of_older {older : ℕ} (h : Holds size front tail data hole xs flight)
    (holder : older < size) (hfront : front = (older + k) % size)
    (hlen : k + xs.length + flight.length < size) (hne : (tail + 1) % size ≠ older) :
    k + xs.length + 1 < size := by
  have htail : tail = (older + (k + xs.length)) % size := by
    rw [h.tail_eq, hfront, Nat.mod_add_mod, Nat.add_assoc]
  rw [htail, Ne, add_succ_mod_eq_self holder (by omega)] at hne
  omega

end Holds

/-! ## New buffers -/

theorem holds_nil (hsize : 0 < size) : Holds size 0 0 (fun _ => none) false ([] : List α) [] :=
  ⟨hsize, hsize, (Nat.zero_mod size).symm, fun h => absurd h (by simp), fun i _ => by simp [cell]⟩

theorem holds_singleton (hsize : 1 < size) (x : α) :
    Holds size 0 1 (update (fun _ => none) 0 (some x)) false [x] [] := by
  have h := ((holds_nil (by omega : 0 < size)).construct (by simpa using hsize) x).publish
  rwa [Nat.zero_add, Nat.mod_eq_of_lt hsize] at h

end CircularBuffer
