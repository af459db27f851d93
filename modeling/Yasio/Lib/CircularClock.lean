import Mathlib.Data.Int.Init
import Mathlib.Algebra.Order.Ring.Int

/-!
# Order on a circular clock

A clock that counts modulo `2 * w` has reached a time when it is less than `w` ahead of it.  Between
two counts that are less than `w` apart this is their order, however often the clock has wrapped.
-/

namespace CircularClock

/-- The clock at `c` has reached `d`: it is at `d` or less than half a turn after it. -/
def Reached (w : ℕ) (d c : ℤ) : Prop := (c - d) % (2 * w) < w

instance (w : ℕ) (d c : ℤ) : Decidable (Reached w d c) := inferInstanceAs (Decidable (_ < _))

variable {w : ℕ} {d c : ℤ}

/-- The test that stores the difference in a signed word of the width of the clock. -/
theorem bmod_nonneg_iff (hw : 0 < w) (x : ℤ) : 0 ≤ x.bmod (2 * w) ↔ x % (2 * w) < w := by
  have hlt : x % (2 * w : ℤ) < 2 * w := Int.emod_lt_of_pos x (by omega)
  have hnonneg : 0 ≤ x % (2 * w : ℤ) := Int.emod_nonneg x (by omega)
  rw [Int.bmod_def]
  simp only [Nat.cast_mul, Nat.cast_ofNat]
  split_ifs <;> omega

theorem reached_iff_bmod (hw : 0 < w) : Reached w d c ↔ 0 ≤ (c - d).bmod (2 * w) :=
  (bmod_nonneg_iff hw _).symm

/-- Only the positions on the clock count. -/
theorem reached_emod_emod : Reached w (d % (2 * w)) (c % (2 * w)) ↔ Reached w d c := by
  unfold Reached
  rw [Int.emod_sub_emod, Int.sub_emod_emod]

theorem reached_zero : Reached w 0 c ↔ c % (2 * w) < w := by
  unfold Reached
  rw [Int.sub_zero]

/-- Within the window the circular order is the order of the counts. -/
theorem reached_iff_le (h1 : d - w ≤ c) (h2 : c < d + w) : Reached w d c ↔ d ≤ c := by
  unfold Reached
  constructor
  · intro h
    by_contra hlt
    have hturn : (c - d) % (2 * w) = c - d + 2 * w := by
      rw [← Int.add_emod_right]
      exact Int.emod_eq_of_lt (by omega) (by omega)
    omega
  · intro h
    rw [Int.emod_eq_of_lt (by omega) (by omega)]
    omega

end CircularClock
