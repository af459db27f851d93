import Mathlib.Algebra.Order.Ring.Int

/-!
# Integers in decimal

`ofInt` is what `%d` and `%lld` print.
-/

namespace Decimal

variable {n : ℤ} {c : Char}

/-- The digits of an integer, behind a minus if it is negative. -/
def ofInt (n : ℤ) : List Char :=
  if n < 0 then '-' :: Nat.toDigits 10 n.natAbs else Nat.toDigits 10 n.natAbs

theorem ofInt_natCast (n : ℕ) : ofInt n = Nat.toDigits 10 n := by
  rw [ofInt, if_neg (by omega), Int.natAbs_natCast]

theorem eq_or_isDigit_of_mem_ofInt (h : c ∈ ofInt n) : c = '-' ∨ c.isDigit = true := by
  have hdigits : c ∈ Nat.toDigits 10 n.natAbs → c.isDigit = true :=
    Nat.isDigit_of_mem_toDigits (by decide) (by decide)
  unfold ofInt at h
  split at h
  · exact (List.mem_cons.1 h).imp id hdigits
  · exact .inr (hdigits h)

theorem length_ofInt_le {k : ℕ} (hk : 0 < k) (h : n.natAbs < 10 ^ k) :
    (ofInt n).length ≤ k + 1 := by
  have hdigits : (Nat.toDigits 10 n.natAbs).length ≤ k :=
    (Nat.length_toDigits_le_iff (by decide) hk).2 h
  unfold ofInt
  split
  · exact Nat.succ_le_succ hdigits
  · omega

end Decimal
