import Mathlib.Data.List.Basic

/-!
# Writing into a block of cells

`overwrite m k d` is the block `m` after `d` was copied to its cells from `k` on.  The lemmas say
what the cells in front of the copy, behind it and under it are.
-/

namespace Memory

variable {α : Type*} {m a b d : List α} {k n : ℕ}

/-- The block with `d` in its cells from `k` on. -/
def overwrite (m : List α) (k : ℕ) (d : List α) : List α :=
  m.take k ++ d ++ m.drop (k + d.length)

@[simp] theorem overwrite_nil (m : List α) (k : ℕ) : overwrite m k [] = m := by
  simp [overwrite]

theorem length_overwrite (h : k + d.length ≤ m.length) :
    (overwrite m k d).length = m.length := by
  simp only [overwrite, List.length_append, List.length_take, List.length_drop]
  omega

theorem le_length_overwrite : m.length ≤ (overwrite m k d).length := by
  simp only [overwrite, List.length_append, List.length_take, List.length_drop]
  omega

/-- The cells in front of the copy and under it. -/
theorem take_overwrite (h : k ≤ m.length) :
    (overwrite m k d).take (k + d.length) = m.take k ++ d := by
  have hlen : (m.take k ++ d).length = k + d.length := by
    rw [List.length_append, List.length_take, Nat.min_eq_left h]
  unfold overwrite
  rw [← hlen, List.take_left]

/-- The cells behind the copy. -/
theorem drop_overwrite (h : k ≤ m.length) (hn : k + d.length ≤ n) :
    (overwrite m k d).drop n = m.drop n := by
  have hlen : (m.take k ++ d).length = k + d.length := by
    rw [List.length_append, List.length_take, Nat.min_eq_left h]
  unfold overwrite
  rw [List.drop_append, hlen, List.drop_eq_nil_of_le (by omega), List.nil_append, List.drop_drop]
  congr 1
  omega

/-- A copy into the front part of a block. -/
theorem overwrite_append (h : k + d.length ≤ a.length) :
    overwrite (a ++ b) k d = overwrite a k d ++ b := by
  unfold overwrite
  rw [List.take_append_of_le_length (by omega), List.drop_append_of_le_length h,
    List.append_assoc _ _ b]

/-- The front part of a block, when the copy lies in it. -/
theorem take_overwrite_of_ge (h : k + d.length ≤ n) (hn : n ≤ m.length) :
    (overwrite m k d).take n = overwrite (m.take n) k d := by
  have hlen : (overwrite (m.take n) k d).length = n := by
    rw [length_overwrite (by rw [List.length_take]; omega), List.length_take]
    omega
  conv_lhs => rw [← List.take_append_drop n m]
  rw [overwrite_append (by rw [List.length_take]; omega), List.take_append_of_le_length (by omega),
    List.take_of_length_le (by omega)]

/-- The front part of a block, by what it was. -/
theorem take_overwrite_congr {m' : List α} (hn : n ≤ m.length) (hn' : n ≤ m'.length)
    (h : m.take n = m'.take n) : (overwrite m k d).take n = (overwrite m' k d).take n := by
  by_cases hk : n ≤ k
  · have hfront : ∀ l : List α, n ≤ l.length → (overwrite l k d).take n = l.take n := by
      intro l hl
      have hle : n ≤ (l.take k).length := by
        rw [List.length_take]
        omega
      unfold overwrite
      rw [List.append_assoc, List.take_append_of_le_length hle, List.take_take,
        Nat.min_eq_left hk]
    rw [hfront m hn, hfront m' hn', h]
  · by_cases hd : k + d.length ≤ n
    · rw [take_overwrite_of_ge hd hn, take_overwrite_of_ge hd hn', h]
    · have hfront : ∀ l : List α, n ≤ l.length →
          (overwrite l k d).take n = ((l.take n).take k ++ d).take n := by
        intro l hl
        have hle : n ≤ (l.take k ++ d).length := by
          rw [List.length_append, List.length_take]
          omega
        unfold overwrite
        rw [List.take_append_of_le_length hle, List.take_take, Nat.min_eq_left (by omega)]
      rw [hfront m hn, hfront m' hn', h]

/-- A copy over cells that stand between two parts. -/
theorem overwrite_between {z : List α} (h : z.length = d.length) :
    overwrite (a ++ z ++ b) a.length d = a ++ d ++ b := by
  have hfront : (a ++ z ++ b).take a.length = a := by
    rw [List.append_assoc, List.take_left]
  have hback : (a ++ z ++ b).drop (a.length + d.length) = b := by
    rw [← h, ← List.length_append, List.drop_left]
  rw [overwrite, hfront, hback]

/-- A cell behind the copy. -/
theorem getElem?_overwrite_of_ge (h : k + d.length ≤ n) (hk : k ≤ m.length) :
    (overwrite m k d)[n]? = m[n]? := by
  have hdrop := congrArg (·[0]?) (drop_overwrite hk h)
  simpa only [List.getElem?_drop, Nat.add_zero] using hdrop

/-- The cell that is written. -/
theorem getElem?_overwrite_singleton {x : α} (h : k ≤ m.length) :
    (overwrite m k [x])[k]? = some x := by
  have hlen : (m.take k).length = k := by
    rw [List.length_take, Nat.min_eq_left h]
  unfold overwrite
  rw [List.append_assoc, List.getElem?_append_right (Nat.le_of_eq hlen), hlen, Nat.sub_self]
  rfl

/-- A copy, and then one behind it. -/
theorem overwrite_overwrite_behind {e : List α} (h : k ≤ m.length) :
    overwrite (overwrite m k d) (k + d.length) e =
      m.take k ++ d ++ e ++ m.drop (k + d.length + e.length) := by
  rw [overwrite, take_overwrite h, drop_overwrite h (Nat.le_add_right _ _)]

/-- A copy to the end of a block. -/
theorem overwrite_end (h : k + d.length = m.length) : overwrite m k d = m.take k ++ d := by
  rw [overwrite, List.drop_eq_nil_of_le (Nat.le_of_eq h.symm), List.append_nil]

end Memory
