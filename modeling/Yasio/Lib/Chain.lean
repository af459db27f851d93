import Mathlib.Data.List.Basic

/-!
# Linked lists in memory

`m a` is the pointer that lies at the address `a`, if a whole one does: storing a pointer of `width`
bytes breaks those that it overlaps.  `Chain m p l q` follows the links from `p` over the addresses
of `l` to `q`.
-/

namespace Linked

variable {m m' : ℕ → Option ℕ} {width a b p q r v : ℕ} {l l' : List ℕ}

/-- So many bytes from one address on do not meet those from the other on. -/
def Apart (width a b : ℕ) : Prop := a + width ≤ b ∨ b + width ≤ a

instance (width a b : ℕ) : Decidable (Apart width a b) :=
  inferInstanceAs (Decidable (a + width ≤ b ∨ b + width ≤ a))

theorem Apart.symm (h : Apart width a b) : Apart width b a := Or.symm h

theorem Apart.mono (h : Apart width a b) {n : ℕ} (hn : n ≤ width) : Apart n a b :=
  h.imp (fun h => by omega) (fun h => by omega)

theorem Apart.ne (h : Apart width a b) (hwidth : 0 < width) : a ≠ b := by
  unfold Apart at h
  omega

/-- A pointer is stored. -/
def store (width a v : ℕ) (m : ℕ → Option ℕ) (b : ℕ) : Option ℕ :=
  if b = a then some v else if Apart width a b then m b else none

theorem store_same (width a v : ℕ) (m : ℕ → Option ℕ) : store width a v m a = some v := if_pos rfl

theorem store_of_apart (hwidth : 0 < width) (h : Apart width a b) : store width a v m b = m b := by
  rw [store, if_neg (h.ne hwidth).symm, if_pos h]

/-- The links lead from the first address over those of the list to the last. -/
def Chain (m : ℕ → Option ℕ) : ℕ → List ℕ → ℕ → Prop
  | p, [], q => p = q
  | p, x :: l, q => p = x ∧ x ≠ 0 ∧ ∃ next, m x = some next ∧ Chain m next l q

theorem Chain.congr (h : Chain m p l q) (hm : ∀ x ∈ l, m' x = m x) : Chain m' p l q := by
  induction l generalizing p with
  | nil => exact h
  | cons x l ih =>
    obtain ⟨rfl, hx, next, hnext, hl⟩ := h
    exact ⟨rfl, hx, next, (hm p List.mem_cons_self).trans hnext,
      ih hl fun y hy => hm y (List.mem_cons_of_mem p hy)⟩

theorem Chain.append (h : Chain m p l q) (h' : Chain m q l' r) : Chain m p (l ++ l') r := by
  induction l generalizing p with
  | nil =>
    obtain rfl : p = q := h
    exact h'
  | cons x l ih =>
    obtain ⟨rfl, hx, next, hnext, hl⟩ := h
    exact ⟨rfl, hx, next, hnext, ih hl⟩

theorem Chain.ne_zero (h : Chain m p l q) : ∀ x ∈ l, x ≠ 0 := by
  induction l generalizing p with
  | nil => exact fun x hx => absurd hx List.not_mem_nil
  | cons x l ih =>
    obtain ⟨-, hx, next, -, hl⟩ := h
    exact List.forall_mem_cons.2 ⟨hx, ih hl⟩

/-- A list that begins with a null pointer is empty. -/
theorem Chain.eq_nil (h : Chain m 0 l 0) : l = [] := by
  cases l with
  | nil => rfl
  | cons x l => exact absurd h.1.symm h.2.1

theorem Chain.exists_cons (h : Chain m p l 0) (hp : p ≠ 0) :
    ∃ l' next, l = p :: l' ∧ m p = some next ∧ Chain m next l' 0 := by
  cases l with
  | nil => exact absurd h hp
  | cons x l =>
    obtain ⟨rfl, -, next, hnext, hl⟩ := h
    exact ⟨l, next, rfl, hnext, hl⟩

/-- A store apart from the list does not break it. -/
theorem Chain.store (h : Chain m p l q) (hwidth : 0 < width) (hl : ∀ x ∈ l, Apart width a x) :
    Chain (store width a v m) p l q :=
  h.congr fun x hx => store_of_apart hwidth (hl x hx)

/-- The list grows by the address that it leads to. -/
theorem Chain.concat (h : Chain m p l a) (hwidth : 0 < width) (ha : a ≠ 0)
    (hl : ∀ x ∈ l, Apart width a x) : Chain (Linked.store width a v m) p (l ++ [a]) v :=
  (h.store hwidth hl).append ⟨rfl, ha, v, store_same width a v m, rfl⟩

/-- The list grows at the front. -/
theorem Chain.cons (h : Chain m p l q) (hwidth : 0 < width) (ha : a ≠ 0)
    (hl : ∀ x ∈ l, Apart width a x) : Chain (Linked.store width a p m) a (a :: l) q :=
  ⟨rfl, ha, p, store_same width a p m, h.store hwidth hl⟩

end Linked
