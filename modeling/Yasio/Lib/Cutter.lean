import Mathlib.Data.List.Basic

/-!
# Cutting a stream into frames

A cutter looks at the front of a stream and says how long its first frame is, that no frame can
follow, or that more of the stream is needed.  `frames` cuts a stream from left to right and
`starts` lists the positions, as suffixes of the stream, at which the cutter is asked.
-/

/-- What a cutter says about the front of a stream. -/
inductive Cut
  | wait
  | fail
  | frame (n : ℕ)
  deriving DecidableEq, Repr

/-- A cutter whose frames are not empty and lie inside the stream that they are cut from. -/
structure Cutter (β : Type*) where
  cut : List β → Cut
  frame_pos {σ : List β} {n : ℕ} : cut σ = .frame n → 0 < n
  frame_le {σ : List β} {n : ℕ} : cut σ = .frame n → n ≤ σ.length

namespace Cutter

variable {β : Type*} (c : Cutter β)

/-- At most `k` frames of the stream, and the suffixes at which they and the rest start. -/
def scan : ℕ → List β → List (List β) × List (List β)
  | 0, σ => ([], [σ])
  | k + 1, σ =>
    match c.cut σ with
    | .frame n => (σ.take n :: (scan k (σ.drop n)).1, σ :: (scan k (σ.drop n)).2)
    | .wait | .fail => ([], [σ])

/-- The frames of a stream; no frame is empty, so there are at most as many as symbols. -/
def frames (σ : List β) : List (List β) := (c.scan σ.length σ).1

/-- The suffixes of a stream that start at a frame boundary. -/
def starts (σ : List β) : List (List β) := (c.scan σ.length σ).2

variable {c}

theorem cut_nil_ne_frame (n : ℕ) : c.cut [] ≠ .frame n := by
  intro h
  have h1 := c.frame_pos h
  have h2 := c.frame_le h
  simp only [List.length_nil] at h2
  omega

theorem scan_succ_nil (k : ℕ) : c.scan (k + 1) [] = ([], [[]]) := by
  cases h : c.cut [] with
  | frame n => exact absurd h (cut_nil_ne_frame n)
  | wait => simp [scan, h]
  | fail => simp [scan, h]

/-- As many rounds as the stream has symbols are enough. -/
theorem scan_eq_scan {k m : ℕ} {σ : List β} (hk : σ.length ≤ k) (hm : σ.length ≤ m) :
    c.scan k σ = c.scan m σ := by
  induction k generalizing m σ with
  | zero =>
    obtain rfl : σ = [] := List.length_eq_zero_iff.1 (by omega)
    cases m with
    | zero => rfl
    | succ m => rw [scan_succ_nil]; rfl
  | succ k ih =>
    cases m with
    | zero =>
      obtain rfl : σ = [] := List.length_eq_zero_iff.1 (by omega)
      rw [scan_succ_nil]; rfl
    | succ m =>
      cases h : c.cut σ with
      | wait => simp [scan, h]
      | fail => simp [scan, h]
      | frame n =>
        have hn := c.frame_pos h
        have hd : (σ.drop n).length = σ.length - n := List.length_drop
        simp only [scan, h]
        rw [ih (m := m) (by omega) (by omega)]

theorem scan_of_frame {σ : List β} {n : ℕ} (h : c.cut σ = .frame n) :
    c.scan σ.length σ = (σ.take n :: c.frames (σ.drop n), σ :: c.starts (σ.drop n)) := by
  have h1 := c.frame_pos h
  have h2 := c.frame_le h
  have hd : (σ.drop n).length = σ.length - n := List.length_drop
  obtain ⟨m, hm⟩ : ∃ m, σ.length = m + 1 := ⟨σ.length - 1, by omega⟩
  rw [hm]
  simp only [scan, h]
  rw [scan_eq_scan (m := (σ.drop n).length) (by omega) (Nat.le_refl _)]
  rfl

theorem frames_of_frame {σ : List β} {n : ℕ} (h : c.cut σ = .frame n) :
    c.frames σ = σ.take n :: c.frames (σ.drop n) := congrArg Prod.fst (scan_of_frame h)

theorem starts_of_frame {σ : List β} {n : ℕ} (h : c.cut σ = .frame n) :
    c.starts σ = σ :: c.starts (σ.drop n) := congrArg Prod.snd (scan_of_frame h)

theorem frames_of_fail {σ : List β} (h : c.cut σ = .fail) : c.frames σ = [] := by
  unfold frames
  cases σ.length with
  | zero => rfl
  | succ m => simp [scan, h]

theorem self_mem_starts (σ : List β) : σ ∈ c.starts σ := by
  unfold starts
  cases σ.length with
  | zero => simp [scan]
  | succ m => cases h : c.cut σ <;> simp [scan, h]

end Cutter
