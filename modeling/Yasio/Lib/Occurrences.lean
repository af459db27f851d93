import Mathlib.Data.List.Infix

/-!
# Occurrences of a text in another

`occurrence` is the first place where a text stands in another, and `pieces` cuts the other text at
the occurrences that do not overlap, found from left to right.  The empty text stands in front of
each character and at the end.
-/

namespace Text

variable {α : Type*} [DecidableEq α] {needle l : List α} {i : ℕ}

/-- The first place where the text stands. -/
def occurrence (needle : List α) : List α → Option ℕ
  | [] => if needle = [] then some 0 else none
  | a :: l => if needle <+: a :: l then some 0 else (occurrence needle l).map (· + 1)

theorem occurrence_nil_left (l : List α) : occurrence [] l = some 0 := by
  cases l with
  | nil => rfl
  | cons a l => exact if_pos List.nil_prefix

theorem add_le_of_occurrence (h : occurrence needle l = some i) :
    i + needle.length ≤ l.length := by
  induction l generalizing i with
  | nil =>
    unfold occurrence at h
    split at h
    · next hnil =>
      obtain rfl := Option.some.inj h
      rw [hnil]
      exact Nat.le_refl 0
    · cases h
  | cons a l ih =>
    unfold occurrence at h
    split at h
    · next hprefix =>
      obtain rfl := Option.some.inj h
      rw [Nat.zero_add]
      exact hprefix.length_le
    · obtain ⟨j, hj, rfl⟩ := Option.map_eq_some_iff.1 h
      have hle := ih hj
      rw [List.length_cons]
      omega

theorem occurrence_of_short (h : l.length < needle.length) : occurrence needle l = none := by
  rw [Option.eq_none_iff_forall_ne_some]
  intro i hi
  have hle := add_le_of_occurrence hi
  omega

/-- What is left between the occurrences. -/
def pieces (needle l : List α) : List (List α) :=
  if hne : needle = [] then [] :: (l.map fun a => [a]) ++ [[]]
  else
    match _h : occurrence needle l with
    | none => [l]
    | some i => l.take i :: pieces needle (l.drop (i + needle.length))
termination_by l.length
decreasing_by
  have hle := add_le_of_occurrence _h
  have hpos := List.length_pos_iff.2 hne
  rw [List.length_drop]
  omega

theorem pieces_of_none (hne : needle ≠ []) (h : occurrence needle l = none) :
    pieces needle l = [l] := by
  rw [pieces, dif_neg hne]
  split
  · rfl
  · next hsome => cases h.symm.trans hsome

theorem pieces_of_some (hne : needle ≠ []) (h : occurrence needle l = some i) :
    pieces needle l = l.take i :: pieces needle (l.drop (i + needle.length)) := by
  rw [pieces, dif_neg hne]
  split
  · next hnone => cases h.symm.trans hnone
  · next j hj =>
    obtain rfl := Option.some.inj (hj.symm.trans h)
    rfl

theorem pieces_ne_nil (needle l : List α) : pieces needle l ≠ [] := by
  rw [pieces]
  split
  · exact List.cons_ne_nil _ _
  · split
    · exact List.cons_ne_nil _ _
    · exact List.cons_ne_nil _ _

/-- The text with its occurrences replaced, and how many they are. -/
def rewrite (needle new l : List α) : List α := new.intercalate (pieces needle l)

def occurrences (needle l : List α) : ℕ := (pieces needle l).length - 1

theorem rewrite_of_none (hne : needle ≠ []) (h : occurrence needle l = none) (new : List α) :
    rewrite needle new l = l := by
  rw [rewrite, pieces_of_none hne h]
  exact List.intercalate_singleton

theorem rewrite_of_some (hne : needle ≠ []) (h : occurrence needle l = some i) (new : List α) :
    rewrite needle new l = l.take i ++ new ++ rewrite needle new (l.drop (i + needle.length)) := by
  rw [rewrite, pieces_of_some hne h, List.intercalate_cons_of_ne_nil (pieces_ne_nil _ _)]
  rfl

theorem occurrences_of_none (hne : needle ≠ []) (h : occurrence needle l = none) :
    occurrences needle l = 0 := by
  rw [occurrences, pieces_of_none hne h]
  rfl

theorem occurrences_of_some (hne : needle ≠ []) (h : occurrence needle l = some i) :
    occurrences needle l = occurrences needle (l.drop (i + needle.length)) + 1 := by
  have hpos := List.length_pos_iff.2 (pieces_ne_nil needle (l.drop (i + needle.length)))
  rw [occurrences, occurrences, pieces_of_some hne h, List.length_cons]
  omega

end Text
