import Yasio.RefPtr

/-!
# The release of an object

An object whose count becomes zero is deleted, and its members release what they hold.
-/

namespace Yasio

namespace RefWorld

variable {ν ο : Type} {s s' : RefWorld ν ο} {p : Option ο} {v w : ν} {x : ο}

/-! ## The members of a deleted object -/

section

variable [DecidableEq ν] {us : List ν}

theorem Kept.dropAll (h : s.Kept) (us : List ν) : (dropAll us s).Kept := by
  induction us generalizing s with
  | nil => exact h
  | cons u us ih => exact ih (h.setPtr u none)

theorem strongRefs_setPtr (v : ν) (q : Option (Option ο)) (s : RefWorld ν ο) :
    (setPtr v q s).strongRefs = s.strongRefs := rfl

theorem raw_dropAll (us : List ν) (s : RefWorld ν ο) : (dropAll us s).raw = s.raw := by
  induction us generalizing s with
  | nil => rfl
  | cons u us ih => exact ih (setPtr u none s)

theorem strongRefs_dropAll (us : List ν) (s : RefWorld ν ο) :
    (dropAll us s).strongRefs = s.strongRefs := by
  induction us generalizing s with
  | nil => rfl
  | cons u us ih => exact ih (setPtr u none s)

theorem heldBy_setPtr (hv : v ∉ us) (q : Option (Option ο)) :
    (setPtr v q s).heldBy us = s.heldBy us := by
  refine List.filterMap_congr fun u hu => ?_
  rw [get_setPtr, Function.update_of_ne]
  rintro rfl
  exact hv hu

theorem dropAll_setPtr (hv : v ∉ us) (q : Option (Option ο)) :
    dropAll us (setPtr v q s) = setPtr v q (dropAll us s) := by
  induction us generalizing s with
  | nil => rfl
  | cons u us ih =>
    rw [List.mem_cons, not_or] at hv
    have hcomm : setPtr u none (setPtr v q s) = setPtr v q (setPtr u none s) := by
      unfold setPtr
      rw [Function.update_comm (Ne.symm hv.1)]
    unfold dropAll
    rw [hcomm, ih hv.2]

theorem not_has_setPtr : ¬ (setPtr v none s).Has v := by
  intro h
  have hnone : (setPtr v none s).ptrs v = none := Function.update_self _ _ _
  rw [Has, hnone] at h
  cases h

theorem has_setPtr_of_ne {u : ν} (hv : v ≠ u) {q : Option (Option ο)} :
    (setPtr u q s).Has v ↔ s.Has v := by
  have hsame : (setPtr u q s).ptrs v = s.ptrs v := Function.update_of_ne hv _ _
  rw [Has, Has, hsame]

theorem ptrs_dropAll (hv : v ∉ us) : (dropAll us s).ptrs v = s.ptrs v := by
  induction us generalizing s with
  | nil => rfl
  | cons u us ih =>
    rw [List.mem_cons, not_or] at hv
    exact (ih hv.2).trans (Function.update_of_ne hv.1 _ _)

theorem alive_dropAll (us : List ν) (s : RefWorld ν ο) : (dropAll us s).alive = s.alive := by
  induction us generalizing s with
  | nil => rfl
  | cons u us ih => exact ih (setPtr u none s)

theorem has_dropAll (h : (dropAll us s).Has v) : v ∉ us ∧ s.Has v := by
  induction us generalizing s with
  | nil => exact ⟨List.not_mem_nil, h⟩
  | cons u us ih =>
    obtain ⟨hus, hhas⟩ := ih (s := setPtr u none s) h
    have hne : v ≠ u := by
      rintro rfl
      exact not_has_setPtr hhas
    exact ⟨List.not_mem_cons_of_ne_of_not_mem hne hus, (has_setPtr_of_ne hne).1 hhas⟩

/-- How many `ref_ptr`s there are. -/
def present [Fintype ν] (s : RefWorld ν ο) : ℕ := (Finset.univ.filter fun v => s.Has v).card

/-- Each of the pointers that destroyed `ref_ptr`s held comes from one of them. -/
theorem length_heldBy_add_present [Fintype ν] (hnodup : us.Nodup) :
    (s.heldBy us).length + (dropAll us s).present ≤ s.present := by
  induction us generalizing s with
  | nil => exact Nat.le_of_eq (Nat.zero_add _)
  | cons u us ih =>
    obtain ⟨hu, hnodup⟩ := List.nodup_cons.1 hnodup
    have hrest := ih (s := setPtr u none s) hnodup
    rw [heldBy_setPtr hu] at hrest
    have hless : (Finset.univ.filter fun v => (setPtr u none s).Has v) =
        (Finset.univ.filter fun v => s.Has v).erase u := by
      ext v
      simp only [Finset.mem_filter, Finset.mem_erase, Finset.mem_univ, true_and]
      by_cases hv : v = u
      · subst hv
        exact iff_of_false not_has_setPtr fun h => h.1 rfl
      · rw [has_setPtr_of_ne hv, and_iff_right hv]
    have hsub : (setPtr u none s).present ≤ s.present := by
      unfold present
      rw [hless]
      exact Finset.card_erase_le
    unfold heldBy dropAll
    cases hget : s.get u with
    | none =>
      rw [List.filterMap_cons_none hget]
      exact hrest.trans hsub
    | some x =>
      have hhas : u ∈ Finset.univ.filter fun v => s.Has v := by
        refine Finset.mem_filter.2 ⟨Finset.mem_univ u, ?_⟩
        by_contra hnot
        rw [get_of_not_has hnot] at hget
        cases hget
      have hcard : (setPtr u none s).present + 1 = s.present := by
        unfold present
        rw [hless]
        exact Finset.card_erase_add_one hhas
      rw [List.filterMap_cons_some hget, List.length_cons]
      unfold heldBy at hrest
      omega

variable [Fintype ν] [DecidableEq ο]

theorem held_add_count (p : Option ο) (xs : List ο) :
    held p x + xs.count x = (p.toList ++ xs).count x := by
  cases p with
  | none => exact Nat.zero_add _
  | some y =>
    rw [Option.toList_some, List.singleton_append, List.count_cons, Nat.add_comm]
    congr 1
    unfold held
    by_cases hy : y = x
    · simp [hy]
    · simp [hy]

/-- The references of destroyed members are those of the calls that they add. -/
theorem excess_dropAll (hnodup : us.Nodup) :
    (dropAll us s).excess x = s.excess x + (s.heldBy us).count x := by
  induction us generalizing s with
  | nil => exact (add_zero _).symm
  | cons u us ih =>
    obtain ⟨hu, hnodup⟩ := List.nodup_cons.1 hnodup
    have hrest := ih (s := setPtr u none s) hnodup
    have hcount : (s.heldBy (u :: us)).count x = held (s.get u) x + (s.heldBy us).count x := by
      rw [held_add_count]
      congr 1
      unfold heldBy
      cases hget : s.get u with
      | none => rw [List.filterMap_cons_none hget]; rfl
      | some y => rw [List.filterMap_cons_some hget]; rfl
    rw [heldBy_setPtr hu, excess_setPtr, Option.join_none, held_of_ne (p := none) nofun] at hrest
    rw [hcount]
    change (dropAll us (setPtr u none s)).excess x = _
    omega

/-! ## A call of `release()` with all that it leads to -/

variable {m : Layout ν ο}

/-- The references that the calls give back are gone. -/
structure Released (xs : List ο) (s s' : RefWorld ν ο) : Prop where
  kept : s'.Kept
  excess : ∀ x, s'.excess x = s.excess x - xs.count x
  le : ∀ x, s'.strongRefs x ≤ s.strongRefs x

theorem releaseAll_released (m : Layout ν ο) {n : ℕ} {xs : List ο}
    (hfuel : xs.length + s.present ≤ n) (h : s.Kept)
    (hcover : ∀ x, (xs.count x : ℤ) ≤ s.excess x) : Released xs s (releaseAll m n xs s) := by
  induction n generalizing xs s with
  | zero =>
    obtain rfl : xs = [] := List.eq_nil_of_length_eq_zero (by omega)
    exact ⟨h, fun x => (sub_zero _).symm, fun x => le_rfl⟩
  | succ n ih =>
    cases xs with
    | nil => exact ⟨h, fun x => (sub_zero _).symm, fun x => le_rfl⟩
    | cons y xs =>
      have hcount : ∀ x, (y :: xs).count x = held (some y) x + xs.count x :=
        fun x => (held_add_count (some y) xs).symm
      have hpos : 0 < s.strongRefs y := by
        have hle := hcover y
        rw [hcount, held_of_eq rfl] at hle
        unfold RefWorld.excess at hle
        omega
      have hkept := h.releaseObj hpos
      have hexcess := fun x => excess_releaseObj (x := x) h hpos
      have hpresent : (releaseObj y s).present = s.present := rfl
      have hle : ∀ x, (releaseObj y s).strongRefs x ≤ s.strongRefs x := by
        intro x
        have hx := strongRefs_releaseObj (x := x) h hpos
        omega
      rw [List.length_cons] at hfuel
      unfold releaseAll
      dsimp only
      split
      · -- the object is deleted
        have hnodup := m.nodup_members y
        have hplaces := length_heldBy_add_present (s := releaseObj y s) hnodup
        have hdrop := fun x => excess_dropAll (x := x) (s := releaseObj y s) hnodup
        have hrest := @ih (dropAll (m.members y) (releaseObj y s))
          ((releaseObj y s).heldBy (m.members y) ++ xs) ?_ (hkept.dropAll _) ?_
        · refine ⟨hrest.kept, fun x => ?_, fun x => (hrest.le x).trans ?_⟩
          · rw [hrest.excess, hdrop, hexcess, List.count_append, hcount]
            omega
          · rw [strongRefs_dropAll]
            exact hle x
        · rw [List.length_append]
          omega
        · intro x
          have hx := hcover x
          rw [hcount] at hx
          rw [List.count_append, hdrop, hexcess]
          omega
      · have hrest := @ih (releaseObj y s) xs (by omega) hkept ?_
        · refine ⟨hrest.kept, fun x => ?_, fun x => (hrest.le x).trans (hle x)⟩
          rw [hrest.excess, hexcess, hcount]
          omega
        · intro x
          have hx := hcover x
          rw [hcount] at hx
          rw [hexcess]
          omega

omit [Fintype ν] in
theorem releaseObj_setPtr (y : ο) (v : ν) (q : Option (Option ο)) (s : RefWorld ν ο) :
    releaseObj y (setPtr v q s) = setPtr v q (releaseObj y s) := by
  unfold releaseObj
  dsimp only [setPtr]
  split
  · rfl
  · rfl

omit [Fintype ν] in
/-- A `ref_ptr` that is not destroyed plays no part in it. -/
theorem releaseAll_setPtr {n : ℕ} {xs : List ο} (q : Option (Option ο))
    (h : (releaseAll m n xs s).Has v) :
    s.Has v ∧ releaseAll m n xs (setPtr v q s) = setPtr v q (releaseAll m n xs s) := by
  induction n generalizing xs s with
  | zero => exact ⟨h, rfl⟩
  | succ n ih =>
    cases xs with
    | nil => exact ⟨h, rfl⟩
    | cons y xs =>
      unfold releaseAll at h ⊢
      dsimp only at h ⊢
      rw [releaseObj_setPtr, strongRefs_setPtr]
      split
      · next hzero =>
        rw [if_pos hzero] at h
        obtain ⟨hhas, heq⟩ := ih h
        obtain ⟨hmem, hhas⟩ := has_dropAll hhas
        refine ⟨hhas, ?_⟩
        rw [heldBy_setPtr hmem, dropAll_setPtr hmem]
        exact heq
      · next hzero =>
        rw [if_neg hzero] at h
        exact ih h

omit [Fintype ν] in
theorem fault_releaseAll {n : ℕ} {xs : List ο} (h : s.fault = true) :
    (releaseAll m n xs s).fault = true := by
  have hobj : ∀ (y : ο) (s : RefWorld ν ο), s.fault = true → (releaseObj y s).fault = true :=
    fun y s h => Bool.or_eq_true_iff.2 (.inl h)
  have hdrop : ∀ (us : List ν) (s : RefWorld ν ο), (dropAll us s).fault = s.fault := by
    intro us
    induction us with
    | nil => exact fun _ => rfl
    | cons u us ih => exact fun s => ih (setPtr u none s)
  induction n generalizing xs s with
  | zero => exact h
  | succ n ih =>
    cases xs with
    | nil => exact h
    | cons y xs =>
      unfold releaseAll
      dsimp only
      split
      · exact ih ((hdrop _ _).trans (hobj y s h))
      · exact ih (hobj y s h)

omit [Fintype ν] [DecidableEq ν] in
theorem count_toList (p : Option ο) : p.toList.count x = held p x := by
  rw [← List.append_nil p.toList, ← held_add_count, List.count_nil, Nat.add_zero]

theorem safeRelease_released (m : Layout ν ο) (h : s.Kept)
    (hcover : ∀ x, (held p x : ℤ) ≤ s.excess x) : Released p.toList s (safeRelease m p s) := by
  refine releaseAll_released m ?_ h fun x => ?_
  · have hlength : p.toList.length ≤ 1 := by cases p <;> simp
    have hpresent : s.present ≤ Fintype.card ν := Finset.card_filter_le _ _
    omega
  · rw [count_toList]
    exact hcover x

/-! ## What is kept alive -/

/-- A member is there as long as its object. -/
def Housed (m : Layout ν ο) (s : RefWorld ν ο) : Prop := ∀ u, s.Has u → ∀ x ∈ m.owner u, s.alive x

/-- Each object of the set has a reference of its own, or is held by a `ref_ptr` that is no member
of an object outside. -/
def Rooted (m : Layout ν ο) (r : ο → ℕ) (S : Set ο) (s : RefWorld ν ο) : Prop :=
  ∀ x ∈ S, 0 < r x ∨ ∃ u, s.get u = some x ∧ ∀ z ∈ m.owner u, z ∈ S

omit [Fintype ν] [DecidableEq ν] in
theorem alive_releaseObj_of_ne {y : ο} (hne : x ≠ y) : (releaseObj y s).alive x = s.alive x := by
  unfold alive releaseObj
  dsimp only
  split
  · rw [Function.update_of_ne hne]
  · rfl

omit [Fintype ν] [DecidableEq ν] in
theorem alive_releaseObj {y : ο} (hcount : (releaseObj y s).strongRefs y ≠ 0) :
    (releaseObj y s).alive = s.alive := by
  have hcount' : (s.strongRefs y + (2 ^ 32 - 1)) % 2 ^ 32 ≠ 0 := by
    intro hzero
    exact hcount ((Function.update_self y _ _).trans hzero)
  unfold releaseObj
  dsimp only
  rw [if_neg hcount']
  rfl

omit [Fintype ν] in
theorem Housed.releaseAll {n : ℕ} {xs : List ο} (h : s.Housed m) :
    (releaseAll m n xs s).Housed m := by
  induction n generalizing xs s with
  | zero => exact h
  | succ n ih =>
    cases xs with
    | nil => exact h
    | cons y xs =>
      unfold RefWorld.releaseAll
      dsimp only
      split
      · refine ih fun u hu x hx => ?_
        obtain ⟨hmem, hu⟩ := has_dropAll hu
        have hne : x ≠ y := by
          rintro rfl
          exact hmem (m.mem_members.2 hx)
        rw [alive_dropAll, alive_releaseObj_of_ne hne]
        exact h u hu x hx
      · next hcount =>
        refine ih fun u hu x hx => ?_
        rw [alive_releaseObj hcount]
        exact h u hu x hx

/-- An object of a rooted set is not deleted, nor are its members destroyed. -/
theorem Rooted.releaseAll {n : ℕ} {xs : List ο} {r : ο → ℕ} {S : Set ο} (h : s.Kept)
    (hcover : ∀ x, (r x : ℤ) + xs.count x ≤ s.excess x + s.raw x) (hroot : s.Rooted m r S) :
    (∀ x ∈ S, (releaseAll m n xs s).alive x) ∧
      ∀ u, s.Has u → (∀ z ∈ m.owner u, z ∈ S) → (RefWorld.releaseAll m n xs s).Has u := by
  have hreferred : ∀ (s : RefWorld ν ο) (xs : List ο),
      (∀ x, (r x : ℤ) + xs.count x ≤ s.excess x + s.raw x) → s.Rooted m r S →
      ∀ x ∈ S, 0 < s.strongRefs x := by
    intro s xs hcover hroot x hx
    have hle := hcover x
    unfold excess references at hle
    rcases hroot x hx with hr | ⟨u, hu, -⟩
    · omega
    · have hone : held (s.get u) x ≤ s.holders x :=
        Finset.single_le_sum (fun u _ => Nat.zero_le (held (s.get u) x)) (Finset.mem_univ u)
      rw [held_of_eq hu] at hone
      omega
  have hlive : ∀ x ∈ S, s.alive x := fun x hx => h.alive (hreferred s xs hcover hroot x hx)
  induction n generalizing xs s with
  | zero => exact ⟨hlive, fun u hu _ => hu⟩
  | succ n ih =>
    cases xs with
    | nil => exact ⟨hlive, fun u hu _ => hu⟩
    | cons y xs =>
      have hpos : 0 < s.strongRefs y := by
        have hle := hcover y
        have hone : 0 < (y :: xs).count y := List.count_pos_iff.2 List.mem_cons_self
        unfold excess references at hle
        omega
      have hkept := h.releaseObj hpos
      have hraw : (releaseObj y s).raw = s.raw := rfl
      have hcover' : ∀ x, (r x : ℤ) + xs.count x ≤
          (releaseObj y s).excess x + (releaseObj y s).raw x := by
        intro x
        have hx := hcover x
        have hcount : (y :: xs).count x = held (some y) x + xs.count x :=
          (held_add_count (some y) xs).symm
        rw [excess_releaseObj h hpos, hraw]
        omega
      have hroot' : (releaseObj y s).Rooted m r S := hroot
      unfold RefWorld.releaseAll
      dsimp only
      split
      · next hzero =>
        have hy : y ∉ S := fun hy =>
          Nat.ne_of_gt (hreferred _ _ hcover' hroot' y hy) hzero
        have hout : ∀ u, (∀ z ∈ m.owner u, z ∈ S) → u ∉ m.members y :=
          fun u hu hmem => hy (hu y (m.mem_members.1 hmem))
        have hcover'' : ∀ x, (r x : ℤ) + ((releaseObj y s).heldBy (m.members y) ++ xs).count x ≤
            (dropAll (m.members y) (releaseObj y s)).excess x +
              (dropAll (m.members y) (releaseObj y s)).raw x := by
          intro x
          have hx := hcover' x
          rw [excess_dropAll (m.nodup_members y), raw_dropAll, List.count_append]
          omega
        have hroot'' : (dropAll (m.members y) (releaseObj y s)).Rooted m r S := by
          intro x hx
          refine (hroot' x hx).imp_right fun ⟨u, hu, hS⟩ => ⟨u, ?_, hS⟩
          unfold get
          rw [ptrs_dropAll (hout u hS)]
          exact hu
        have hkept' := hkept.dropAll (m.members y)
        have hlive' := fun x hx => hkept'.alive (hreferred _ _ hcover'' hroot'' x hx)
        obtain ⟨halive, hhas⟩ := ih hkept' hcover'' hroot'' hlive'
        refine ⟨halive, fun u hu hS => hhas u ?_ hS⟩
        unfold Has
        rw [ptrs_dropAll (hout u hS)]
        exact hu
      · exact ih hkept hcover' hroot' fun x hx =>
          hkept.alive (hreferred _ _ hcover' hroot' x hx)

end

end RefWorld

end Yasio
