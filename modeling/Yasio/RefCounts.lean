import Mathlib.Data.Fintype.Powerset
import Yasio.RefRelease

/-!
# The counts of `ref_ptr`s
-/

namespace Yasio

namespace RefWorld

variable {ν ο : Type} [DecidableEq ν] [DecidableEq ο] [Fintype ν] {m : Layout ν ο}
  {s s' t : RefWorld ν ο} {p : Option ο} {v w : ν} {x : ο} {a : RefOp ν ο}

/-- No count is below the number of the references. -/
structure Sound (s : RefWorld ν ο) : Prop where
  kept : s.Kept
  le : ∀ x, 0 ≤ s.excess x

omit [DecidableEq ν] in
theorem Sound.pos_of_get (h : s.Sound) : ∀ x ∈ s.get v, 0 < s.strongRefs x := by
  intro x hx
  have hle := h.le x
  have hone : held (s.get v) x ≤ s.holders x :=
    Finset.single_le_sum (fun u _ => Nat.zero_le (held (s.get u) x)) (Finset.mem_univ v)
  rw [held_of_eq hx] at hone
  unfold excess references at hle
  omega

omit [DecidableEq ν] in
theorem Sound.pos_of_owns (h : s.Sound) (howns : s.Owns p) : ∀ x ∈ p, 0 < s.strongRefs x := by
  intro x hx
  have hle := h.le x
  have hraw := howns x hx
  unfold excess references at hle
  omega

/-! ## What a left-hand side lets go -/

omit [Fintype ν] in
theorem raw_releaseAll {n : ℕ} {xs : List ο} : (releaseAll m n xs s).raw = s.raw := by
  induction n generalizing xs s with
  | zero => rfl
  | succ n ih =>
    cases xs with
    | nil => rfl
    | cons y xs =>
      unfold releaseAll
      dsimp only
      split
      · rw [ih, raw_dropAll]
        rfl
      · exact ih

omit [Fintype ν] in
theorem ptrs_releaseAll {n : ℕ} {xs : List ο} (h : (releaseAll m n xs s).Has v) :
    (releaseAll m n xs s).ptrs v = s.ptrs v := by
  have hsame : setPtr v (s.ptrs v) s = s := by
    unfold setPtr
    rw [Function.update_eq_self]
  have heq := (releaseAll_setPtr (s.ptrs v) h).2
  rw [hsame] at heq
  rw [heq]
  exact Function.update_self _ _ _

omit [DecidableEq ν] [DecidableEq ο] [Fintype ν] in
theorem has_of_get (h : s.get v = some x) : s.Has v := by
  by_contra hnot
  rw [get_of_not_has hnot] at h
  cases h

omit [Fintype ν] [DecidableEq ο] in
theorem Housed.setPtr (h : s.Housed m) (hfree : ∀ x ∈ m.owner v, s.alive x)
    (q : Option (Option ο)) : (setPtr v q s).Housed m := by
  intro u hu
  by_cases huv : u = v
  · subst huv
    exact hfree
  · exact h u ((has_setPtr_of_ne huv).1 hu)

/-- The `ref_ptr` is not destroyed with the object that it lets go. -/
def Outlives (m : Layout ν ο) (s : RefWorld ν ο) (v : ν) : Prop :=
  (safeRelease m (s.get v) s).Has v

/-- The state once `v` has let go. -/
def letGo (m : Layout ν ο) (v : ν) (s : RefWorld ν ο) : RefWorld ν ο :=
  safeRelease m (s.get v) (setPtr v (some none) s)

omit [DecidableEq ο] [Fintype ν] in
theorem has_setPtr_some (p : Option ο) : (setPtr v (some p) s).Has v := by
  have hsome : (setPtr v (some p) s).ptrs v = some p := Function.update_self _ _ _
  rw [Has, hsome]
  rfl

theorem letGo_eq (h : s.Outlives m v) :
    letGo m v s = setPtr v (some none) (safeRelease m (s.get v) s) :=
  (releaseAll_setPtr (some none) h).2

theorem outlives_iff (hhas : s.Has v) : s.Outlives m v ↔ (letGo m v s).Has v := by
  constructor
  · intro h
    rw [letGo_eq h]
    exact has_setPtr_some none
  · intro h
    have hsame : setPtr v (s.ptrs v) (setPtr v (some none) s) = s := by
      simp only [setPtr, Function.update_idem, Function.update_eq_self]
    have heq := (releaseAll_setPtr (s.ptrs v) h).2
    rw [hsame] at heq
    have hptrs : (safeRelease m (s.get v) s).ptrs v = s.ptrs v := by
      unfold safeRelease
      rw [heq]
      exact Function.update_self _ _ _
    unfold Outlives Has
    rw [hptrs]
    exact hhas

theorem excess_letGo (v : ν) :
    (setPtr v (some none) s).excess x = s.excess x + held (s.get v) x := by
  have hnone : held (none : Option ο) x = 0 := rfl
  rw [excess_setPtr, Option.join_some, hnone]
  omega

/-- The references that are owned raw in `s` may be in flight already in `t`. -/
structure InFlight (s t : RefWorld ν ο) : Prop where
  sound : t.Sound
  get : t.get = s.get
  counted : ∀ x, t.strongRefs x = s.references x

omit [DecidableEq ν] in
theorem InFlight.excess (h : InFlight s t) (x : ο) : t.excess x + t.raw x = s.raw x := by
  have hx := h.counted x
  have hholders : t.holders x = s.holders x := by
    unfold holders
    rw [h.get]
  unfold RefWorld.excess
  unfold references at hx ⊢
  omega

theorem InFlight.get_setPtr (h : InFlight s t) (v u : ν) :
    (setPtr v (some none) t).get u = if u = v then none else s.get u := by
  rw [RefWorld.get_setPtr, h.get]
  exact Function.update_apply s.get v none u

theorem InFlight.rooted (h : InFlight s t) {S : Set ο}
    (hroot : ∀ x ∈ S, 0 < s.raw x ∨ ∃ u, u ≠ v ∧ s.get u = some x ∧ ∀ z ∈ m.owner u, z ∈ S) :
    (∀ x ∈ S, (letGo m v t).alive x = true) ∧ ((∀ z ∈ m.owner v, z ∈ S) → (letGo m v t).Has v) := by
  have hroot' : (setPtr v (some none) t).Rooted m s.raw S := by
    intro x hx
    refine (hroot x hx).imp_right fun ⟨u, hu, hux, hS⟩ => ⟨u, ?_, hS⟩
    rw [h.get_setPtr, if_neg hu, hux]
  have hcover : ∀ x, (s.raw x : ℤ) + (t.get v).toList.count x ≤
      (setPtr v (some none) t).excess x + (setPtr v (some none) t).raw x := by
    intro x
    have hx := h.excess x
    have hraw : (setPtr v (some none) t).raw x = t.raw x := rfl
    rw [count_toList, excess_letGo, hraw]
    omega
  obtain ⟨halive, hhas⟩ := hroot'.releaseAll (n := Fintype.card ν + 1)
    (h.sound.kept.setPtr v (some none)) hcover
  exact ⟨halive, hhas v (has_setPtr_some none)⟩

theorem letGo_released (m : Layout ν ο) (h : t.Sound) (v : ν) :
    Released (t.get v).toList (setPtr v (some none) t) (letGo m v t) := by
  refine safeRelease_released m (h.kept.setPtr v (some none)) fun x => ?_
  have hle := h.le x
  rw [excess_letGo]
  omega

theorem Housed.letGo (h : t.Housed m) (hhas : t.Has v) : (letGo m v t).Housed m :=
  (h.setPtr (h v hhas) (some none)).releaseAll

/-- The objects that are alive at the end have kept each other alive. -/
theorem InFlight.rooted_alive (h : InFlight s t) (hhoused : (letGo m v t).Housed m)
    (hx : (letGo m v t).alive x = true) :
    0 < s.raw x ∨
      ∃ u, u ≠ v ∧ s.get u = some x ∧ ∀ z ∈ m.owner u, (letGo m v t).alive z = true := by
  have hreleased := letGo_released m h.sound v
  have hpos : 0 < (letGo m v t).strongRefs x := hreleased.kept.pos_of_alive hx
  have hexcess : (letGo m v t).excess x = t.excess x := by
    refine (hreleased.excess x).trans ?_
    rw [excess_letGo, count_toList]
    omega
  have hraw : (letGo m v t).raw = t.raw := raw_releaseAll
  have hflight := h.excess x
  by_cases hzero : s.raw x = 0
  · have hholders : 0 < (letGo m v t).holders x := by
      rw [RefWorld.excess, references, hraw] at hexcess
      omega
    obtain ⟨u, -, hu⟩ := Finset.exists_ne_zero_of_sum_ne_zero (Nat.ne_of_gt hholders)
    have hux : (letGo m v t).get u = some x := by
      by_contra hne
      exact hu (held_of_ne hne)
    have hptrs : (setPtr v (some none) t).get u = some x := by
      rw [← hux]
      exact congrArg Option.join (ptrs_releaseAll (has_of_get hux)).symm
    rw [h.get_setPtr] at hptrs
    split at hptrs
    · cases hptrs
    · next huv => exact .inr ⟨u, huv, hptrs, hhoused u (has_of_get hux)⟩
  · exact .inl (Nat.pos_of_ne_zero hzero)

/-- An object survives exactly when its count does not become zero. -/
theorem InFlight.survives_iff (h : InFlight s t) (hhoused : t.Housed m) (hhas : t.Has v) {y : ο} :
    s.Survives m v y ↔ (letGo m v t).alive y = true := by
  constructor
  · rintro ⟨S, hy, hroot⟩
    exact (h.rooted hroot).1 y hy
  · intro halive
    exact ⟨{x | (letGo m v t).alive x = true}, halive,
      fun x hx => h.rooted_alive (hhoused.letGo hhas) hx⟩

/-- A `ref_ptr` outlives what it lets go exactly when its object survives. -/
theorem InFlight.outlives_iff (h : InFlight s t) (hhoused : t.Housed m) (hhas : t.Has v) :
    t.Outlives m v ↔ ∀ x ∈ m.owner v, s.Survives m v x := by
  rw [RefWorld.outlives_iff hhas]
  constructor
  · intro hv x hx
    exact (h.survives_iff hhoused hhas).2 (hhoused.letGo hhas v hv x hx)
  · intro hsurvives
    have hroot := fun x hx => h.rooted_alive (x := x) (hhoused.letGo hhas) hx
    exact (h.rooted hroot).2 fun x hx => (h.survives_iff hhoused hhas).1 (hsurvives x hx)

/-! ## Assignments -/

/-- What the object that the left-hand side lets go takes with it is not used any more. -/
def Unharmed (m : Layout ν ο) (s : RefWorld ν ο) : RefOp ν ο → Prop
  | .assign v w =>
    s.get v ≠ s.get w → s.Outlives m v ∧ ∀ x ∈ s.get w, (letGo m v s).alive x
  | .moveAssign v w =>
    (setPtr w (some none) s).get v ≠ s.get w → (setPtr w (some none) s).Outlives m v
  | .reset v p => s.get v ≠ p → (take p s).Outlives m v
  | _ => True

theorem resetPtr_of_eq (heq : s.get v = p) : resetPtr m v p s = s := by
  unfold resetPtr
  rw [if_neg (not_not.2 heq)]

theorem resetPtr_eq (hne : s.get v ≠ p) (hout : s.Outlives m v) :
    resetPtr m v p s = setPtr v (some p) (letGo m v s) := by
  have hhas : (safeRelease m (s.get v) s).Has v := hout
  unfold resetPtr
  rw [if_pos hne]
  dsimp only
  rw [letGo_eq hout, decide_eq_true hhas]
  simp only [setPtr, Function.update_idem, Bool.not_true, Bool.or_false]

theorem fault_resetPtr (hne : s.get v ≠ p) (hout : ¬ s.Outlives m v) :
    (resetPtr m v p s).fault = true := by
  have hgone : ¬ (safeRelease m (s.get v) s).Has v := hout
  unfold resetPtr
  rw [if_pos hne]
  change ((safeRelease m (s.get v) s).fault || !decide ((safeRelease m (s.get v) s).Has v)) = true
  rw [decide_eq_false hgone]
  exact Bool.or_true _

/-- The pointer is stored, and its reference taken over, unless it is there already. -/
theorem Sound.resetPtr (h : s.Sound) (hout : s.get v ≠ p → s.Outlives m v) :
    (resetPtr m v p s).Kept ∧
      (∀ x, (resetPtr m v p s).excess x =
        s.excess x - (if s.get v = p then 0 else held p x : ℕ)) ∧
      ∀ x, (resetPtr m v p s).strongRefs x ≤ s.strongRefs x := by
  by_cases heq : s.get v = p
  · rw [resetPtr_of_eq heq]
    refine ⟨h.kept, fun x => ?_, fun x => le_rfl⟩
    rw [if_pos heq]
    exact (sub_zero (s.excess x)).symm
  · have hreleased := letGo_released m h v
    have hget : (letGo m v s).get v = none := by
      rw [letGo_eq (hout heq), get_setPtr, Function.update_self]
      rfl
    rw [resetPtr_eq heq (hout heq)]
    refine ⟨hreleased.kept.setPtr v (some p), fun x => ?_, hreleased.le⟩
    have hnone : held (none : Option ο) x = 0 := rfl
    rw [excess_setPtr, hget, hreleased.excess, excess_letGo, count_toList, if_neg heq, hnone,
      Option.join_some]
    omega

theorem get_resetPtr (m : Layout ν ο) (v : ν) (p : Option ο) (s : RefWorld ν ο) :
    (resetPtr m v p s).get v = p := by
  unfold resetPtr
  split
  · rw [get_setPtr, Option.join_some, Function.update_self]
  · next heq => exact not_not.1 heq

/-- The references that an operation leaves without an owner. -/
def leaked (s : RefWorld ν ο) : RefOp ν ο → ο → ℕ
  | .assign v w, x => if v ≠ w ∧ s.get v = s.get w then held (s.get w) x else 0
  | .moveAssign v w, x => if v ≠ w ∧ s.get v = s.get w then held (s.get w) x else 0
  | _, _ => 0

theorem Sound.assign (h : s.Sound) (hroom : s.Roomy) (hout : s.Unharmed m (.assign v w)) :
    (assign m v w s).Kept ∧
      ∀ x, (assign m v w s).excess x = s.excess x + leaked s (.assign v w) x := by
  unfold RefWorld.assign
  by_cases hvw : v = w
  · rw [if_pos hvw]
    refine ⟨h.kept, fun x => ?_⟩
    have hleaked : leaked s (.assign v w) x = 0 := if_neg fun hne => hne.1 hvw
    omega
  · rw [if_neg hvw]
    obtain ⟨hkept, hexcess, hle⟩ := h.resetPtr (p := s.get w) fun hne => (hout hne).1
    dsimp only
    rw [get_resetPtr]
    have hpos : ∀ x ∈ s.get w, 0 < (RefWorld.resetPtr m v (s.get w) s).strongRefs x := by
      intro x hx
      by_cases heq : s.get v = s.get w
      · rw [resetPtr_of_eq heq]
        exact h.pos_of_get x hx
      · obtain ⟨houtlives, halive⟩ := hout heq
        apply hkept.pos_of_alive
        rw [resetPtr_eq heq houtlives]
        exact halive x hx
    have hroom' : ∀ x ∈ s.get w, (RefWorld.resetPtr m v (s.get w) s).strongRefs x + 1 < 2 ^ 32 :=
      fun x hx => (Nat.add_le_add_right (hle x) 1).trans_lt
        (hroom x (h.kept.alive (h.pos_of_get x hx)))
    refine ⟨hkept.safeRetain hpos hroom', fun x => ?_⟩
    rw [excess_safeRetain hroom', hexcess]
    by_cases heq : s.get v = s.get w
    · have hleaked : leaked s (.assign v w) x = held (s.get w) x := if_pos ⟨hvw, heq⟩
      rw [if_pos heq, hleaked]
      omega
    · have hleaked : leaked s (.assign v w) x = 0 := if_neg fun hne => heq hne.2
      rw [if_neg heq, hleaked]
      omega

theorem Sound.moveAssign (h : s.Sound) (hout : s.Unharmed m (.moveAssign v w)) :
    (moveAssign m v w s).Kept ∧
      ∀ x, (moveAssign m v w s).excess x = s.excess x + leaked s (.moveAssign v w) x := by
  have hget : (setPtr w (some none) s).get v = if v = w then none else s.get v := by
    rw [get_setPtr]
    exact Function.update_apply s.get w none v
  have hnone : ∀ x, held (none : Option ο) x = 0 := fun _ => rfl
  have hsound : (setPtr w (some none) s).Sound := by
    refine ⟨h.kept.setPtr w (some none), fun x => ?_⟩
    have hle := h.le x
    rw [excess_letGo]
    omega
  obtain ⟨hkept, hexcess, -⟩ := hsound.resetPtr (p := s.get w) hout
  refine ⟨hkept, fun x => ?_⟩
  refine (hexcess x).trans ?_
  rw [excess_letGo, hget]
  by_cases hvw : v = w
  · have hleaked : leaked s (.moveAssign v w) x = 0 := if_neg fun hne => hne.1 hvw
    rw [if_pos hvw, hleaked]
    by_cases hw : none = s.get w
    · rw [if_pos hw, ← hw, hnone]
      omega
    · rw [if_neg hw]
      omega
  · rw [if_neg hvw]
    by_cases heq : s.get v = s.get w
    · have hleaked : leaked s (.moveAssign v w) x = held (s.get w) x := if_pos ⟨hvw, heq⟩
      rw [if_pos heq, hleaked]
      omega
    · have hleaked : leaked s (.moveAssign v w) x = 0 := if_neg fun hne => heq hne.2
      rw [if_neg heq, hleaked]
      omega

/-! ## Steps -/

omit [DecidableEq ν] [Fintype ν] in
theorem get_take : (take p s).get = s.get := by
  cases p <;> rfl

omit [DecidableEq ν] in
theorem Sound.take (h : s.Sound) (howns : s.Owns p) : (RefWorld.take p s).Sound := by
  refine ⟨h.kept.take p, fun x => ?_⟩
  have hle := h.le x
  rw [excess_take howns]
  omega

omit [Fintype ν] [DecidableEq ν] in
theorem Kept.createObj (h : s.Kept) (hcreated : s.created x = false) : (createObj x s).Kept := by
  have hcount : ∀ y, (RefWorld.createObj x s).strongRefs y =
      if y = x then 1 else s.strongRefs y := fun y => Function.update_apply _ _ _ y
  have hcreated' : ∀ y, (RefWorld.createObj x s).created y =
      if y = x then true else s.created y := fun y => Function.update_apply _ _ _ y
  have hdeletions : ∀ y, (RefWorld.createObj x s).deletions y = s.deletions y := fun _ => rfl
  refine ⟨fun y hy => ?_, fun y hy => ?_, fun y => ?_, h.noFault⟩
  · rw [hcreated'] at hy
    rw [hcount, hdeletions]
    split at hy
    · cases hy
    · next hne =>
      rw [if_neg hne]
      exact h.fresh y hy
  · rw [hcreated'] at hy
    rw [hcount, hdeletions]
    split at hy
    · next heq =>
      rw [heq, if_pos rfl, (h.fresh x hcreated).2]
      rfl
    · next hne =>
      rw [if_neg hne]
      exact h.deleted y hy
  · rw [hcount]
    split
    · decide
    · exact h.lt y

omit [DecidableEq ν] in
theorem excess_createObj (h : s.Kept) (hcreated : s.created x = false) (y : ο) :
    (createObj x s).excess y = s.excess y + held (some x) y := by
  have hzero := (h.fresh x hcreated).1
  have hcount : (createObj x s).strongRefs y = s.strongRefs y + held (some x) y := by
    refine (Function.update_apply _ _ _ y).trans ?_
    split
    · next heq => rw [heq, held_of_eq rfl, hzero]
    · next hne => rw [held_of_ne fun heq => hne (Option.some.inj heq).symm, Nat.add_zero]
  have hreferences : (createObj x s).references y = s.references y := rfl
  unfold excess
  omega

theorem Sound.step (h : s.Sound) (hroom : s.Roomy) (hout : s.Unharmed m a)
    (hstep : step m a s = some s') : s'.Kept ∧ ∀ x, s'.excess x = s.excess x + leaked s a x := by
  have hnone : ∀ x, held (none : Option ο) x = 0 := fun _ => rfl
  cases a with
  | create x =>
    obtain ⟨hcreated, hstep⟩ := Option.ite_none_left_eq_some.1 hstep
    obtain rfl := Option.some.inj hstep
    have hfresh := Bool.eq_false_iff.2 hcreated
    refine ⟨(h.kept.createObj hfresh).give _, fun y => ?_⟩
    change _ = s.excess y + (0 : ℕ)
    rw [excess_give, excess_createObj h.kept hfresh]
    omega
  | retainRaw x =>
    obtain ⟨howns, hstep⟩ := Option.ite_none_right_eq_some.1 hstep
    obtain rfl := Option.some.inj hstep
    have hpos := h.pos_of_owns howns
    have hroom' : ∀ y ∈ some x, s.strongRefs y + 1 < 2 ^ 32 :=
      fun y hy => hroom y (h.kept.alive (hpos y hy))
    refine ⟨(h.kept.safeRetain hpos hroom').give _, fun y => ?_⟩
    change _ = s.excess y + (0 : ℕ)
    rw [excess_give, excess_safeRetain hroom']
    omega
  | releaseRaw x =>
    obtain ⟨howns, hstep⟩ := Option.ite_none_right_eq_some.1 hstep
    obtain rfl := Option.some.inj hstep
    have hreleased := safeRelease_released (p := some x) m (h.kept.take (some x)) fun y => by
      have hle := h.le y
      rw [excess_take howns]
      omega
    refine ⟨hreleased.kept, fun y => ?_⟩
    change _ = s.excess y + (0 : ℕ)
    rw [hreleased.excess, excess_take howns, count_toList]
    omega
  | construct v p =>
    obtain ⟨⟨⟨hhas, -⟩, howns⟩, hstep⟩ := Option.ite_none_right_eq_some.1 hstep
    obtain rfl := Option.some.inj hstep
    have hget : (RefWorld.take p s).get v = none := by
      rw [get_take]
      exact get_of_not_has hhas
    refine ⟨(h.kept.take p).setPtr v (some p), fun y => ?_⟩
    change _ = s.excess y + (0 : ℕ)
    rw [excess_setPtr, excess_take howns, hget, hnone, Option.join_some]
    omega
  | constructOwn v p =>
    obtain ⟨⟨⟨hhas, -⟩, halive⟩, hstep⟩ := Option.ite_none_right_eq_some.1 hstep
    obtain rfl := Option.some.inj hstep
    have hroom' : ∀ y ∈ p, (setPtr v (some p) s).strongRefs y + 1 < 2 ^ 32 :=
      fun y hy => hroom y (halive y hy)
    have hpos : ∀ y ∈ p, 0 < s.strongRefs y := fun y hy => h.kept.pos_of_alive (halive y hy)
    have hkept := h.kept.setPtr v (some p)
    refine ⟨hkept.safeRetain hpos hroom', fun y => ?_⟩
    change _ = s.excess y + (0 : ℕ)
    rw [excess_safeRetain hroom', excess_setPtr, get_of_not_has hhas, hnone, Option.join_some]
    omega
  | copy v w =>
    obtain ⟨⟨⟨hhas, -⟩, -⟩, hstep⟩ := Option.ite_none_right_eq_some.1 hstep
    obtain rfl := Option.some.inj hstep
    have hroom' : ∀ y ∈ s.get w, (setPtr v (some (s.get w)) s).strongRefs y + 1 < 2 ^ 32 :=
      fun y hy => hroom y (h.kept.alive (h.pos_of_get y hy))
    have hkept := h.kept.setPtr v (some (s.get w))
    refine ⟨hkept.safeRetain h.pos_of_get hroom', fun y => ?_⟩
    change _ = s.excess y + (0 : ℕ)
    rw [excess_safeRetain hroom', excess_setPtr, get_of_not_has hhas, hnone, Option.join_some]
    omega
  | move v w =>
    obtain ⟨⟨⟨hhas, -⟩, -⟩, hstep⟩ := Option.ite_none_right_eq_some.1 hstep
    obtain rfl := Option.some.inj hstep
    have hget : (setPtr w (some none) s).get v = none := by
      rw [get_setPtr, Function.update_apply, get_of_not_has hhas]
      exact ite_self _
    refine ⟨(h.kept.setPtr w (some none)).setPtr v _, fun y => ?_⟩
    change _ = s.excess y + (0 : ℕ)
    refine (excess_setPtr v (some (s.get w))).trans ?_
    rw [hget, excess_setPtr, Option.join_some, Option.join_some, hnone]
    omega
  | assign v w =>
    obtain ⟨-, hstep⟩ := Option.ite_none_right_eq_some.1 hstep
    obtain rfl := Option.some.inj hstep
    exact h.assign hroom hout
  | moveAssign v w =>
    obtain ⟨-, hstep⟩ := Option.ite_none_right_eq_some.1 hstep
    obtain rfl := Option.some.inj hstep
    exact h.moveAssign hout
  | reset v p =>
    obtain ⟨⟨-, howns⟩, hstep⟩ := Option.ite_none_right_eq_some.1 hstep
    obtain rfl := Option.some.inj hstep
    by_cases heq : s.get v = p
    · rw [if_pos heq, resetPtr_of_eq heq]
      exact ⟨h.kept, fun y => (add_zero (s.excess y)).symm⟩
    · rw [if_neg heq]
      obtain ⟨hkept, hexcess, -⟩ := (h.take (howns.resolve_left heq)).resetPtr (p := p)
        fun _ => hout heq
      refine ⟨hkept, fun y => ?_⟩
      change _ = s.excess y + (0 : ℕ)
      rw [hexcess, get_take, if_neg heq, excess_take (howns.resolve_left heq)]
      omega
  | release v =>
    obtain ⟨-, hstep⟩ := Option.ite_none_right_eq_some.1 hstep
    obtain rfl := Option.some.inj hstep
    refine ⟨(h.kept.setPtr v (some none)).give _, fun y => ?_⟩
    change _ = s.excess y + (0 : ℕ)
    refine excess_give.trans ?_
    rw [excess_setPtr, Option.join_some, hnone]
    omega
  | destroy v =>
    obtain ⟨-, hstep⟩ := Option.ite_none_right_eq_some.1 hstep
    obtain rfl := Option.some.inj hstep
    have hset : ∀ y, (setPtr v none s).excess y = s.excess y + held (s.get v) y := by
      intro y
      rw [excess_setPtr, Option.join_none, hnone]
      omega
    have hreleased := safeRelease_released (p := s.get v) m (h.kept.setPtr v none) fun y => by
      have hle := h.le y
      rw [hset]
      omega
    refine ⟨hreleased.kept, fun y => ?_⟩
    change _ = s.excess y + (0 : ℕ)
    rw [hreleased.excess, hset, count_toList]
    omega

/-! ## Members -/

omit [DecidableEq ν] [DecidableEq ο] [Fintype ν] in
theorem Housed.mono (h : s.Housed m) (hhas : ∀ u, s'.Has u → s.Has u)
    (halive : ∀ x, s.alive x = true → s'.alive x = true) : s'.Housed m :=
  fun u hu x hx => halive x (h u (hhas u hu) x hx)

omit [DecidableEq ν] [Fintype ν] in
theorem Housed.safeRetain (h : s.Housed m) : (safeRetain p s).Housed m := by
  cases p <;> exact h

omit [DecidableEq ν] [Fintype ν] in
theorem Housed.give (h : s.Housed m) : (give p s).Housed m := by
  cases p <;> exact h

omit [DecidableEq ν] [Fintype ν] in
theorem Housed.take (h : s.Housed m) : (take p s).Housed m := by
  cases p <;> exact h

theorem Housed.resetPtr (h : s.Housed m) (hhas : s.Has v)
    (hout : s.get v ≠ p → s.Outlives m v) : (resetPtr m v p s).Housed m := by
  by_cases heq : s.get v = p
  · rw [resetPtr_of_eq heq]
    exact h
  · have hhas' := (outlives_iff hhas).1 (hout heq)
    rw [resetPtr_eq heq (hout heq)]
    exact (h.letGo hhas).setPtr (h.letGo hhas v hhas') _

theorem Housed.step (h : s.Housed m) (hout : s.Unharmed m a) (hstep : step m a s = some s') :
    s'.Housed m := by
  cases a with
  | create x =>
    obtain ⟨-, hstep⟩ := Option.ite_none_left_eq_some.1 hstep
    obtain rfl := Option.some.inj hstep
    refine Housed.give (h.mono (fun u hu => hu) fun y hy => ?_)
    unfold alive at hy ⊢
    rw [Bool.and_eq_true] at hy ⊢
    refine ⟨?_, hy.2⟩
    change Function.update s.created x true y = true
    rw [Function.update_apply, hy.1, ite_self]
  | retainRaw x =>
    obtain ⟨-, hstep⟩ := Option.ite_none_right_eq_some.1 hstep
    obtain rfl := Option.some.inj hstep
    exact h.safeRetain.give
  | releaseRaw x =>
    obtain ⟨-, hstep⟩ := Option.ite_none_right_eq_some.1 hstep
    obtain rfl := Option.some.inj hstep
    exact (h.take (p := some x)).releaseAll
  | construct v p =>
    obtain ⟨⟨⟨-, hfree⟩, -⟩, hstep⟩ := Option.ite_none_right_eq_some.1 hstep
    obtain rfl := Option.some.inj hstep
    refine h.take.setPtr (fun x hx => ?_) (some p)
    cases p <;> exact hfree x hx
  | constructOwn v p =>
    obtain ⟨⟨⟨-, hfree⟩, -⟩, hstep⟩ := Option.ite_none_right_eq_some.1 hstep
    obtain rfl := Option.some.inj hstep
    exact (h.setPtr hfree (some p)).safeRetain
  | copy v w =>
    obtain ⟨⟨⟨-, hfree⟩, -⟩, hstep⟩ := Option.ite_none_right_eq_some.1 hstep
    obtain rfl := Option.some.inj hstep
    exact (h.setPtr hfree (some (s.get w))).safeRetain
  | move v w =>
    obtain ⟨⟨⟨-, hfree⟩, hw⟩, hstep⟩ := Option.ite_none_right_eq_some.1 hstep
    obtain rfl := Option.some.inj hstep
    exact (h.setPtr (h w hw) (some none)).setPtr hfree (some (s.get w))
  | assign v w =>
    obtain ⟨⟨hv, -⟩, hstep⟩ := Option.ite_none_right_eq_some.1 hstep
    obtain rfl := Option.some.inj hstep
    unfold assign
    split
    · exact h
    · exact (h.resetPtr hv fun hne => (hout hne).1).safeRetain
  | moveAssign v w =>
    obtain ⟨⟨hv, hw⟩, hstep⟩ := Option.ite_none_right_eq_some.1 hstep
    obtain rfl := Option.some.inj hstep
    refine (h.setPtr (h w hw) (some none)).resetPtr ?_ hout
    by_cases hvw : v = w
    · subst hvw
      exact has_setPtr_some none
    · exact (has_setPtr_of_ne hvw).2 hv
  | reset v p =>
    obtain ⟨⟨hv, -⟩, hstep⟩ := Option.ite_none_right_eq_some.1 hstep
    obtain rfl := Option.some.inj hstep
    by_cases heq : s.get v = p
    · rw [if_pos heq, resetPtr_of_eq heq]
      exact h
    · have hv' : (RefWorld.take p s).Has v := by
        cases p <;> exact hv
      rw [if_neg heq]
      exact h.take.resetPtr hv' fun _ => hout heq
  | release v =>
    obtain ⟨hv, hstep⟩ := Option.ite_none_right_eq_some.1 hstep
    obtain rfl := Option.some.inj hstep
    exact (h.setPtr (h v hv) (some none)).give
  | destroy v =>
    obtain ⟨⟨hv, -⟩, hstep⟩ := Option.ite_none_right_eq_some.1 hstep
    obtain rfl := Option.some.inj hstep
    exact (h.setPtr (h v hv) none).releaseAll

/-! ## Faults -/

omit [DecidableEq ν] [Fintype ν] in
theorem fault_safeRetain (h : s.fault = true) : (safeRetain p s).fault = true := by
  cases p with
  | none => exact h
  | some x => exact Bool.or_eq_true_iff.2 (.inl h)

omit [DecidableEq ν] [Fintype ν] in
theorem fault_give : (give p s).fault = s.fault := by
  cases p <;> rfl

omit [DecidableEq ν] [Fintype ν] in
theorem fault_take : (take p s).fault = s.fault := by
  cases p <;> rfl

theorem fault_resetPtr_of_fault (h : s.fault = true) : (resetPtr m v p s).fault = true := by
  unfold resetPtr
  split
  · exact Bool.or_eq_true_iff.2 (.inl (fault_releaseAll h))
  · exact h

/-- A fault stays. -/
theorem fault_step (h : s.fault = true) (hstep : step m a s = some s') : s'.fault = true := by
  cases a with
  | create x =>
    obtain ⟨-, hstep⟩ := Option.ite_none_left_eq_some.1 hstep
    obtain rfl := Option.some.inj hstep
    exact h
  | retainRaw x =>
    obtain ⟨-, hstep⟩ := Option.ite_none_right_eq_some.1 hstep
    obtain rfl := Option.some.inj hstep
    exact fault_give.trans (fault_safeRetain h)
  | releaseRaw x =>
    obtain ⟨-, hstep⟩ := Option.ite_none_right_eq_some.1 hstep
    obtain rfl := Option.some.inj hstep
    exact fault_releaseAll (fault_take.trans h)
  | construct v p =>
    obtain ⟨-, hstep⟩ := Option.ite_none_right_eq_some.1 hstep
    obtain rfl := Option.some.inj hstep
    exact fault_take.trans h
  | constructOwn v p | copy v w =>
    obtain ⟨-, hstep⟩ := Option.ite_none_right_eq_some.1 hstep
    obtain rfl := Option.some.inj hstep
    exact fault_safeRetain h
  | move v w =>
    obtain ⟨-, hstep⟩ := Option.ite_none_right_eq_some.1 hstep
    obtain rfl := Option.some.inj hstep
    exact h
  | assign v w =>
    obtain ⟨-, hstep⟩ := Option.ite_none_right_eq_some.1 hstep
    obtain rfl := Option.some.inj hstep
    unfold assign
    split
    · exact h
    · exact fault_safeRetain (fault_resetPtr_of_fault h)
  | moveAssign v w =>
    obtain ⟨-, hstep⟩ := Option.ite_none_right_eq_some.1 hstep
    obtain rfl := Option.some.inj hstep
    have hset : (setPtr w (some none) s).fault = true := h
    exact fault_resetPtr_of_fault hset
  | reset v p =>
    obtain ⟨-, hstep⟩ := Option.ite_none_right_eq_some.1 hstep
    obtain rfl := Option.some.inj hstep
    refine fault_resetPtr_of_fault ?_
    split
    · exact h
    · exact fault_take.trans h
  | release v =>
    obtain ⟨-, hstep⟩ := Option.ite_none_right_eq_some.1 hstep
    obtain rfl := Option.some.inj hstep
    exact fault_give.trans h
  | destroy v =>
    obtain ⟨-, hstep⟩ := Option.ite_none_right_eq_some.1 hstep
    obtain rfl := Option.some.inj hstep
    have hset : (setPtr v none s).fault = true := h
    exact fault_releaseAll hset

/-- What has been deleted is used. -/
theorem fault_of_not_unharmed (hharm : ¬ s.Unharmed m a) (hstep : step m a s = some s') :
    s'.fault = true := by
  cases a with
  | assign v w =>
    obtain ⟨-, hstep⟩ := Option.ite_none_right_eq_some.1 hstep
    obtain rfl := Option.some.inj hstep
    unfold Unharmed at hharm
    push Not at hharm
    obtain ⟨hne, hharm⟩ := hharm
    have hvw : v ≠ w := fun heq => hne (congrArg s.get heq)
    unfold assign
    rw [if_neg hvw]
    by_cases hout : s.Outlives m v
    · obtain ⟨x, hx, hdead⟩ := hharm hout
      dsimp only
      rw [get_resetPtr, resetPtr_eq hne hout, hx]
      have hdead' : (setPtr v (some (some x)) (letGo m v s)).alive x = false :=
        Bool.eq_false_iff.2 hdead
      refine Bool.or_eq_true_iff.2 (.inr ?_)
      rw [hdead']
      rfl
    · exact fault_safeRetain (fault_resetPtr hne hout)
  | moveAssign v w =>
    obtain ⟨-, hstep⟩ := Option.ite_none_right_eq_some.1 hstep
    obtain rfl := Option.some.inj hstep
    obtain ⟨hne, hout⟩ := Classical.not_imp.1 hharm
    exact fault_resetPtr hne hout
  | reset v p =>
    obtain ⟨-, hstep⟩ := Option.ite_none_right_eq_some.1 hstep
    obtain rfl := Option.some.inj hstep
    obtain ⟨hne, hout⟩ := Classical.not_imp.1 hharm
    have hne' : (take p s).get v ≠ p := by
      rw [get_take]
      exact hne
    rw [if_neg hne]
    exact fault_resetPtr hne' hout
  | _ => exact absurd trivial hharm

/-! ## Runs -/

omit [DecidableEq ν] in
theorem Kept.exact_iff (h : s.Kept) : s.Exact ↔ ∀ x, s.created x = true → s.excess x = 0 := by
  constructor
  · intro hexact x hx
    have hcounted := hexact.counted x hx
    unfold excess
    omega
  · intro hexcess
    have hcounted : ∀ x, s.created x = true → s.strongRefs x = s.references x := by
      intro x hx
      have hzero := hexcess x hx
      unfold excess at hzero
      omega
    refine ⟨hcounted, fun x hx => ?_, h.noFault⟩
    rw [← hcounted x hx]
    exact h.deleted x hx

omit [DecidableEq ν] in
/-- There is no reference to an object that has not been created. -/
theorem Sound.excess_of_not_created (h : s.Sound) (hx : s.created x = false) :
    s.excess x = 0 := by
  have hle := h.le x
  have hzero := (h.kept.fresh x hx).1
  unfold excess at hle ⊢
  omega

omit [DecidableEq ν] in
theorem exact_iff_excess (h : s.Sound) : s.Exact ↔ ∀ x, s.excess x = 0 := by
  rw [h.kept.exact_iff]
  refine forall_congr' fun x => ⟨fun hx => ?_, fun hx _ => hx⟩
  cases hcreated : s.created x with
  | true => exact hx hcreated
  | false => exact h.excess_of_not_created hcreated

omit [Fintype ν] in
/-- A step leaves no reference without an owner exactly when it is apart. -/
theorem apart_iff : s.Apart a ↔ ∀ x, leaked s a x = 0 := by
  have hassign : ∀ v w, (v ≠ w → s.get v = s.get w → s.get w = none) ↔
      ∀ x, (if v ≠ w ∧ s.get v = s.get w then held (s.get w) x else 0) = 0 := by
    intro v w
    constructor
    · intro hnone x
      split
      · next hboth =>
        rw [hnone hboth.1 hboth.2]
        rfl
      · rfl
    · intro hzero hvw heq
      cases hw : s.get w with
      | none => rfl
      | some x =>
        have hx := hzero x
        rw [if_pos ⟨hvw, heq⟩, held_of_eq hw] at hx
        cases hx
  cases a with
  | assign v w => exact hassign v w
  | moveAssign v w => exact hassign v w
  | _ => exact ⟨fun _ _ => rfl, fun _ => trivial⟩

/-- Where the counts are exact, nothing that has been deleted is used exactly when what is used
survives. -/
theorem unharmed_iff (h : s.Sound) (hhoused : s.Housed m) (hexact : s.Exact)
    (hstep : step m a s = some s') : s.Unharmed m a ↔ s.Outlived m a := by
  have hcounted : ∀ x, s.strongRefs x = s.references x := by
    intro x
    have hzero := (exact_iff_excess h).1 hexact x
    unfold excess at hzero
    omega
  cases a with
  | assign v w =>
    obtain ⟨⟨hv, -⟩, -⟩ := Option.ite_none_right_eq_some.1 hstep
    have hflight : InFlight s s := ⟨h, rfl, hcounted⟩
    refine imp_congr_right fun _ => ?_
    rw [hflight.outlives_iff hhoused hv]
    simp only [or_imp, forall_and, ← hflight.survives_iff hhoused hv]
    rfl
  | moveAssign v w =>
    obtain ⟨⟨hv, hw⟩, -⟩ := Option.ite_none_right_eq_some.1 hstep
    by_cases hvw : v = w
    · subst hvw
      refine iff_of_true (fun _ => ?_) fun hne => absurd rfl hne
      have hnone : (setPtr v (some none) s).get v = none := by
        rw [get_setPtr]
        exact Function.update_self _ _ _
      unfold Outlives
      rw [hnone]
      exact has_setPtr_some none
    · have hget : (setPtr w (some none) s).get v = s.get v := by
        rw [get_setPtr]
        exact Function.update_of_ne hvw _ _
      have hsound : (setPtr w (some none) s).Sound := by
        refine ⟨h.kept.setPtr w (some none), fun x => ?_⟩
        have hle := h.le x
        rw [excess_letGo]
        omega
      have hflight : InFlight (give (s.get w) (setPtr w (some none) s))
          (setPtr w (some none) s) := by
        refine ⟨hsound, by cases s.get w <;> rfl, fun x => ?_⟩
        have hgive := excess_give (x := x) (p := s.get w) (s := setPtr w (some none) s)
        have hzero := (exact_iff_excess h).1 hexact x
        have hcount : (give (s.get w) (setPtr w (some none) s)).strongRefs x =
            (setPtr w (some none) s).strongRefs x := by cases s.get w <;> rfl
        rw [excess_letGo, hzero, excess, hcount] at hgive
        omega
      refine imp_congr (not_congr (Eq.congr_left hget)) ?_
      exact hflight.outlives_iff (hhoused.setPtr (hhoused w hw) _) ((has_setPtr_of_ne hvw).2 hv)
  | reset v p =>
    obtain ⟨⟨hv, howns⟩, -⟩ := Option.ite_none_right_eq_some.1 hstep
    refine imp_congr_right fun hne => ?_
    have hflight : InFlight s (RefWorld.take p s) := by
      refine ⟨h.take (howns.resolve_left hne), get_take, fun x => ?_⟩
      rw [← hcounted]
      cases p <;> rfl
    have hv' : (RefWorld.take p s).Has v := by
      cases p <;> exact hv
    exact hflight.outlives_iff hhoused.take hv'
  | _ => exact Iff.rfl

theorem sound_of_step (h : s.Sound) (hroom : s.Roomy) (hout : s.Unharmed m a)
    (hstep : step m a s = some s') : s'.Sound := by
  obtain ⟨hkept, hexcess⟩ := h.step hroom hout hstep
  refine ⟨hkept, fun x => ?_⟩
  have hle := h.le x
  have hx := hexcess x
  omega

/-- What every run keeps, unless there is a fault. -/
def Tidy (m : Layout ν ο) (s : RefWorld ν ο) : Prop := s.fault = true ∨ s.Sound ∧ s.Housed m

theorem Tidy.step (h : s.Tidy m) (hroom : s.Roomy) (hstep : step m a s = some s') :
    s'.Tidy m := by
  rcases h with hfault | ⟨hsound, hhoused⟩
  · exact .inl (fault_step hfault hstep)
  · by_cases hout : s.Unharmed m a
    · exact .inr ⟨sound_of_step hsound hroom hout hstep, hhoused.step hout hstep⟩
    · exact .inl (fault_of_not_unharmed hout hstep)

omit [DecidableEq ν] in
theorem not_exact_of_fault (h : s.fault = true) : ¬ s.Exact := by
  intro hexact
  rw [hexact.noFault] at h
  cases h

/-- A step keeps the counts exact exactly when it is orderly. -/
theorem exact_step_iff (h : s.Tidy m) (hroom : s.Roomy) (hstep : step m a s = some s') :
    s'.Exact ↔ s.Exact ∧ s.Orderly m a := by
  rcases h with hfault | ⟨hsound, hhoused⟩
  · exact iff_of_false (not_exact_of_fault (fault_step hfault hstep))
      fun hexact => not_exact_of_fault hfault hexact.1
  · by_cases hout : s.Unharmed m a
    · have hnext : s'.Exact ↔ s.Exact ∧ s.Apart a := by
        rw [exact_iff_excess (sound_of_step hsound hroom hout hstep), exact_iff_excess hsound,
          apart_iff, ← forall_and]
        refine forall_congr' fun x => ?_
        have hle := hsound.le x
        have hx := (hsound.step hroom hout hstep).2 x
        omega
      rw [hnext]
      refine and_congr_right fun hexact => (and_iff_left ?_).symm
      exact (unharmed_iff hsound hhoused hexact hstep).1 hout
    · refine iff_of_false (not_exact_of_fault (fault_of_not_unharmed hout hstep)) ?_
      rintro ⟨hexact, -, houtlived⟩
      exact hout ((unharmed_iff hsound hhoused hexact hstep).2 houtlived)

omit [DecidableEq ν] in
theorem sound_empty : ({} : RefWorld ν ο).Sound := by
  refine ⟨⟨fun _ _ => ⟨rfl, rfl⟩, nofun, fun _ => Nat.two_pow_pos 32, rfl⟩, fun x => ?_⟩
  have hholders : ({} : RefWorld ν ο).holders x = 0 := Finset.sum_eq_zero fun _ _ => rfl
  have hraw : ({} : RefWorld ν ο).raw x = 0 := rfl
  have hcount : ({} : RefWorld ν ο).strongRefs x = 0 := rfl
  unfold excess references
  omega

/-- In a run in which no count wraps, the counts stay exact exactly when no assignment is between
two `ref_ptr`s that hold the same object, and what an assignment or a `reset` still uses survives
what its left-hand side lets go. -/
theorem exact_iff_of_run {as : List (RefOp ν ο)}
    (hroomy : Machine.Meets (step m) (fun s _ => s.Roomy) as {})
    (hrun : Machine.run (step m) as {} = some s) :
    s.Exact ↔ Machine.Meets (step m) (Orderly m) as {} := by
  have htidy : ({} : RefWorld ν ο).Tidy m := .inr ⟨sound_empty, nofun⟩
  rw [Machine.iff_meets_of_meets (fun _ _ _ h hroom hstep => Tidy.step h hroom hstep)
    (fun _ _ _ h hroom hstep => exact_step_iff h hroom hstep) htidy hroomy hrun]
  exact and_iff_right ⟨nofun, nofun, rfl⟩

instance [Fintype ο] (s : RefWorld ν ο) : Decidable s.Roomy :=
  inferInstanceAs (Decidable (∀ x, s.alive x → s.strongRefs x + 1 < 2 ^ 32))

instance (s : RefWorld ν ο) : ∀ a, Decidable (s.Apart a)
  | .assign v w | .moveAssign v w =>
    inferInstanceAs (Decidable (v ≠ w → s.get v = s.get w → s.get w = none))
  | .create _ | .retainRaw _ | .releaseRaw _ | .construct _ _ | .constructOwn _ _ | .copy _ _
  | .move _ _ | .reset _ _ | .release _ | .destroy _ => .isTrue trivial

instance [Fintype ο] (s : RefWorld ν ο) (v : ν) (y : ο) : Decidable (s.Survives m v y) :=
  decidable_of_iff
    (∃ S : Finset ο, y ∈ S ∧
      ∀ x ∈ S, 0 < s.raw x ∨ ∃ u, u ≠ v ∧ s.get u = some x ∧ ∀ z ∈ m.owner u, z ∈ S)
    ⟨fun ⟨S, hS⟩ => ⟨S, hS⟩, fun ⟨S, hS⟩ =>
      ⟨(Set.toFinite S).toFinset, by simpa only [Set.Finite.mem_toFinset] using hS⟩⟩

instance [Fintype ο] (s : RefWorld ν ο) : ∀ a, Decidable (s.Outlived m a)
  | .assign v w =>
    inferInstanceAs (Decidable (s.get v ≠ s.get w → ∀ x, m.owner v = some x ∨ s.get w = some x →
      s.Survives m v x))
  | .moveAssign v w =>
    inferInstanceAs (Decidable (s.get v ≠ s.get w → ∀ x ∈ m.owner v,
      (give (s.get w) (setPtr w (some none) s)).Survives m v x))
  | .reset v p =>
    inferInstanceAs (Decidable (s.get v ≠ p → ∀ x ∈ m.owner v, s.Survives m v x))
  | .create _ | .retainRaw _ | .releaseRaw _ | .construct _ _ | .constructOwn _ _ | .copy _ _
  | .move _ _ | .release _ | .destroy _ => .isTrue trivial

instance [Fintype ο] (s : RefWorld ν ο) (a : RefOp ν ο) : Decidable (s.Orderly m a) :=
  inferInstanceAs (Decidable (s.Apart a ∧ s.Outlived m a))

/-- A list of two objects, the first of which has a `ref_ptr` to the second. -/
def linked : Layout (Fin 3) (Fin 2) where
  owner v := if v = 1 then some 0 else none
  places := List.finRange 3
  nodup := List.nodup_finRange 3
  mem_places := List.mem_finRange

/-- The head of the list is made to hold the second object by way of another `ref_ptr`, and lets it
go by a move. -/
def unlink : List (RefOp (Fin 3) (Fin 2)) :=
  [.create 0, .construct 0 (some 0), .create 1, .construct 1 (some 1), .copy 2 1, .assign 0 2,
    .assign 2 2, .reset 2 none, .moveAssign 2 0, .destroy 2, .destroy 0]

theorem exact_unlink : ∃ s, Machine.run (step linked) unlink {} = some s ∧
    (s.Exact ↔ Machine.Meets (step linked) (Orderly linked) unlink {}) ∧ s.Exact := by
  have hroomy : Machine.Meets (step linked) (fun s _ => s.Roomy) unlink {} := by decide
  have horderly : Machine.Meets (step linked) (Orderly linked) unlink {} := by decide
  have hiff := exact_iff_of_run hroomy rfl
  exact ⟨_, rfl, hiff, hiff.2 horderly⟩

-- The first object is deleted when the head lets go of it, and with it its reference to the second.
example : (Machine.run (step linked) [.create 0, .construct 0 (some 0), .create 1,
    .construct 1 (some 1), .assign 0 1] {}).map (fun s => (s.deletions 1, s.fault)) =
      some (1, true) := by
  decide

/-- A `ref_ptr` is assigned to another one that holds the same object. -/
def assignTwin : List (RefOp (Fin 3) (Fin 2)) :=
  [.create 0, .construct 0 (some 0), .copy 2 0, .assign 0 2, .destroy 0, .destroy 2]

theorem not_exact_assignTwin : ¬ ∀ (as : List (RefOp (Fin 3) (Fin 2)))
    (s : RefWorld (Fin 3) (Fin 2)),
    Machine.Meets (step linked) (fun s _ => s.Roomy) as {} →
      Machine.run (step linked) as {} = some s → s.Exact := by
  intro hall
  have hexact := hall assignTwin _ (by decide) rfl
  exact absurd (hexact.counted 0 rfl) (by decide)

end RefWorld

end Yasio
