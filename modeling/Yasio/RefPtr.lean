import Mathlib.Algebra.BigOperators.Group.Finset.Basic
import Mathlib.Algebra.Order.BigOperators.Group.Finset
import Mathlib.Data.Fintype.BigOperators
import Yasio.Lib.Machine

/-!
# `ref_ptr`

The pointers and the objects of a program, with the references to each object that the program owns
without a `ref_ptr`.  A `ref_ptr` that is constructed from a pointer takes such a reference over.
Objects have `ref_ptr`s as members, which are destroyed with the object and release what they hold.
-/

namespace Yasio

variable {ν ο : Type}

/-- The object that a `ref_ptr` is a member of, if it is one, and the order in which destructors
destroy members. -/
structure Layout (ν ο : Type) where
  owner : ν → Option ο
  places : List ν
  nodup : places.Nodup
  mem_places : ∀ v, v ∈ places

/-- The `ref_ptr`s that are members of the object. -/
def Layout.members [DecidableEq ο] (m : Layout ν ο) (x : ο) : List ν :=
  m.places.filter fun v => m.owner v = some x

theorem Layout.mem_members [DecidableEq ο] {m : Layout ν ο} {x : ο} {v : ν} :
    v ∈ m.members x ↔ m.owner v = some x :=
  List.mem_filter.trans ((and_iff_right (m.mem_places v)).trans decide_eq_true_iff)

theorem Layout.nodup_members [DecidableEq ο] (m : Layout ν ο) (x : ο) : (m.members x).Nodup :=
  m.nodup.filter _

/-- The `ref_ptr`s are at the places of `ν`, and the objects are those of `ο`. -/
structure RefWorld (ν ο : Type) where
  created : ο → Bool := fun _ => false
  /-- `__strong_refs` -/
  strongRefs : ο → ℕ := fun _ => 0
  /-- How often the object has been deleted. -/
  deletions : ο → ℕ := fun _ => 0
  /-- `ptr_`, where there is a `ref_ptr`. -/
  ptrs : ν → Option (Option ο) := fun _ => none
  /-- The references that are owned raw. -/
  raw : ο → ℕ := fun _ => 0
  /-- An object that is not alive has been retained or released, or a `ref_ptr` written to that has
  been destroyed. -/
  fault : Bool := false

inductive RefOp (ν ο : Type)
  | create (x : ο)
  | retainRaw (x : ο)
  | releaseRaw (x : ο)
  | construct (v : ν) (p : Option ο)
  | constructOwn (v : ν) (p : Option ο)
  | copy (v w : ν)
  | move (v w : ν)
  | assign (v w : ν)
  | moveAssign (v w : ν)
  | reset (v : ν) (p : Option ο)
  | release (v : ν)
  | destroy (v : ν)

namespace RefWorld

def alive (s : RefWorld ν ο) (x : ο) : Bool := s.created x && s.deletions x == 0

/-- `get()` -/
def get (s : RefWorld ν ο) (v : ν) : Option ο := (s.ptrs v).join

/-- There is a `ref_ptr`. -/
def Has (s : RefWorld ν ο) (v : ν) : Prop := (s.ptrs v).isSome

instance (s : RefWorld ν ο) (v : ν) : Decidable (s.Has v) :=
  inferInstanceAs (Decidable ((s.ptrs v).isSome = true))

section

variable [DecidableEq ν]

def setPtr (v : ν) (q : Option (Option ο)) (s : RefWorld ν ο) : RefWorld ν ο :=
  { s with ptrs := Function.update s.ptrs v q }

/-- The `ref_ptr`s are destroyed. -/
def dropAll : List ν → RefWorld ν ο → RefWorld ν ο
  | [], s => s
  | u :: us, s => dropAll us (setPtr u none s)

/-- `release()`, which returns what was in `ptr_`. -/
def releasePtr (v : ν) (s : RefWorld ν ο) : Option ο × RefWorld ν ο :=
  (s.get v, setPtr v (some none) s)

end

/-- What the `ref_ptr`s hold. -/
def heldBy (s : RefWorld ν ο) (us : List ν) : List ο := us.filterMap s.get

section

variable [DecidableEq ο]

/-- `YASIO__SAFE_RETAIN` -/
def safeRetain (p : Option ο) (s : RefWorld ν ο) : RefWorld ν ο :=
  match p with
  | none => s
  | some x =>
    { s with
      fault := s.fault || !s.alive x
      strongRefs := Function.update s.strongRefs x ((s.strongRefs x + 1) % 2 ^ 32) }

/-- `release()` of an object, but for its members. -/
def releaseObj (x : ο) (s : RefWorld ν ο) : RefWorld ν ο :=
  let strongRefs := (s.strongRefs x + (2 ^ 32 - 1)) % 2 ^ 32
  { s with
    fault := s.fault || !s.alive x
    strongRefs := Function.update s.strongRefs x strongRefs
    deletions :=
      if strongRefs = 0 then Function.update s.deletions x (s.deletions x + 1)
      else s.deletions }

/-- A reference becomes one that is owned raw. -/
def give (p : Option ο) (s : RefWorld ν ο) : RefWorld ν ο :=
  match p with
  | none => s
  | some x => { s with raw := Function.update s.raw x (s.raw x + 1) }

/-- A reference that is owned raw is taken over. -/
def take (p : Option ο) (s : RefWorld ν ο) : RefWorld ν ο :=
  match p with
  | none => s
  | some x => { s with raw := Function.update s.raw x (s.raw x - 1) }

/-- A new object, with `__strong_refs = 1`. -/
def createObj (x : ο) (s : RefWorld ν ο) : RefWorld ν ο :=
  { s with
    created := Function.update s.created x true
    strongRefs := Function.update s.strongRefs x 1 }

end

/-- The program owns a reference to the object. -/
def Owns (s : RefWorld ν ο) (p : Option ο) : Prop := ∀ x ∈ p, 0 < s.raw x

instance (s : RefWorld ν ο) (p : Option ο) : Decidable (s.Owns p) :=
  inferInstanceAs (Decidable (∀ x ∈ p, 0 < s.raw x))

section

variable [DecidableEq ν] [DecidableEq ο] (m : Layout ν ο)

/-- The calls of `release()` that are still to be made.  An object whose count becomes zero is
deleted, and its members add theirs; `n` bounds how many calls there are. -/
def releaseAll : ℕ → List ο → RefWorld ν ο → RefWorld ν ο
  | 0, _, s => s
  | _ + 1, [], s => s
  | n + 1, x :: xs, s =>
    let s := releaseObj x s
    if s.strongRefs x = 0 then
      releaseAll n (s.heldBy (m.members x) ++ xs) (dropAll (m.members x) s)
    else releaseAll n xs s

variable [Fintype ν]

/-- `YASIO__SAFE_RELEASE`; each `ref_ptr` is destroyed at most once. -/
def safeRelease (p : Option ο) (s : RefWorld ν ο) : RefWorld ν ο :=
  releaseAll m (Fintype.card ν + 1) p.toList s

/-- `reset(_Ptr)`, which releases what the `ref_ptr` holds before it writes to it. -/
def resetPtr (v : ν) (p : Option ο) (s : RefWorld ν ο) : RefWorld ν ο :=
  if s.get v ≠ p then
    let s' := safeRelease m (s.get v) s
    setPtr v (some p) { s' with fault := s'.fault || !decide (s'.Has v) }
  else s

/-- The assignment of a `ref_ptr` to another. -/
def assign (v w : ν) (s : RefWorld ν ο) : RefWorld ν ο :=
  if v = w then s
  else
    let s := resetPtr m v (s.get w) s
    safeRetain (s.get v) s

def moveAssign (v w : ν) (s : RefWorld ν ο) : RefWorld ν ο :=
  let (p, s) := releasePtr w s
  resetPtr m v p s

/-- There can be a new `ref_ptr`: a member is constructed in an object that is alive. -/
def Free (s : RefWorld ν ο) (v : ν) : Prop := ¬ s.Has v ∧ ∀ x ∈ m.owner v, s.alive x

instance (s : RefWorld ν ο) (v : ν) : Decidable (s.Free m v) :=
  inferInstanceAs (Decidable (¬ s.Has v ∧ ∀ x ∈ m.owner v, s.alive x))

/-- What a program may do.  A `reset` to the pointer that the `ref_ptr` has takes nothing over, and
members are destroyed with their objects only. -/
def step : RefOp ν ο → RefWorld ν ο → Option (RefWorld ν ο)
  | .create x, s =>
    if s.created x then none
    else
      some (give (some x) (createObj x s))
  | .retainRaw x, s =>
    if s.Owns (some x) then some (give (some x) (safeRetain (some x) s)) else none
  | .releaseRaw x, s =>
    if s.Owns (some x) then some (safeRelease m (some x) (take (some x) s)) else none
  | .construct v p, s =>
    if s.Free m v ∧ s.Owns p then some (setPtr v (some p) (take p s)) else none
  | .constructOwn v p, s =>
    if s.Free m v ∧ ∀ x ∈ p, s.alive x then some (safeRetain p (setPtr v (some p) s)) else none
  | .copy v w, s =>
    if s.Free m v ∧ s.Has w then some (safeRetain (s.get w) (setPtr v (some (s.get w)) s))
    else none
  | .move v w, s =>
    if s.Free m v ∧ s.Has w then
      let (p, s) := releasePtr w s
      some (setPtr v (some p) s)
    else none
  | .assign v w, s => if s.Has v ∧ s.Has w then some (assign m v w s) else none
  | .moveAssign v w, s => if s.Has v ∧ s.Has w then some (moveAssign m v w s) else none
  | .reset v p, s =>
    if s.Has v ∧ (s.get v = p ∨ s.Owns p) then
      some (resetPtr m v p (if s.get v = p then s else take p s))
    else none
  | .release v, s =>
    if s.Has v then
      let (p, s) := releasePtr v s
      some (give p s)
    else none
  | .destroy v, s =>
    if s.Has v ∧ m.owner v = none then some (safeRelease m (s.get v) (setPtr v none s)) else none

end

/-- No assignment is between two `ref_ptr`s that hold the same object. -/
def Apart (s : RefWorld ν ο) : RefOp ν ο → Prop
  | .assign v w => v ≠ w → s.get v = s.get w → s.get w = none
  | .moveAssign v w => v ≠ w → s.get v = s.get w → s.get w = none
  | _ => True

section

variable [DecidableEq ν] [DecidableEq ο] (m : Layout ν ο)

/-- The object keeps a reference when `v` lets go of what it holds: it is in a set of objects each
of which is owned raw, or held by another `ref_ptr` that is no member of an object outside. -/
def Survives (s : RefWorld ν ο) (v : ν) (y : ο) : Prop :=
  ∃ S : Set ο, y ∈ S ∧
    ∀ x ∈ S, 0 < s.raw x ∨ ∃ u, u ≠ v ∧ s.get u = some x ∧ ∀ z ∈ m.owner u, z ∈ S

/-- What an assignment or a `reset` uses when its left-hand side has let go keeps a reference: the
object that the left-hand side is a member of, and for a copy the one that the right-hand side
holds.  Where the right-hand side is moved, its reference is owned raw meanwhile. -/
def Outlived (s : RefWorld ν ο) : RefOp ν ο → Prop
  | .assign v w =>
    s.get v ≠ s.get w → ∀ x, m.owner v = some x ∨ s.get w = some x → s.Survives m v x
  | .moveAssign v w =>
    s.get v ≠ s.get w → ∀ x ∈ m.owner v, (give (s.get w) (setPtr w (some none) s)).Survives m v x
  | .reset v p => s.get v ≠ p → ∀ x ∈ m.owner v, s.Survives m v x
  | _ => True

/-- The condition of a step. -/
def Orderly (s : RefWorld ν ο) (a : RefOp ν ο) : Prop := s.Apart a ∧ s.Outlived m a

end

/-- No count is about to wrap. -/
def Roomy (s : RefWorld ν ο) : Prop := ∀ x, s.alive x → s.strongRefs x + 1 < 2 ^ 32

/-- One for the object that the pointer is to. -/
def held [DecidableEq ο] (p : Option ο) (x : ο) : ℕ := if p = some x then 1 else 0

section

variable [Fintype ν] [DecidableEq ο]

/-- The `ref_ptr`s that hold the object. -/
def holders (s : RefWorld ν ο) (x : ο) : ℕ := ∑ v, held (s.get v) x

def references (s : RefWorld ν ο) (x : ο) : ℕ := s.holders x + s.raw x

/-- The counts are exact, and the objects without a reference are those that have been deleted. -/
structure Exact (s : RefWorld ν ο) : Prop where
  counted : ∀ x, s.created x = true → s.strongRefs x = s.references x
  deleted : ∀ x, s.created x = true → s.deletions x = if s.references x = 0 then 1 else 0
  noFault : s.fault = false

end

/-! ## Objects -/

/-- An object is deleted when its count becomes zero. -/
structure Kept (s : RefWorld ν ο) : Prop where
  fresh : ∀ x, s.created x = false → s.strongRefs x = 0 ∧ s.deletions x = 0
  deleted : ∀ x, s.created x = true → s.deletions x = if s.strongRefs x = 0 then 1 else 0
  lt : ∀ x, s.strongRefs x < 2 ^ 32
  noFault : s.fault = false

variable {s s' : RefWorld ν ο} {p : Option ο} {v w : ν} {x : ο} {a : RefOp ν ο}

theorem Kept.alive (h : s.Kept) (hpos : 0 < s.strongRefs x) : s.alive x = true := by
  unfold RefWorld.alive
  cases hcreated : s.created x with
  | false =>
    have hzero := (h.fresh x hcreated).1
    omega
  | true =>
    rw [h.deleted x hcreated, if_neg (Nat.pos_iff_ne_zero.1 hpos)]
    rfl

theorem Kept.pos_of_alive (h : s.Kept) (halive : s.alive x = true) : 0 < s.strongRefs x := by
  unfold RefWorld.alive at halive
  rw [Bool.and_eq_true, beq_iff_eq] at halive
  have hdeleted := h.deleted x halive.1
  rw [halive.2] at hdeleted
  refine Nat.pos_of_ne_zero fun hzero => ?_
  rw [if_pos hzero] at hdeleted
  cases hdeleted

/-- What is true of the objects does not depend on who owns the references. -/
theorem Kept.congr (h : s.Kept) (hcreated : s'.created = s.created)
    (hcount : s'.strongRefs = s.strongRefs) (hdeletions : s'.deletions = s.deletions)
    (hfault : s'.fault = s.fault) : s'.Kept where
  fresh := by
    rw [hcreated, hcount, hdeletions]
    exact h.fresh
  deleted := by
    rw [hcreated, hcount, hdeletions]
    exact h.deleted
  lt := by
    rw [hcount]
    exact h.lt
  noFault := hfault.trans h.noFault

section

variable [DecidableEq ο]

theorem held_of_eq (h : p = some x) : held p x = 1 := if_pos h

theorem held_of_ne (h : p ≠ some x) : held p x = 0 := if_neg h

theorem strongRefs_safeRetain (hroom : ∀ y ∈ p, s.strongRefs y + 1 < 2 ^ 32) :
    (safeRetain p s).strongRefs x = s.strongRefs x + held p x := by
  cases p with
  | none => rfl
  | some y =>
    unfold safeRetain
    by_cases hx : y = x
    · subst hx
      rw [held_of_eq rfl]
      exact (Function.update_self y _ _).trans (Nat.mod_eq_of_lt (hroom y rfl))
    · rw [held_of_ne fun h => hx (Option.some.inj h)]
      exact Function.update_of_ne (Ne.symm hx) _ _

theorem strongRefs_releaseObj (h : s.Kept) {y : ο} (hpos : 0 < s.strongRefs y) :
    (releaseObj y s).strongRefs x + held (some y) x = s.strongRefs x := by
  unfold releaseObj
  by_cases hx : y = x
  · subst hx
    have hlt := h.lt y
    rw [held_of_eq rfl]
    dsimp only
    rw [Function.update_self]
    omega
  · rw [held_of_ne fun h => hx (Option.some.inj h)]
    exact Function.update_of_ne (Ne.symm hx) _ _

theorem Kept.safeRetain (h : s.Kept) (hpos : ∀ y ∈ p, 0 < s.strongRefs y)
    (hroom : ∀ y ∈ p, s.strongRefs y + 1 < 2 ^ 32) : (safeRetain p s).Kept := by
  have hcount := fun x => strongRefs_safeRetain (x := x) hroom
  cases p with
  | none => exact h
  | some y =>
    have hy := hpos y rfl
    have hlive := h.alive hy
    refine ⟨fun x hx => ⟨?_, (h.fresh x hx).2⟩, fun x hx => ?_, fun x => ?_, ?_⟩
    · have hzero := (h.fresh x hx).1
      rw [hcount, hzero, held_of_ne]
      intro heq
      rw [Option.some.inj heq] at hy
      omega
    · rw [hcount]
      refine (h.deleted x hx).trans ?_
      by_cases heq : some y = some x
      · rw [Option.some.inj heq] at hy
        rw [if_neg (by omega), if_neg (by omega)]
      · rw [held_of_ne heq, Nat.add_zero]
    · rw [hcount]
      by_cases heq : some y = some x
      · rw [held_of_eq heq]
        exact hroom x heq
      · rw [held_of_ne heq]
        exact h.lt x
    · change (s.fault || !s.alive y) = false
      rw [h.noFault, hlive]
      rfl

theorem deletions_releaseObj (h : s.Kept) {y : ο} (hpos : 0 < s.strongRefs y) :
    (RefWorld.releaseObj y s).deletions x =
      s.deletions x + if y = x ∧ s.strongRefs x = 1 then 1 else 0 := by
  have hlt := h.lt y
  have hlast : (s.strongRefs y + (2 ^ 32 - 1)) % 2 ^ 32 = 0 ↔ s.strongRefs y = 1 := by omega
  unfold RefWorld.releaseObj
  dsimp only
  by_cases hx : y = x
  · subst hx
    by_cases hone : s.strongRefs y = 1
    · rw [if_pos (hlast.2 hone), if_pos ⟨rfl, hone⟩]
      exact Function.update_self y _ _
    · rw [if_neg fun h => hone (hlast.1 h), if_neg fun h => hone h.2]
      rfl
  · rw [if_neg (not_and_of_not_left (s.strongRefs x = 1) hx)]
    split
    · exact Function.update_of_ne (Ne.symm hx) _ _
    · rfl

theorem Kept.releaseObj (h : s.Kept) {y : ο} (hpos : 0 < s.strongRefs y) :
    (releaseObj y s).Kept := by
  have hcount := fun x => strongRefs_releaseObj (x := x) h hpos
  have hdeletions := fun x => deletions_releaseObj (x := x) h hpos
  refine ⟨fun x hx => ?_, fun x hx => ?_, fun x => ?_, ?_⟩
  · have hzero := (h.fresh x hx).1
    have hnone := (h.fresh x hx).2
    have hx' := hcount x
    have hnot : ¬ (y = x ∧ s.strongRefs x = 1) := by
      rintro ⟨-, hone⟩
      omega
    rw [hdeletions, if_neg hnot]
    omega
  · have hx' := hcount x
    rw [hdeletions, h.deleted x hx]
    by_cases heq : y = x
    · subst heq
      rw [held_of_eq rfl] at hx'
      rw [if_neg (Nat.pos_iff_ne_zero.1 hpos), Nat.zero_add]
      refine if_congr ?_ rfl rfl
      rw [and_iff_right rfl]
      omega
    · rw [held_of_ne fun h => heq (Option.some.inj h)] at hx'
      rw [if_neg (not_and_of_not_left _ heq), Nat.add_zero]
      refine if_congr ?_ rfl rfl
      omega
  · have hx' := hcount x
    have hlt := h.lt x
    omega
  · change (s.fault || !s.alive y) = false
    rw [h.noFault, h.alive hpos]
    rfl

theorem Kept.give (h : s.Kept) (p : Option ο) : (give p s).Kept := by
  cases p <;> exact h.congr rfl rfl rfl rfl

theorem Kept.take (h : s.Kept) (p : Option ο) : (take p s).Kept := by
  cases p <;> exact h.congr rfl rfl rfl rfl

end

theorem Kept.setPtr [DecidableEq ν] (h : s.Kept) (v : ν) (q : Option (Option ο)) :
    (setPtr v q s).Kept :=
  h.congr rfl rfl rfl rfl

theorem get_of_not_has (h : ¬ s.Has v) : s.get v = none := by
  have hnone : s.ptrs v = none := by
    cases hv : s.ptrs v with
    | none => rfl
    | some q => exact absurd (by rw [Has, hv]; rfl) h
  unfold get
  rw [hnone]
  rfl

/-! ## References -/

section

variable [Fintype ν] [DecidableEq ο]

/-- How many references the count has too many. -/
def excess (s : RefWorld ν ο) (x : ο) : ℤ := s.strongRefs x - s.references x

theorem excess_safeRetain (hroom : ∀ y ∈ p, s.strongRefs y + 1 < 2 ^ 32) :
    (safeRetain p s).excess x = s.excess x + held p x := by
  have hcount := strongRefs_safeRetain (x := x) hroom
  have hreferences : (safeRetain p s).references x = s.references x := by
    cases p <;> rfl
  unfold excess
  omega

theorem excess_releaseObj (h : s.Kept) {y : ο} (hpos : 0 < s.strongRefs y) :
    (releaseObj y s).excess x = s.excess x - held (some y) x := by
  have hcount := strongRefs_releaseObj (x := x) h hpos
  have hreferences : (releaseObj y s).references x = s.references x := rfl
  unfold excess
  omega

theorem excess_give : (give p s).excess x = s.excess x - held p x := by
  cases p with
  | none => exact (sub_zero (s.excess x)).symm
  | some y =>
    have hholders : (give (some y) s).holders x = s.holders x := rfl
    have hraw : (give (some y) s).raw x = s.raw x + held (some y) x := by
      by_cases hx : y = x
      · subst hx
        rw [held_of_eq rfl]
        exact Function.update_self y _ _
      · rw [held_of_ne fun h => hx (Option.some.inj h)]
        exact Function.update_of_ne (Ne.symm hx) _ _
    have hcount : (give (some y) s).strongRefs x = s.strongRefs x := rfl
    unfold excess references
    omega

theorem excess_take (howns : s.Owns p) : (take p s).excess x = s.excess x + held p x := by
  cases p with
  | none => exact (add_zero (s.excess x)).symm
  | some y =>
    have hy := howns y rfl
    have hholders : (take (some y) s).holders x = s.holders x := rfl
    have hraw : (take (some y) s).raw x + held (some y) x = s.raw x := by
      by_cases hx : y = x
      · subst hx
        have hself : (take (some y) s).raw y = s.raw y - 1 := Function.update_self y _ _
        rw [held_of_eq rfl, hself]
        omega
      · rw [held_of_ne fun h => hx (Option.some.inj h)]
        exact Function.update_of_ne (Ne.symm hx) _ _
    have hcount : (take (some y) s).strongRefs x = s.strongRefs x := rfl
    unfold excess references
    omega

omit [Fintype ν] [DecidableEq ο] in
theorem get_setPtr [DecidableEq ν] (v : ν) (q : Option (Option ο)) :
    (setPtr v q s).get = Function.update s.get v q.join := by
  funext u
  exact Function.apply_update (fun _ => Option.join) s.ptrs v q u

theorem excess_setPtr [DecidableEq ν] (v : ν) (q : Option (Option ο)) :
    (setPtr v q s).excess x = s.excess x + held (s.get v) x - held q.join x := by
  have hholders : (setPtr v q s).holders x + held (s.get v) x =
      s.holders x + held q.join x := by
    have hupdate : (fun u => held ((setPtr v q s).get u) x) =
        Function.update (fun u => held (s.get u) x) v (held q.join x) := by
      rw [get_setPtr]
      funext u
      exact Function.apply_update (fun _ p => held p x) s.get v q.join u
    unfold holders
    rw [hupdate, Finset.sum_update_of_mem (Finset.mem_univ v),
      ← Finset.add_sum_erase _ _ (Finset.mem_univ v), Finset.sdiff_singleton_eq_erase]
    omega
  have hraw : (setPtr v q s).raw x = s.raw x := rfl
  have hcount : (setPtr v q s).strongRefs x = s.strongRefs x := rfl
  unfold excess references
  omega

end

end RefWorld

end Yasio
