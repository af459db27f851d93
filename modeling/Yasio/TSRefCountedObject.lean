import Mathlib.Algebra.Order.BigOperators.Group.Finset
import Mathlib.Data.Fintype.BigOperators
import Yasio.Lib.Machine

/-!
# Reference counts that threads share

A thread gives up its reference in three steps: it decrements the count, it reads the count, and it
deletes the object if it has read zero.  Other threads take their steps in between.
-/

namespace Yasio

variable {ι : Type} [DecidableEq ι]

/-- Where a thread is in `release()`. -/
inductive ReleasePhase
  | idle
  | tests
  | deletes
  deriving DecidableEq

/-- A thread and the references that it holds. -/
structure RefHolder where
  refs : ℕ := 1
  phase : ReleasePhase := .idle

/-- The object, with what has happened to it. -/
structure TSRefCountedObject (ι : Type) where
  refCount : ℕ
  holders : ι → RefHolder := fun _ => {}
  deletedBy : List ι := []
  /-- The thread that has given up a reference last. -/
  lastRelease : Option ι := none
  /-- A thread has accessed the count of the deleted object. -/
  late : Bool := false

/-- One atomic access, or the deletion. -/
inductive RefAction (ι : Type)
  | retain (i : ι)
  | decrement (i : ι)
  | test (i : ι)
  | delete (i : ι)

namespace TSRefCountedObject

def setHolder (s : TSRefCountedObject ι) (i : ι) (h : RefHolder) : TSRefCountedObject ι :=
  { s with holders := Function.update s.holders i h }

/-- An access to the count, which is a `std::atomic_uint`. -/
def access (s : TSRefCountedObject ι) (refCount : ℕ) : TSRefCountedObject ι :=
  { s with refCount := refCount % 2 ^ 32, late := s.late || !s.deletedBy.isEmpty }

def step : RefAction ι → TSRefCountedObject ι → Option (TSRefCountedObject ι)
  | .retain i, s =>
    let h := s.holders i
    if h.phase = .idle ∧ 0 < h.refs then
      some ((s.access (s.refCount + 1)).setHolder i { h with refs := h.refs + 1 })
    else none
  | .decrement i, s =>
    let h := s.holders i
    if h.phase = .idle ∧ 0 < h.refs then
      some { (s.access (s.refCount + (2 ^ 32 - 1))).setHolder i ⟨h.refs - 1, .tests⟩ with
        lastRelease := some i }
    else none
  | .test i, s =>
    let h := s.holders i
    if h.phase = .tests then
      some ((s.access s.refCount).setHolder i
        { h with phase := if s.refCount = 0 then .deletes else .idle })
    else none
  | .delete i, s =>
    let h := s.holders i
    if h.phase = .deletes then
      some { s.setHolder i { h with phase := .idle } with deletedBy := s.deletedBy ++ [i] }
    else none

section

variable [Fintype ι]

/-- Each thread holds one reference. -/
def shared (ι : Type) [Fintype ι] : TSRefCountedObject ι := { refCount := Fintype.card ι }

def references (s : TSRefCountedObject ι) : ℕ := ∑ i, (s.holders i).refs

/-- The object is deleted once, by the thread that has given up the last reference, and no thread
accesses the count afterwards. -/
structure DeletedOnce (s : TSRefCountedObject ι) : Prop where
  notLate : s.late = false
  byLast : s.deletedBy = [] ∨ ∃ i, s.deletedBy = [i] ∧ s.lastRelease = some i ∧ s.references = 0
  deleted : (∀ i, (s.holders i).refs = 0 ∧ (s.holders i).phase = .idle) → s.deletedBy ≠ []

/-- The count does not wrap, and a thread gives up the last reference only while no other thread is
about to read the count. -/
def Alone (s : TSRefCountedObject ι) : RefAction ι → Prop
  | .retain _ => s.refCount + 1 < 2 ^ 32
  | .decrement i => s.refCount = 1 → ∀ j ≠ i, (s.holders j).phase ≠ .tests
  | _ => True

instance decidableAlone (s : TSRefCountedObject ι) : ∀ a, Decidable (s.Alone a)
  | .retain _ => inferInstanceAs (Decidable (s.refCount + 1 < 2 ^ 32))
  | .decrement i =>
    inferInstanceAs (Decidable (s.refCount = 1 → ∀ j ≠ i, (s.holders j).phase ≠ .tests))
  | .test _ => .isTrue trivial
  | .delete _ => .isTrue trivial

theorem references_setHolder (s : TSRefCountedObject ι) (i : ι) (refs : ℕ)
    (phase : ReleasePhase) :
    (s.setHolder i ⟨refs, phase⟩).references + (s.holders i).refs = s.references + refs := by
  have hrefs : (fun j => ((s.setHolder i ⟨refs, phase⟩).holders j).refs) =
      Function.update (fun j => (s.holders j).refs) i refs := by
    funext j
    exact Function.apply_update (fun _ => RefHolder.refs) s.holders i ⟨refs, phase⟩ j
  unfold references
  rw [hrefs, Finset.sum_update_of_mem (Finset.mem_univ i),
    ← Finset.add_sum_erase _ _ (Finset.mem_univ i), Finset.sdiff_singleton_eq_erase]
  omega

theorem references_access (s : TSRefCountedObject ι) (n : ℕ) (i : ι) (refs : ℕ)
    (phase : ReleasePhase) :
    ((s.access n).setHolder i ⟨refs, phase⟩).references + (s.holders i).refs =
      s.references + refs :=
  references_setHolder (s.access n) i refs phase

omit [DecidableEq ι] in
theorem refs_le_references (s : TSRefCountedObject ι) (i : ι) :
    (s.holders i).refs ≤ s.references :=
  Finset.single_le_sum (fun j _ => Nat.zero_le (s.holders j).refs) (Finset.mem_univ i)

/-- The count is that of the references.  Once it is zero only the thread that has made it so is
about to do something. -/
structure Counted (s : TSRefCountedObject ι) : Prop where
  count : s.refCount = s.references
  lt : s.refCount < 2 ^ 32
  notLate : s.late = false
  phase : (0 < s.refCount ∧ s.deletedBy = [] ∧ ∀ i, (s.holders i).phase ≠ .deletes) ∨
    (s.refCount = 0 ∧ ∃ t, s.lastRelease = some t ∧ (∀ i ≠ t, (s.holders i).phase = .idle) ∧
      ((s.deletedBy = [] ∧ (s.holders t).phase ≠ .idle) ∨
        (s.deletedBy = [t] ∧ (s.holders t).phase = .idle)))

variable {s s' : TSRefCountedObject ι} {i : ι} {a : RefAction ι}

omit [Fintype ι] in
theorem holder_setHolder (s : TSRefCountedObject ι) (i : ι) (h : RefHolder) :
    (s.setHolder i h).holders i = h := by
  unfold setHolder
  exact Function.update_self i h s.holders

omit [Fintype ι] in
theorem holder_setHolder_of_ne {j : ι} (hj : j ≠ i) (s : TSRefCountedObject ι) (h : RefHolder) :
    (s.setHolder i h).holders j = s.holders j := by
  unfold setHolder
  exact Function.update_of_ne hj h s.holders

omit [Fintype ι] in
/-- What holds of the new state of a thread and of the states of the others. -/
theorem forall_setHolder {P : RefHolder → Prop} {h : RefHolder} (hi : P h)
    (hne : ∀ j ≠ i, P (s.holders j)) (j : ι) : P ((s.setHolder i h).holders j) := by
  by_cases hj : j = i
  · subst hj
    rwa [holder_setHolder]
  · rw [holder_setHolder_of_ne hj]
    exact hne j hj

omit [DecidableEq ι] [Fintype ι] in
theorem late_access (hlate : s.late = false) (hnone : s.deletedBy = []) (n : ℕ) :
    (s.access n).late = false := by
  unfold access
  rw [hlate, hnone]
  rfl

omit [DecidableEq ι] in
/-- While there is a reference the object lives. -/
theorem Counted.alive (h : s.Counted) (hrefs : 0 < (s.holders i).refs) :
    0 < s.refCount ∧ s.deletedBy = [] ∧ ∀ j, (s.holders j).phase ≠ .deletes := by
  refine h.phase.resolve_right fun hzero => ?_
  have hle := refs_le_references s i
  have hcount := h.count
  omega

theorem Counted.retain (h : s.Counted) (hrefs : 0 < (s.holders i).refs)
    (hphase : (s.holders i).phase = .idle) (hlt : s.refCount + 1 < 2 ^ 32) :
    ((s.access (s.refCount + 1)).setHolder i
      ⟨(s.holders i).refs + 1, (s.holders i).phase⟩).Counted := by
  obtain ⟨hpos, hnone, hphases⟩ := h.alive hrefs
  have hmod : (s.refCount + 1) % 2 ^ 32 = s.refCount + 1 := Nat.mod_eq_of_lt hlt
  have hsum := references_access s (s.refCount + 1) i ((s.holders i).refs + 1) (s.holders i).phase
  have hcount := h.count
  refine ⟨?_, ?_, late_access h.notLate hnone (s.refCount + 1), .inl ⟨?_, hnone, ?_⟩⟩
  · change (s.refCount + 1) % 2 ^ 32 = _
    omega
  · change (s.refCount + 1) % 2 ^ 32 < _
    omega
  · change 0 < (s.refCount + 1) % 2 ^ 32
    omega
  · refine forall_setHolder (P := fun h => h.phase ≠ .deletes) ?_ fun j _ => hphases j
    rw [hphase]
    exact nofun

theorem Counted.decrement {n : ℕ} (h : s.Counted) (hrefs : 0 < (s.holders i).refs)
    (hn : n % 2 ^ 32 = s.refCount - 1)
    (halone : s.refCount = 1 → ∀ j ≠ i, (s.holders j).phase ≠ .tests) :
    ({ (s.access n).setHolder i ⟨(s.holders i).refs - 1, .tests⟩ with
      lastRelease := some i } : TSRefCountedObject ι).Counted := by
  obtain ⟨hpos, hnone, hphases⟩ := h.alive hrefs
  have hlt := h.lt
  have hsum := references_access s n i ((s.holders i).refs - 1) .tests
  have hcount := h.count
  refine ⟨?_, ?_, ?_, ?_⟩
  · change n % 2 ^ 32 = ((s.access _).setHolder i _).references
    omega
  · change n % 2 ^ 32 < _
    omega
  · exact late_access h.notLate hnone n
  · by_cases hone : s.refCount = 1
    · right
      refine ⟨?_, i, rfl, fun j hj => ?_, .inl ⟨hnone, ?_⟩⟩
      · change n % 2 ^ 32 = 0
        omega
      · change (((s.access _).setHolder i _).holders j).phase = .idle
        rw [holder_setHolder_of_ne hj]
        have htests := halone hone j hj
        have hdeletes := hphases j
        change (s.holders j).phase = .idle
        cases hphase : (s.holders j).phase with
        | idle => rfl
        | tests => exact absurd hphase htests
        | deletes => exact absurd hphase hdeletes
      · change (((s.access _).setHolder i _).holders i).phase ≠ .idle
        rw [holder_setHolder]
        exact nofun
    · left
      refine ⟨?_, hnone, ?_⟩
      · change 0 < n % 2 ^ 32
        omega
      · exact forall_setHolder (P := fun h => h.phase ≠ .deletes) nofun fun j _ => hphases j

omit [DecidableEq ι] in
/-- The thread that is about to do something once the count is zero. -/
theorem Counted.ending (h : s.Counted) (hzero : s.refCount = 0)
    (hphase : (s.holders i).phase ≠ .idle) :
    s.lastRelease = some i ∧ (∀ j ≠ i, (s.holders j).phase = .idle) ∧ s.deletedBy = [] := by
  obtain ⟨hpos, -⟩ | ⟨-, t, hlast, hidle, hend⟩ := h.phase
  · exact absurd hzero (Nat.pos_iff_ne_zero.1 hpos)
  · obtain rfl : t = i := by
      by_contra hne
      exact hphase (hidle i (Ne.symm hne))
    obtain ⟨hnone, -⟩ | ⟨-, hdone⟩ := hend
    · exact ⟨hlast, hidle, hnone⟩
    · exact absurd hdone hphase

theorem Counted.test (h : s.Counted) (hphase : (s.holders i).phase = .tests) :
    ((s.access s.refCount).setHolder i
      ⟨(s.holders i).refs, if s.refCount = 0 then .deletes else .idle⟩).Counted := by
  have hmod : s.refCount % 2 ^ 32 = s.refCount := Nat.mod_eq_of_lt h.lt
  have hsum := references_access s s.refCount i (s.holders i).refs
    (if s.refCount = 0 then .deletes else .idle)
  have hcount := h.count
  have hbusy : (s.holders i).phase ≠ .idle := by
    rw [hphase]
    exact nofun
  have hnone : s.deletedBy = [] := by
    by_cases hzero : s.refCount = 0
    · exact (h.ending hzero hbusy).2.2
    · exact (h.phase.resolve_right fun hend => hzero hend.1).2.1
  refine ⟨?_, ?_, ?_, ?_⟩
  · change s.refCount % 2 ^ 32 = _
    omega
  · change s.refCount % 2 ^ 32 < _
    rw [hmod]
    exact h.lt
  · exact late_access h.notLate hnone s.refCount
  · by_cases hzero : s.refCount = 0
    · obtain ⟨hlast, hidle, -⟩ := h.ending hzero hbusy
      refine .inr ⟨hmod.trans hzero, i, hlast, fun j hj => ?_, .inl ⟨hnone, ?_⟩⟩
      · rw [holder_setHolder_of_ne hj]
        exact hidle j hj
      · rw [holder_setHolder, if_pos hzero]
        exact nofun
    · obtain ⟨-, -, hphases⟩ := h.phase.resolve_right fun hend => hzero hend.1
      refine .inl ⟨?_, hnone, ?_⟩
      · change 0 < s.refCount % 2 ^ 32
        omega
      · refine forall_setHolder (P := fun h => h.phase ≠ .deletes) ?_ fun j _ => hphases j
        rw [if_neg hzero]
        exact nofun

theorem Counted.delete (h : s.Counted) (hphase : (s.holders i).phase = .deletes) :
    ({ s.setHolder i ⟨(s.holders i).refs, .idle⟩ with
      deletedBy := s.deletedBy ++ [i] } : TSRefCountedObject ι).Counted := by
  have hsum := references_setHolder s i (s.holders i).refs .idle
  have hcount := h.count
  have hzero : s.refCount = 0 := by
    obtain ⟨-, -, hphases⟩ | ⟨hzero, -⟩ := h.phase
    · exact absurd hphase (hphases i)
    · exact hzero
  have hbusy : (s.holders i).phase ≠ .idle := by
    rw [hphase]
    exact nofun
  obtain ⟨hlast, hidle, hnone⟩ := h.ending hzero hbusy
  refine ⟨?_, h.lt, h.notLate, .inr ⟨hzero, i, hlast, fun j hj => ?_, .inr ⟨?_, ?_⟩⟩⟩
  · change s.refCount = (s.setHolder i _).references
    omega
  · change ((s.setHolder i _).holders j).phase = .idle
    rw [holder_setHolder_of_ne hj]
    exact hidle j hj
  · change s.deletedBy ++ [i] = [i]
    rw [hnone, List.nil_append]
  · change ((s.setHolder i _).holders i).phase = .idle
    rw [holder_setHolder]

theorem Counted.step (h : s.Counted) (halone : s.Alone a) (hstep : step a s = some s') :
    s'.Counted := by
  cases a with
  | retain i =>
    obtain ⟨⟨hphase, hrefs⟩, hstep⟩ := Option.ite_none_right_eq_some.1 hstep
    obtain rfl := Option.some.inj hstep
    exact h.retain hrefs hphase halone
  | decrement i =>
    obtain ⟨⟨hphase, hrefs⟩, hstep⟩ := Option.ite_none_right_eq_some.1 hstep
    obtain rfl := Option.some.inj hstep
    have hlt := h.lt
    have hpos := (h.alive hrefs).1
    exact h.decrement hrefs (by omega) halone
  | test i =>
    obtain ⟨hphase, hstep⟩ := Option.ite_none_right_eq_some.1 hstep
    obtain rfl := Option.some.inj hstep
    exact h.test hphase
  | delete i =>
    obtain ⟨hphase, hstep⟩ := Option.ite_none_right_eq_some.1 hstep
    obtain rfl := Option.some.inj hstep
    exact h.delete hphase

omit [DecidableEq ι] in
theorem counted_shared (hpos : 0 < Fintype.card ι) (hlt : Fintype.card ι < 2 ^ 32) :
    (shared ι).Counted where
  count := by simp [shared, references]
  lt := hlt
  notLate := rfl
  phase := .inl ⟨hpos, rfl, fun _ => nofun⟩

omit [DecidableEq ι] in
theorem Counted.deletedOnce (h : s.Counted) : s.DeletedOnce where
  notLate := h.notLate
  byLast := by
    obtain ⟨-, hnone, -⟩ | ⟨hzero, t, hlast, -, hend⟩ := h.phase
    · exact .inl hnone
    · obtain ⟨hnone, -⟩ | ⟨hdeleted, -⟩ := hend
      · exact .inl hnone
      · exact .inr ⟨t, hdeleted, hlast, h.count.symm.trans hzero⟩
  deleted := by
    intro hdone hnone
    obtain ⟨hpos, -⟩ | ⟨-, t, -, -, hend⟩ := h.phase
    · have hrefs : s.references = 0 := Finset.sum_eq_zero fun j _ => (hdone j).1
      have hcount := h.count
      omega
    · obtain ⟨-, hbusy⟩ | ⟨hdeleted, -⟩ := hend
      · exact hbusy (hdone t).2
      · cases hdeleted.symm.trans hnone

/-- In a run that never has a thread about to read the count when another one gives up the last
reference, the object is deleted once. -/
theorem deletedOnce_of_run (hpos : 0 < Fintype.card ι) (hlt : Fintype.card ι < 2 ^ 32)
    {as : List (RefAction ι)} (halone : Machine.Meets step Alone as (shared ι))
    (hrun : Machine.run step as (shared ι) = some s) : s.DeletedOnce :=
  (Machine.invariant_of_meets (fun _ _ _ h hC hstep => h.step hC hstep)
    (counted_shared hpos hlt) halone hrun).deletedOnce

end

/-- One thread after the other. -/
def inTurn (i j : ι) : List (RefAction ι) :=
  [.decrement i, .test i, .retain j, .decrement j, .test j, .decrement j, .test j, .delete j]

theorem deletedOnce_inTurn : ∃ s, Machine.run step (inTurn 0 1) (shared (Fin 2)) = some s ∧
    s.DeletedOnce ∧ s.deletedBy = [1] := by
  have halone : Machine.Meets step Alone (inTurn 0 1) (shared (Fin 2)) := by decide
  exact ⟨_, rfl, deletedOnce_of_run (by decide) (by decide) halone rfl, by decide⟩

/-- Both threads have decremented the count before one of them reads it. -/
def together (i j : ι) : List (RefAction ι) :=
  [.decrement i, .decrement j, .test i, .delete i, .test j, .delete j]

theorem not_deletedOnce_together : ¬ ∀ (n : ℕ), 0 < n → n < 2 ^ 32 →
    ∀ (as : List (RefAction (Fin n))) (s : TSRefCountedObject (Fin n)),
      Machine.run step as (shared (Fin n)) = some s → s.DeletedOnce := by
  intro hall
  have honce := hall 2 (by decide) (by decide) (together 0 1) _ rfl
  exact absurd honce.notLate (by decide)

end TSRefCountedObject

end Yasio
