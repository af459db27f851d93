import Yasio.StringBounds

/-!
# `c_str` and `view`

`_Eos` writes the terminator wherever a string grows.  The calls that only lower the size, and those
that only get a block, write none.
-/

namespace Yasio

variable {α : Type} [DecidableEq α] [Zero α]

/-- A C function that reads `c_str()` sees what is in `view()`. -/
structure StringState.Agrees (s : StringState α) : Prop where
  terminated : s.cStr[s.vec.size]? = some 0
  before : s.cStr.take s.vec.size = s.view
  reads : 0 ∉ s.view → s.cStr.takeWhile (· ≠ 0) = s.view

theorem StringState.agrees_of_terminated {s : StringState α}
    (h : s.cStr[s.vec.size]? = some 0) : s.Agrees where
  terminated := h
  before := rfl
  reads := fun hzero => by
    obtain ⟨hlt, hget⟩ := List.getElem?_eq_some_iff.1 h
    have hsplit : s.cStr = s.view ++ 0 :: s.cStr.drop (s.vec.size + 1) := by
      rw [← hget, ← List.drop_eq_getElem_cons hlt]
      exact (List.take_append_drop _ _).symm
    have hall : ∀ a ∈ s.view, decide (a ≠ 0) = true := by
      intro a ha
      exact decide_eq_true fun ha0 => hzero (ha0 ▸ ha)
    rw [hsplit, List.takeWhile_append_of_pos hall, List.takeWhile_cons_of_neg (by simp),
      List.append_nil]

namespace StringFamily

variable {sizeof : ℕ} {σ : StringFamily α}

/-- The call stays inside the block of its string, copies no range to one that overlaps it, and
leaves a terminator. -/
def Terminates (sizeof : ℕ) (σ : StringFamily α) (a : StringAction α) : Prop :=
  σ.Contained sizeof {.strayRead, .overflow} a ∧
    ∀ i op grants, a = .call i op grants → op.Ends grants (σ.object i)

/-- After every run of actions that leave a terminator, `c_str()` and `view()` of each string
agree. -/
theorem cStr_agrees_of_run (sizeof : ℕ) (heap : Heap α) {as : List (StringAction α)}
    (hterminates : Machine.Meets (step sizeof) (Terminates sizeof) as (empty heap))
    (hrun : Machine.run (step sizeof) as (empty heap) = some σ) (i : ℕ) :
    (σ.object i).Agrees := by
  have hsound : σ.Sound sizeof {.strayRead, .overflow} True := by
    refine Machine.invariant_of_meets (I := fun σ : StringFamily α =>
      σ.Sound sizeof {.strayRead, .overflow} True) ?_ (sound_empty heap) hterminates hrun
    rintro σ a σ' hσ ⟨hcontained, hends⟩ hstep
    obtain rfl := Option.some.inj hstep
    exact hσ.act hcontained (fun _ => hends) (by simp) (by simp)
  exact StringState.agrees_of_terminated (hsound.terminated trivial i)

/-- `append`, `insert` and `replace` always write a terminator. -/
theorem ends_growAndReplace : ∀ a ∈ growAndReplace, ∀ (σ : StringFamily ℕ) i op grants,
    a = .call i op grants → op.Ends grants (σ.object i) := by
  intro a ha σ i op grants heq
  subst heq
  simp only [growAndReplace, List.mem_cons, StringAction.call.injEq, List.not_mem_nil,
    or_false] at ha
  obtain ⟨-, rfl, -⟩ | ⟨-, rfl, -⟩ | ⟨-, rfl, -⟩ | ⟨-, rfl, -⟩ | ⟨-, rfl, -⟩ | ⟨-, rfl, -⟩ := ha <;>
    trivial

theorem cStr_agrees_growAndReplace : ∃ σ : StringFamily ℕ,
    Machine.run (step 1) growAndReplace (empty fun _ => none) = some σ ∧
      σ.contents 0 = [49, 50, 51, 98, 52, 53, 54, 55, 56] ∧ (σ.object 0).Agrees := by
  have hterminates : Machine.Meets (step 1) (Terminates 1) growAndReplace (empty fun _ => none) :=
    ((contained_growAndReplace _).and_of_forall ends_growAndReplace).mono
      fun σ _ h => ⟨h.1, h.2 σ⟩
  exact ⟨_, rfl, by decide +kernel, cStr_agrees_of_run 1 (fun _ => none) hterminates rfl 0⟩

/-- `clear()` of a string of one character leaves the character where the terminator has to be. -/
def pushAndClear : List (StringAction ℕ) :=
  [.call 0 (.pushBack 97) grantZero, .call 0 .clear grantZero]

theorem not_cStr_agrees_pushAndClear : ¬ ∀ (as : List (StringAction ℕ)) (σ : StringFamily ℕ),
    Machine.Meets (step 1) (Legal 1) as (empty fun _ => none) →
    Machine.run (step 1) as (empty fun _ => none) = some σ → ∀ i, (σ.object i).Agrees := by
  intro hall
  have hlegal : Machine.Meets (step 1) (Legal 1) pushAndClear (empty fun _ => none) := by
    refine ⟨legal_grantZero trivial (fun _ _ => rfl) nofun, ?_, trivial⟩
    refine legal_grantZero trivial (fun j hj => ?_) nofun
    change (Function.update (fun _ => ({} : PodVector)) 0 _ j).first = none
    rw [Function.update_of_ne hj]
  have hagrees := hall pushAndClear _ hlegal rfl 0
  exact absurd hagrees.terminated (by decide)

end StringFamily

end Yasio
