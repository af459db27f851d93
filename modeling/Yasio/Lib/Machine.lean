import Mathlib.Data.List.Basic

/-!
# Runs of a partial step function

A machine is a step function that answers `none` when the action is not enabled in the state.
`run` takes a list of actions in order.  `Meets C` says of such a list that each action is taken
in a state where the condition `C` allows it; a run that stops early meets it as far as it got.
The rules below turn a fact about one step into a fact about whole runs.
-/

namespace Machine

variable {σ α : Type*} (step : α → σ → Option σ)

/-- The state after a list of actions. -/
def run : List α → σ → Option σ
  | [], s => some s
  | a :: as, s => (step a s).bind (run as)

/-- Each action of the list is taken in a state where `C` holds of it. -/
def Meets (C : σ → α → Prop) : List α → σ → Prop
  | [], _ => True
  | a :: as, s => C s a ∧ (step a s).elim True (Meets C as)

instance decidableMeets (C : σ → α → Prop) [∀ s a, Decidable (C s a)] :
    ∀ as s, Decidable (Meets step C as s)
  | [], _ => .isTrue trivial
  | a :: as, s =>
    match h : step a s with
    | none => decidable_of_iff (C s a) (by simp [Meets, h])
    | some s' =>
      have := decidableMeets C as s'
      decidable_of_iff (C s a ∧ Meets step C as s') (by simp [Meets, h])

variable {step}

@[simp] theorem run_nil (s : σ) : run step [] s = some s := rfl

theorem run_cons {a : α} {as : List α} {s s' : σ} :
    run step (a :: as) s = some s' ↔ ∃ t, step a s = some t ∧ run step as t = some s' := by
  simp [run, Option.bind_eq_some_iff]

theorem meets_cons {C : σ → α → Prop} {a : α} {as : List α} {s : σ} :
    Meets step C (a :: as) s ↔ C s a ∧ ∀ t, step a s = some t → Meets step C as t := by
  cases h : step a s <;> simp [Meets, h]

variable (step) in
/-- A run whose last state passes a test. -/
theorem exists_of_any (as : List α) (s : σ) (P : σ → Prop) [DecidablePred P]
    (h : (run step as s).any (fun s => decide (P s)) = true) :
    ∃ s', run step as s = some s' ∧ P s' := by
  cases hrun : run step as s with
  | none => simp [hrun] at h
  | some s' => exact ⟨s', rfl, by simpa [hrun] using h⟩

theorem Meets.mono {C D : σ → α → Prop} (hCD : ∀ s a, C s a → D s a) {as : List α} {s : σ}
    (h : Meets step C as s) : Meets step D as s := by
  induction as generalizing s with
  | nil => trivial
  | cons a as ih =>
    rw [meets_cons] at h ⊢
    exact ⟨hCD s a h.1, fun t ht => ih (h.2 t ht)⟩

/-- A condition on the states and one on the actions alone. -/
theorem Meets.and_of_forall {C : σ → α → Prop} {P : α → Prop} {as : List α} {s : σ}
    (h : Meets step C as s) (hP : ∀ a ∈ as, P a) : Meets step (fun s a => C s a ∧ P a) as s := by
  induction as generalizing s with
  | nil => trivial
  | cons a as ih =>
    rw [meets_cons] at h ⊢
    refine ⟨⟨h.1, hP a List.mem_cons_self⟩, fun t ht => ih (h.2 t ht) ?_⟩
    exact fun a' ha' => hP a' (List.mem_cons_of_mem a ha')

/-- What every allowed step keeps, every run whose steps are allowed keeps. -/
theorem invariant_of_meets {C : σ → α → Prop} {I : σ → Prop}
    (hstep : ∀ s a s', I s → C s a → step a s = some s' → I s')
    {as : List α} {s s' : σ} (hs : I s) (hC : Meets step C as s)
    (hrun : run step as s = some s') : I s' := by
  induction as generalizing s with
  | nil =>
    obtain rfl : s = s' := by simpa using hrun
    exact hs
  | cons a as ih =>
    obtain ⟨t, ht, hrun⟩ := run_cons.1 hrun
    obtain ⟨hCa, hC⟩ := meets_cons.1 hC
    exact ih (hstep s a t hs hCa ht) (hC t ht) hrun

/-- A condition that the invariant implies is met by every run. -/
theorem meets_of_invariant {C : σ → α → Prop} {I : σ → Prop} (hC : ∀ s a, I s → C s a)
    (hstep : ∀ s a s', I s → step a s = some s' → I s') {as : List α} {s : σ} (hs : I s) :
    Meets step C as s := by
  induction as generalizing s with
  | nil => trivial
  | cons a as ih => exact meets_cons.2 ⟨hC s a hs, fun t ht => ih (hstep s a t hs ht)⟩

/-- The rule for steps that need no condition. -/
theorem invariant_of_run {I : σ → Prop}
    (hstep : ∀ s a s', I s → step a s = some s' → I s')
    {as : List α} {s s' : σ} (hs : I s) (hrun : run step as s = some s') : I s' :=
  invariant_of_meets (C := fun _ _ => True) (fun s a s' h _ => hstep s a s' h) hs
    (meets_of_invariant (fun _ _ _ => trivial) hstep hs) hrun

theorem meets_append {C : σ → α → Prop} {as bs : List α} {s t : σ}
    (hrun : run step as s = some t) :
    Meets step C (as ++ bs) s ↔ Meets step C as s ∧ Meets step C bs t := by
  induction as generalizing s with
  | nil =>
    obtain rfl : s = t := by simpa using hrun
    simp [Meets]
  | cons a as ih =>
    obtain ⟨u, hu, hrun⟩ := run_cons.1 hrun
    have hnext : ∀ D : σ → Prop, (∀ v, step a s = some v → D v) ↔ D u := fun D =>
      ⟨fun h => h u hu, fun h v hv => Option.some.inj (hu.symm.trans hv) ▸ h⟩
    rw [List.cons_append, meets_cons, meets_cons, hnext, hnext, ih hrun, and_assoc]

/-- Two conditions that agree wherever the invariant holds are met by the same runs, when the
second one makes the steps keep the invariant. -/
theorem meets_iff_meets {C D : σ → α → Prop} {I : σ → Prop}
    (hCD : ∀ s a, I s → (C s a ↔ D s a))
    (hstep : ∀ s a s', I s → D s a → step a s = some s' → I s')
    {as : List α} {s : σ} (hs : I s) : Meets step C as s ↔ Meets step D as s := by
  induction as generalizing s with
  | nil => exact Iff.rfl
  | cons a as ih =>
    rw [meets_cons, meets_cons, hCD s a hs]
    refine and_congr_right fun hD => forall_congr' fun t => ?_
    exact ⟨fun h ht => (ih (hstep s a t hs hD ht)).1 (h ht),
      fun h ht => (ih (hstep s a t hs hD ht)).2 (h ht)⟩

/-- Where each step that `D` allows keeps a property exactly when `C` allows it too, a run whose
steps `D` allows has the property at its end exactly when `C` allows all its steps. -/
theorem iff_meets_of_meets {C D : σ → α → Prop} {I P : σ → Prop}
    (hstep : ∀ s a s', I s → D s a → step a s = some s' → I s')
    (hP : ∀ s a s', I s → D s a → step a s = some s' → (P s' ↔ P s ∧ C s a))
    {as : List α} {s s' : σ} (hs : I s) (hD : Meets step D as s)
    (hrun : run step as s = some s') : P s' ↔ P s ∧ Meets step C as s := by
  induction as generalizing s with
  | nil =>
    obtain rfl : s = s' := by simpa using hrun
    simp [Meets]
  | cons a as ih =>
    obtain ⟨t, ht, hrun⟩ := run_cons.1 hrun
    obtain ⟨hDa, hD⟩ := meets_cons.1 hD
    rw [ih (hstep s a t hs hDa ht) (hD t ht) hrun, hP s a t hs hDa ht, meets_cons, and_assoc]
    refine and_congr_right fun _ => and_congr_right fun _ => ?_
    constructor
    · intro h u hu
      obtain rfl : t = u := Option.some.inj (ht.symm.trans hu)
      exact h
    · intro h
      exact h t ht

/-- Where the condition says exactly when a step stays in `P`, the whole run does exactly when all
its steps are allowed. -/
theorem forall_prefix_iff_meets {C : σ → α → Prop} {P : σ → Prop}
    (hstep : ∀ s a, P s → (C s a ↔ ∀ t, step a s = some t → P t)) {as : List α} {s : σ} :
    (∀ bs, bs <+: as → ∀ t, run step bs s = some t → P t) ↔ P s ∧ Meets step C as s := by
  induction as generalizing s with
  | nil =>
    simp only [List.prefix_nil, forall_eq, run_nil, Option.some.injEq]
    exact ⟨fun h => ⟨h s rfl, trivial⟩, fun h t ht => ht ▸ h.1⟩
  | cons a as ih =>
    rw [meets_cons]
    constructor
    · intro h
      have hs : P s := h [] (List.nil_prefix) s rfl
      have hnext : ∀ t, step a s = some t → P t ∧ Meets step C as t := by
        intro t ht
        apply ih.1
        intro bs hbs u hu
        exact h (a :: bs) (List.cons_prefix_cons.2 ⟨rfl, hbs⟩) u (run_cons.2 ⟨t, ht, hu⟩)
      exact ⟨hs, (hstep s a hs).2 fun t ht => (hnext t ht).1, fun t ht => (hnext t ht).2⟩
    · rintro ⟨hs, hC, hmeets⟩ bs hbs u hu
      cases bs with
      | nil =>
        obtain rfl : s = u := by simpa using hu
        exact hs
      | cons b bs =>
        obtain ⟨rfl, hprefix⟩ := List.cons_prefix_cons.1 hbs
        obtain ⟨t, ht, hu⟩ := run_cons.1 hu
        exact ih.2 ⟨(hstep s b hs).1 hC t ht, hmeets t ht⟩ bs hprefix u hu

/-- The rule with an invariant that says more than `P`, for runs that do not stop early. -/
theorem forall_prefix_iff_meets_of_run {C : σ → α → Prop} {I P : σ → Prop} (hI : ∀ s, I s → P s)
    (hstep : ∀ s a t, I s → step a s = some t → (C s a → I t) ∧ (P t → C s a))
    {as : List α} {s s' : σ} (hs : I s) (hrun : run step as s = some s') :
    (∀ bs, bs <+: as → ∀ t, run step bs s = some t → P t) ↔ Meets step C as s := by
  induction as generalizing s with
  | nil =>
    simp only [List.prefix_nil, forall_eq, run_nil, Option.some.injEq]
    exact ⟨fun _ => trivial, fun _ t ht => ht ▸ hI s hs⟩
  | cons a as ih =>
    obtain ⟨u, hu, hrest⟩ := run_cons.1 hrun
    obtain ⟨hkeep, hC⟩ := hstep s a u hs hu
    rw [meets_cons]
    constructor
    · intro h
      have hCa : C s a := hC (h [a] (List.cons_prefix_cons.2 ⟨rfl, List.nil_prefix⟩) u
        (run_cons.2 ⟨u, hu, rfl⟩))
      refine ⟨hCa, fun t ht => ?_⟩
      obtain rfl : u = t := Option.some.inj (hu.symm.trans ht)
      refine (ih (hkeep hCa) hrest).1 fun bs hbs v hv => ?_
      exact h (a :: bs) (List.cons_prefix_cons.2 ⟨rfl, hbs⟩) v (run_cons.2 ⟨u, hu, hv⟩)
    · rintro ⟨hCa, hmeets⟩ bs hbs v hv
      cases bs with
      | nil =>
        obtain rfl : s = v := by simpa using hv
        exact hI s hs
      | cons b bs =>
        obtain ⟨rfl, hprefix⟩ := List.cons_prefix_cons.1 hbs
        obtain ⟨t, ht, hv⟩ := run_cons.1 hv
        obtain rfl : u = t := Option.some.inj (hu.symm.trans ht)
        exact (ih (hkeep hCa) hrest).2 (hmeets u hu) bs hprefix v hv

end Machine
