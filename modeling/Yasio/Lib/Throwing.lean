import Mathlib.Control.Monad.Basic

/-!
# Programs that change a state and may throw

A program of `Throwing ε σ α` ends in a state in either case: what it did before it threw stays
done.  `Holds P Q` is its rule of preconditions: from a state in `P` it ends in one, and what it
returns is in `Q`.  `wp m Q E` is the weakest precondition for `m` to return into `Q` or throw into
`E`; `wp₂` is that of two programs that return or throw alike.
-/

universe v

abbrev Throwing (ε σ α : Type v) := ExceptT ε (StateM σ) α

namespace Throwing

variable {ε σ α β : Type v}

/-- What a program returns or throws, and the state that it leaves. -/
def exec (m : Throwing ε σ α) (s : σ) : Except ε α × σ := m.run.run s

@[simp] theorem exec_pure (a : α) (s : σ) :
    exec (pure a : Throwing ε σ α) s = (.ok a, s) := rfl

@[simp] theorem exec_throw (e : ε) (s : σ) :
    exec (throw e : Throwing ε σ α) s = (.error e, s) := rfl

@[simp] theorem exec_get (s : σ) : exec (get : Throwing ε σ σ) s = (.ok s, s) := rfl

@[simp] theorem exec_set (s s' : σ) :
    exec (set s' : Throwing ε σ PUnit) s = (.ok ⟨⟩, s') := rfl

theorem exec_bind (m : Throwing ε σ α) (f : α → Throwing ε σ β) (s : σ) :
    exec (m >>= f) s =
      match exec m s with
      | (.ok a, s') => exec (f a) s'
      | (.error e, s') => (.error e, s') := by
  change (ExceptT.run (m >>= f)).run s = _
  rw [ExceptT.run_bind, StateT.run_bind]
  unfold exec
  cases m.run.run s with
  | mk r s' => cases r <;> rfl

theorem exec_bind_ok {m : Throwing ε σ α} {f : α → Throwing ε σ β} {s s' : σ} {a : α}
    (h : exec m s = (.ok a, s')) : exec (m >>= f) s = exec (f a) s' := by
  rw [exec_bind, h]

/-- From a state in `P` the program ends in one, and what it returns is in `Q`. -/
def Holds (P : σ → Prop) (Q : α → Prop) (m : Throwing ε σ α) : Prop :=
  ∀ s, P s → P (exec m s).2 ∧ ∀ a, (exec m s).1 = .ok a → Q a

variable {P : σ → Prop} {Q Q' : α → Prop} {R : β → Prop}

theorem Holds.pure {a : α} (h : Q a) : Holds P Q (pure a : Throwing ε σ α) := by
  intro s hs
  refine ⟨hs, fun a' ha' => ?_⟩
  cases ha'
  exact h

theorem Holds.throw (e : ε) : Holds P Q (throw e : Throwing ε σ α) :=
  fun _ hs => ⟨hs, nofun⟩

theorem Holds.mono (h : Holds P Q (ε := ε) m) (hQ : ∀ a, Q a → Q' a) : Holds P Q' m :=
  fun s hs => ⟨(h s hs).1, fun a ha => hQ a ((h s hs).2 a ha)⟩

theorem Holds.bind {m : Throwing ε σ α} {f : α → Throwing ε σ β} (h : Holds P Q m)
    (hf : ∀ a, Q a → Holds P R (f a)) : Holds P R (m >>= f) := by
  intro s hs
  obtain ⟨hstate, hresult⟩ := h s hs
  rw [exec_bind]
  cases hexec : exec m s with
  | mk r s' =>
    rw [hexec] at hstate hresult
    cases r with
    | ok a => exact hf a (hresult a rfl) s' hstate
    | error e => exact ⟨hstate, nofun⟩

theorem Holds.get : Holds P (fun s => P s) (get : Throwing ε σ σ) :=
  fun _ hs => ⟨hs, fun _ ha => Except.ok.inj ha ▸ hs⟩

theorem Holds.set {s' : σ} (h : P s') :
    Holds P (fun _ => True) (set s' : Throwing ε σ PUnit) :=
  fun _ _ => ⟨h, fun _ _ => trivial⟩

theorem Holds.modify {f : σ → σ} (h : ∀ s, P s → P (f s)) :
    Holds P (fun _ => True) (modify f : Throwing ε σ PUnit) :=
  fun s hs => ⟨h s hs, fun _ _ => trivial⟩

/-- From any state the program returns this. -/
def Returns (m : Throwing ε σ α) (a : α) : Prop := ∀ s, ∃ s', exec m s = (.ok a, s')

theorem Returns.pure (a : α) : Returns (pure a : Throwing ε σ α) a := fun s => ⟨s, rfl⟩

theorem Returns.modify (f : σ → σ) : Returns (modify f : Throwing ε σ PUnit) ⟨⟩ :=
  fun s => ⟨f s, rfl⟩

theorem Returns.bind {m : Throwing ε σ α} {f : α → Throwing ε σ β} {a : α} {b : β}
    (h : Returns m a) (hf : Returns (f a) b) : Returns (m >>= f) b := by
  intro s
  obtain ⟨t, ht⟩ := h s
  rw [exec_bind_ok ht]
  exact hf t

/-- What is known of what it returns holds of it. -/
theorem Holds.of_returns {m : Throwing ε σ α} {a : α} (h : Holds P Q m) (hm : Returns m a) :
    Holds P (fun b => b = a ∧ Q b) m := by
  intro s hs
  obtain ⟨hstate, hresult⟩ := h s hs
  refine ⟨hstate, fun b hb => ⟨?_, hresult b hb⟩⟩
  obtain ⟨t, ht⟩ := hm s
  rw [ht] at hb
  exact (Except.ok.inj hb).symm

/-! ## Weakest preconditions -/

/-- Started in `s`, the program returns into `Q` or throws into `E`. -/
def wp (m : Throwing ε σ α) (Q : α → σ → Prop) (E : ε → σ → Prop) (s : σ) : Prop :=
  match exec m s with
  | (.ok a, s') => Q a s'
  | (.error e, s') => E e s'

variable {Q Q' : α → σ → Prop} {R : β → σ → Prop} {E : ε → σ → Prop} {s : σ}

@[simp] theorem wp_pure (a : α) : wp (pure a) Q E = Q a := rfl

@[simp] theorem wp_throw (e : ε) : wp (throw e) Q E = E e := rfl

@[simp] theorem wp_get {Q : σ → σ → Prop} : wp get Q E s ↔ Q s s := Iff.rfl

@[simp] theorem wp_set {s' : σ} {Q : PUnit → σ → Prop} :
    wp (set s') Q E s ↔ Q ⟨⟩ s' := Iff.rfl

@[simp] theorem wp_modify {f : σ → σ} {Q : PUnit → σ → Prop} :
    wp (modify f) Q E s ↔ Q ⟨⟩ (f s) := Iff.rfl

theorem wp_bind {m : Throwing ε σ α} {f : α → Throwing ε σ β} :
    wp (m >>= f) R E = wp m (fun a => wp (f a) R E) E := by
  funext s
  unfold wp
  rw [exec_bind]
  cases exec m s with
  | mk r t => cases r <;> rfl

theorem wp_map {m : Throwing ε σ α} {f : α → β} :
    wp (f <$> m) R E = wp m (fun a => R (f a)) E := by
  rw [map_eq_pure_bind, wp_bind]
  rfl

theorem wp.mono {m : Throwing ε σ α} (h : wp m Q E s) (hQ : ∀ a t, Q a t → Q' a t) :
    wp m Q' E s := by
  unfold wp at h ⊢
  cases hexec : exec m s with
  | mk r t =>
    rw [hexec] at h
    cases r with
    | ok a => exact hQ a t h
    | error e => exact h

/-- Both conditions weakened. -/
theorem wp.imp {E' : ε → σ → Prop} {m : Throwing ε σ α} (h : wp m Q E s)
    (hQ : ∀ a t, Q a t → Q' a t) (hE : ∀ e t, E e t → E' e t) : wp m Q' E' s := by
  unfold wp at h ⊢
  cases hexec : exec m s with
  | mk r t =>
    rw [hexec] at h
    cases r with
    | ok a => exact hQ a t h
    | error e => exact hE e t h

/-- A program does not return into one condition and then into one that excludes it. -/
theorem wp.not_both {E' : ε → σ → Prop} {m : Throwing ε σ α} (h : wp m Q (fun _ _ => False) s)
    (h' : wp m Q' E' s) (hnot : ∀ a t, Q a t → ¬ Q' a t) : False := by
  unfold wp at h h'
  cases hexec : exec m s with
  | mk r t =>
    rw [hexec] at h h'
    cases r with
    | ok a => exact hnot a t h h'
    | error e => exact h

/-- What holds on the way holds at the end. -/
theorem Holds.wp {P : σ → Prop} {A : α → Prop} {m : Throwing ε σ α} (h : Holds P A m) (hs : P s)
    (hQ : ∀ a t, A a → P t → Q a t) (hE : ∀ e t, P t → E e t) : wp m Q E s := by
  obtain ⟨hstate, hresult⟩ := h s hs
  unfold Throwing.wp
  cases hexec : exec m s with
  | mk r t =>
    rw [hexec] at hstate hresult
    cases r with
    | ok a => exact hQ a t (hresult a rfl) hstate
    | error e => exact hE e t hstate

/-- A property of the state that is left in either case. -/
theorem wp_state {P : σ → Prop} {m : Throwing ε σ α} :
    wp m (fun _ => P) (fun _ => P) s ↔ P (exec m s).2 := by
  unfold wp
  cases exec m s with
  | mk r t => cases r <;> exact Iff.rfl

/-! ## A program on a part of the state -/

section

variable {τ : Type v} {view : τ → σ} {put : τ → σ → τ}

/-- The program runs on the part that `view` takes out, and `put` puts back what it leaves. -/
def zoom (view : τ → σ) (put : τ → σ → τ) (m : Throwing ε σ α) : Throwing ε τ α := do
  let t ← get
  match exec m (view t) with
  | (.ok a, s) => do
    set (put t s)
    return a
  | (.error e, s) => do
    set (put t s)
    throw e

theorem exec_zoom (m : Throwing ε σ α) (t : τ) :
    exec (zoom view put m) t = ((exec m (view t)).1, put t (exec m (view t)).2) := by
  unfold zoom
  rw [exec_bind_ok (exec_get t)]
  cases hexec : exec m (view t) with
  | mk r s => cases r <;> rfl

theorem wp_zoom {m : Throwing ε σ α} {Q : α → τ → Prop} {E : ε → τ → Prop} {t : τ} :
    wp (zoom view put m) Q E t ↔
      wp m (fun a s => Q a (put t s)) (fun e s => E e (put t s)) (view t) := by
  unfold wp
  rw [exec_zoom]
  cases exec m (view t) with
  | mk r s => cases r <;> exact Iff.rfl

theorem Holds.zoom {P : τ → Prop} {m : Throwing ε σ α} (h : ∀ t s, P t → P (put t s)) :
    Holds P (fun _ => True) (zoom view put m) := by
  intro t ht
  rw [exec_zoom]
  exact ⟨h t _ ht, fun _ _ => trivial⟩

end

/-! ## Two programs side by side -/

/-- Started in `s` and `s'`, both programs return the same into `R`, or both throw the same into
`E`. -/
def wp₂ (m m' : Throwing ε σ α) (R : α → σ → σ → Prop) (E : ε → σ → σ → Prop) (s s' : σ) : Prop :=
  match exec m s, exec m' s' with
  | (.ok a, t), (.ok a', t') => a = a' ∧ R a t t'
  | (.error e, t), (.error e', t') => e = e' ∧ E e t t'
  | _, _ => False

section

variable {m m' : Throwing ε σ α} {f f' : α → Throwing ε σ β} {R : α → σ → σ → Prop}
  {S : β → σ → σ → Prop} {E : ε → σ → σ → Prop} {s s' : σ}

theorem wp₂_pure {a : α} (h : R a s s') : wp₂ (pure a) (pure a) R E s s' := ⟨rfl, h⟩

theorem wp₂_throw {e : ε} (h : E e s s') : wp₂ (throw e) (throw e) R E s s' := ⟨rfl, h⟩

theorem wp₂_modify {g g' : σ → σ} {R : PUnit → σ → σ → Prop} (h : R ⟨⟩ (g s) (g' s')) :
    wp₂ (modify g) (modify g') R E s s' := ⟨rfl, h⟩

/-- Each program goes on with what it has read. -/
theorem wp₂_get {g g' : σ → Throwing ε σ β} (h : wp₂ (g s) (g' s') S E s s') :
    wp₂ (get >>= g) (get >>= g') S E s s' := by
  unfold wp₂ at h ⊢
  rwa [exec_bind_ok (exec_get s), exec_bind_ok (exec_get s')]

theorem wp₂.imp {R' : α → σ → σ → Prop} {E' : ε → σ → σ → Prop} (h : wp₂ m m' R E s s')
    (hR : ∀ a t t', R a t t' → R' a t t') (hE : ∀ e t t', E e t t' → E' e t t') :
    wp₂ m m' R' E' s s' := by
  unfold wp₂ at h ⊢
  split at h
  · exact ⟨h.1, hR _ _ _ h.2⟩
  · exact ⟨h.1, hE _ _ _ h.2⟩
  · exact h.elim

theorem wp₂.mono {R' : α → σ → σ → Prop} (h : wp₂ m m' R E s s')
    (hR : ∀ a t t', R a t t' → R' a t t') : wp₂ m m' R' E s s' :=
  h.imp hR fun _ _ _ h' => h'

theorem wp₂.bind (h : wp₂ m m' R E s s')
    (hf : ∀ a t t', R a t t' → wp₂ (f a) (f' a) S E t t') :
    wp₂ (m >>= f) (m' >>= f') S E s s' := by
  unfold wp₂ at h
  split at h
  · next a t a' t' hexec hexec' =>
    obtain ⟨rfl, hR⟩ := h
    have hrest := hf a t t' hR
    unfold wp₂ at hrest ⊢
    rwa [exec_bind_ok hexec, exec_bind_ok hexec']
  · next e t e' t' hexec hexec' =>
    unfold wp₂
    rw [exec_bind, exec_bind, hexec, hexec']
    exact h
  · exact h.elim

end

end Throwing
