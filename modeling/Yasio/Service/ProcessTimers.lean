import Yasio.Service.TimerQueue
import Mathlib.Data.List.Perm.Subperm

/-!
# One call of `process_timers`

A callback of the call may start its own timer again, with `expires_from_now` and `async_wait`, move
its expiry with the former alone, and cancel it.  It touches no other timer.  The loop looks at the
timer at the back of the queue only, and a timer that is to wait again is put there until the queue
is sorted at the end of the call.
-/

namespace Yasio

/-- A call of `process_timers`: the timers whose callbacks it has called, and those of them that
were to wait again when their callbacks returned. -/
structure TimerCall (τ : Type*) where
  timers : TimerQueue τ
  fired : List τ := []
  asked : List τ := []

namespace TimerCall

variable {τ : Type*} [DecidableEq τ] (o : TimerSort τ)

/-- The call at the head of its loop. -/
def begin (s : TimerQueue τ) : TimerCall τ := { timers := { s with moment := .loop 0 } }

/-- The timer whose callback runs. -/
def current (c : TimerCall τ) : Option τ :=
  match c.timers.moment with
  | .callback _ t => some t
  | _ => none

inductive Action
  | fire
  /-- the callback moves the expiry of its timer -/
  | expiresFromNow (time : ℕ)
  /-- the callback starts its timer again -/
  | restart (time : ℕ)
  /-- the callback cancels its timer -/
  | cancel
  /-- the callback returns; when the timer expires next if it returns `false` -/
  | ret (again : Option ℕ)
  | finish

def step : Action → TimerCall τ → Option (TimerCall τ)
  | .fire, c =>
    (TimerQueue.step o .fire c.timers).map fun timers =>
      { c with timers, fired := c.fired ++ c.timers.due.toList }
  | .expiresFromNow time, c => do
    let t ← c.current
    let timers ← TimerQueue.step o (.expiresFromNow t time) c.timers
    some { c with timers }
  | .restart time, c => do
    let t ← c.current
    let timers ← TimerQueue.step o (.schedule t time) c.timers
    some { c with timers }
  | .cancel, c => do
    let t ← c.current
    let timers ← TimerQueue.step o (.cancel t) c.timers
    some { c with timers }
  | .ret again, c => do
    let t ← c.current
    let timers ← TimerQueue.step o (.ret again) c.timers
    let asked := if again.isSome ∨ t ∈ c.timers.queue then c.asked ++ [t] else c.asked
    some { c with timers, asked }
  | .finish, c => (TimerQueue.step o .finish c.timers).map fun timers => { c with timers }

/-- What a step can do. -/
inductive Turn (o : TimerSort τ) (c : TimerCall τ) : Action → TimerCall τ → Prop
  | fire (n : ℕ) (t : τ) (hmoment : c.timers.moment = .loop n) (hdue : c.timers.due = some t) :
    Turn o c .fire
      { c with
        timers :=
          { c.timers with
            queue := c.timers.queue.dropLast
            moment := .callback n t
            invoked := c.timers.invoked ++ [t] }
        fired := c.fired ++ [t] }
  | expiresFromNow (n : ℕ) (t : τ) (time : ℕ) (hmoment : c.timers.moment = .callback n t) :
    Turn o c (.expiresFromNow time) { c with timers := c.timers.expiresAt t time }
  | restart (n : ℕ) (t : τ) (time : ℕ) (hmoment : c.timers.moment = .callback n t) :
    Turn o c (.restart time) { c with timers := (c.timers.expiresAt t time).scheduleTimer o t }
  | cancel (n : ℕ) (t : τ) (hmoment : c.timers.moment = .callback n t) :
    Turn o c .cancel { c with timers := c.timers.cancel o t }
  | once (n : ℕ) (t : τ) (hmoment : c.timers.moment = .callback n t) :
    Turn o c (.ret none)
      { c with
        timers := { c.timers with moment := .loop n }
        asked := if t ∈ c.timers.queue then c.asked ++ [t] else c.asked }
  | again (n : ℕ) (t : τ) (time : ℕ) (hmoment : c.timers.moment = .callback n t) :
    Turn o c (.ret (some time))
      { c with
        timers :=
          { c.timers.expiresAt t time with
            queue := c.timers.queue ++ [t]
            moment := .loop (n + 1) }
        asked := c.asked ++ [t] }
  | finish (n : ℕ) (hmoment : c.timers.moment = .loop n) (hdue : c.timers.due = none) :
    Turn o c .finish
      { c with
        timers :=
          { (if 0 < n then c.timers.sortTimers o else c.timers) with moment := .outside } }

/-- What one call of `process_timers` promises: it calls the callbacks of the expired timers once
each and in the order in which they expired, and leaves the others and those that are to wait
again. -/
structure Fires (s : TimerQueue τ) (c : TimerCall τ) : Prop where
  invoked : c.timers.invoked = s.invoked ++ c.fired
  fired : c.fired.Perm (s.queue.filter s.expired)
  ordered : c.fired.Pairwise fun t t' => s.expireTime t ≤ s.expireTime t'
  queue : c.timers.queue.Perm (s.queue.filter (fun t => !s.expired t) ++ c.asked)
  sorted : c.timers.Sorted

/-- A callback that has started its timer again moves the expiry alone only where the timer's place
in the queue stays right. -/
def MovesInPlace (c : TimerCall τ) : Action → Prop
  | .expiresFromNow time => ∀ t ∈ c.current, c.timers.InPlace t time
  | _ => True

instance (c : TimerCall τ) (a : Action) : Decidable (c.MovesInPlace a) := by
  unfold MovesInPlace
  split <;> infer_instance

/-- The condition.  A callback that returns `false` is that of the last expired timer; it has not
started the timer itself, and the timer does not expire at once.  A timer that its callback has
started does not come up again. -/
def LastAgain (c : TimerCall τ) : Action → Prop
  | .fire => ∀ t ∈ c.timers.due, t ∉ c.asked
  | .ret (some time) =>
    ∀ t ∈ c.current, t ∉ c.timers.queue ∧ c.timers.currentTime < time ∧
      ∀ t' ∈ c.timers.queue, c.timers.expired t' = true → t' ∈ c.asked
  | _ => True

instance (c : TimerCall τ) (a : Action) : Decidable (c.LastAgain a) := by
  unfold LastAgain
  split <;> infer_instance

variable {o} {s : TimerQueue τ} {c c' : TimerCall τ}

omit [DecidableEq τ] in
theorem current_eq_some {t : τ} : c.current = some t ↔ ∃ n, c.timers.moment = .callback n t := by
  unfold current
  cases c.timers.moment <;> simp

theorem turn_of_step {a : Action} (h : step o a c = some c') : Turn o c a c' := by
  cases a with
  | fire =>
    simp only [step, Option.map_eq_some_iff] at h
    obtain ⟨timers, ht, rfl⟩ := h
    cases TimerQueue.step_eq_some.1 ht with
    | fire n t hmoment hdue =>
      rw [hdue]
      exact .fire n t hmoment hdue
  | expiresFromNow time =>
    simp only [step, Option.bind_eq_bind, Option.bind_eq_some_iff, Option.some.injEq] at h
    obtain ⟨t, hcur, timers, ht, rfl⟩ := h
    obtain ⟨n, hmoment⟩ := current_eq_some.1 hcur
    cases TimerQueue.step_eq_some.1 ht with
    | expiresFromNow t time => exact .expiresFromNow n t time hmoment
  | restart time =>
    simp only [step, Option.bind_eq_bind, Option.bind_eq_some_iff, Option.some.injEq] at h
    obtain ⟨t, hcur, timers, ht, rfl⟩ := h
    obtain ⟨n, hmoment⟩ := current_eq_some.1 hcur
    cases TimerQueue.step_eq_some.1 ht with
    | schedule t time huser => exact .restart n t time hmoment
  | cancel =>
    simp only [step, Option.bind_eq_bind, Option.bind_eq_some_iff, Option.some.injEq] at h
    obtain ⟨t, hcur, timers, ht, rfl⟩ := h
    obtain ⟨n, hmoment⟩ := current_eq_some.1 hcur
    cases TimerQueue.step_eq_some.1 ht with
    | cancel t huser => exact .cancel n t hmoment
  | ret again =>
    simp only [step, Option.bind_eq_bind, Option.bind_eq_some_iff, Option.some.injEq] at h
    obtain ⟨t, hcur, timers, ht, rfl⟩ := h
    obtain ⟨n, hmoment⟩ := current_eq_some.1 hcur
    cases TimerQueue.step_eq_some.1 ht with
    | once m t' hm =>
      cases hmoment.symm.trans hm
      simpa using Turn.once (o := o) n t hmoment
    | again m t' time hm =>
      cases hmoment.symm.trans hm
      simpa using Turn.again (o := o) n t time hmoment
  | finish =>
    simp only [step, Option.map_eq_some_iff] at h
    obtain ⟨timers, ht, rfl⟩ := h
    cases TimerQueue.step_eq_some.1 ht with
    | finish n hmoment hdue => exact .finish n hmoment hdue

/-! ## What a callback does to its own timer -/

/-- The queue is left as it was but for one timer. -/
structure Own (t : τ) (s s' : TimerQueue τ) : Prop where
  moment : s'.moment = s.moment
  currentTime : s'.currentTime = s.currentTime
  invoked : s'.invoked = s.invoked
  expireTime : ∀ t' ≠ t, s'.expireTime t' = s.expireTime t'
  mem : ∀ t' ≠ t, t' ∈ s'.queue ↔ t' ∈ s.queue
  tidy : s.queue.Nodup → s.Sorted → s'.queue.Nodup ∧ s'.Sorted

theorem own_expiresAt {t : τ} {time : ℕ} (hplace : s.InPlace t time) :
    Own t s (s.expiresAt t time) where
  moment := rfl
  currentTime := rfl
  invoked := rfl
  expireTime _ ht := Function.update_of_ne ht _ _
  mem _ _ := Iff.rfl
  tidy hnodup hsorted :=
    ⟨hnodup, TimerQueue.pairwise_update hsorted hnodup (hplace.split hnodup)⟩

theorem own_schedule (t : τ) (time : ℕ) : Own t s ((s.expiresAt t time).scheduleTimer o t) where
  moment := rfl
  currentTime := rfl
  invoked := rfl
  expireTime t' ht := Function.update_of_ne ht _ _
  mem t' ht := by
    unfold TimerQueue.scheduleTimer
    rw [TimerQueue.mem_sortTimers]
    change (t' ∈ if t ∈ s.queue then s.queue else s.queue ++ [t]) ↔ _
    split_ifs
    · exact Iff.rfl
    · simp [ht]
  tidy hnodup hsorted :=
    ⟨((TimerQueue.Tidy.of_sorted hnodup hsorted).scheduleTimer t time).nodup,
      TimerQueue.sorted_sortTimers o _⟩

theorem own_cancel (t : τ) (huser : s.moment.user = true) : Own t s (s.cancel o t) := by
  have hsame : (s.cancel o t).currentTime = s.currentTime ∧
      (s.cancel o t).expireTime = s.expireTime := by
    unfold TimerQueue.cancel TimerQueue.removeTimer
    dsimp only
    split_ifs <;> exact ⟨rfl, rfl⟩
  obtain ⟨hmoment, hinvoked⟩ := TimerQueue.same_cancel (o := o) (s := s) t
  refine ⟨hmoment, hsame.1, hinvoked, fun _ _ => by rw [hsame.2], fun t' ht => ?_, ?_⟩
  · refine ⟨TimerQueue.mem_of_mem_cancel, fun hmem => ?_⟩
    have herase : t' ∈ s.queue.erase t := (List.mem_erase_of_ne ht).2 hmem
    unfold TimerQueue.cancel TimerQueue.removeTimer
    dsimp only
    split_ifs
    · exact hmem
    · exact herase
    · exact TimerQueue.mem_sortTimers.2 herase
    · exact hmem
  · intro hnodup hsorted
    have htidy := (TimerQueue.Tidy.of_sorted hnodup hsorted).cancel (o := o) huser t
    exact ⟨htidy.nodup, htidy.sorted (by rw [hmoment]; exact huser)⟩

/-! ## The invariant -/

/-- The invariant of every call. -/
structure Kept (s : TimerQueue τ) (c : TimerCall τ) : Prop where
  currentTime : c.timers.currentTime = s.currentTime
  invoked : c.timers.invoked = s.invoked ++ c.fired
  fired : ∀ t ∈ c.fired, t ∈ s.queue ∧ s.expired t = true
  queue : ∀ t ∈ c.timers.queue, t ∈ s.queue
  rest : ∀ t ∈ s.queue, t ∉ c.fired → t ∈ c.timers.queue
  expireTime : ∀ t, t ∉ c.fired → c.timers.expireTime t = s.expireTime t
  current : ∀ t, c.current = some t → t ∈ c.fired
  asked : ∀ t ∈ c.asked, t ∈ c.fired
  waiting : ∀ t ∈ c.timers.queue, t ∈ c.fired → t ∈ c.asked ∨ c.current = some t

/-- The invariant of a call that has called no callback twice. -/
structure Ordered (s : TimerQueue τ) (c : TimerCall τ) : Prop where
  calm : c.timers.moment = .loop 0 ∨ (∃ t, c.current = some t) →
    c.timers.queue.Nodup ∧ c.timers.Sorted
  ended : c.timers.moment = .outside → c.timers.Sorted
  pushed : ∀ n, c.timers.moment = .loop (n + 1) → ∃ t ∈ c.fired, c.timers.queue.getLast? = some t
  current : ∀ n t, c.timers.moment = .callback n t → n = 0 ∧ t ∉ c.asked
  nodup : c.asked.Nodup
  asked : ∀ t ∈ c.asked, t ∈ c.timers.queue
  ordered : c.fired.Pairwise fun t t' => s.expireTime t ≤ s.expireTime t'
  earlier : ∀ t ∈ c.fired, ∀ t' ∈ c.timers.queue, t' ∉ c.fired → s.expireTime t ≤ s.expireTime t'

omit [DecidableEq τ] in
theorem Kept.expired (h : Kept s c) {t : τ} (ht : t ∉ c.fired) :
    c.timers.expired t = s.expired t := by
  unfold TimerQueue.expired
  rw [h.expireTime t ht, h.currentTime]

theorem Kept.own (h : Kept s c) {t : τ} (hcur : c.current = some t) {timers : TimerQueue τ}
    (hown : Own t c.timers timers) : Kept s { c with timers } := by
  have hfired : t ∈ c.fired := h.current t hcur
  have hsame : ({ c with timers } : TimerCall τ).current = c.current := by
    unfold TimerCall.current
    rw [hown.moment]
  refine ⟨hown.currentTime.trans h.currentTime, hown.invoked.trans h.invoked, h.fired,
    fun t' hmem => ?_, fun t' hmem hnew => ?_, fun t' hnew => ?_, fun t' ht' => ?_, h.asked,
    fun t' hmem hold => ?_⟩
  · by_cases heq : t' = t
    · exact heq ▸ (h.fired t hfired).1
    · exact h.queue t' ((hown.mem t' heq).1 hmem)
  · have hne : t' ≠ t := fun heq => hnew (heq ▸ hfired)
    exact (hown.mem t' hne).2 (h.rest t' hmem hnew)
  · have hne : t' ≠ t := fun heq => hnew (heq ▸ hfired)
    exact (hown.expireTime t' hne).trans (h.expireTime t' hnew)
  · exact h.current t' (hsame ▸ ht')
  · rw [hsame]
    by_cases heq : t' = t
    · exact Or.inr (heq ▸ hcur)
    · exact h.waiting t' ((hown.mem t' heq).1 hmem) hold

omit [DecidableEq τ] in
theorem Ordered.own (hk : Kept s c) (h : Ordered s c) {n : ℕ} {t : τ}
    (hmoment : c.timers.moment = .callback n t) {timers : TimerQueue τ}
    (hown : Own t c.timers timers) : Ordered s { c with timers } := by
  have hcur : c.current = some t := current_eq_some.2 ⟨n, hmoment⟩
  have hfired : t ∈ c.fired := hk.current t hcur
  obtain ⟨hnodup, hsorted⟩ := h.calm (Or.inr ⟨t, hcur⟩)
  have hm : timers.moment = .callback n t := hown.moment.trans hmoment
  refine ⟨fun _ => hown.tidy hnodup hsorted, fun hout => ?_, fun m hloop => ?_,
    fun m t' hcall => ?_, h.nodup, fun t' hmem => ?_, h.ordered, fun x hx t' hmem hnew => ?_⟩
  · exact absurd (hm.symm.trans hout) nofun
  · exact absurd (hm.symm.trans hloop) nofun
  · exact h.current m t' (hown.moment.symm.trans hcall)
  · have hne : t' ≠ t := fun heq => (h.current n t hmoment).2 (heq ▸ hmem)
    exact (hown.mem t' hne).2 (h.asked t' hmem)
  · have hne : t' ≠ t := fun heq => hnew (heq ▸ hfired)
    exact h.earlier x hx t' ((hown.mem t' hne).1 hmem) hnew

omit [DecidableEq τ] in
theorem queue_of_due {t : τ} (hdue : c.timers.due = some t) :
    c.timers.queue = c.timers.queue.dropLast ++ [t] :=
  (List.dropLast_append_getLast? t (TimerQueue.due_eq_some.1 hdue).1).symm

theorem Kept.step {a : Action} (h : Kept s c) (hmoves : c.MovesInPlace a)
    (hstep : step o a c = some c') : Kept s c' := by
  cases turn_of_step hstep with
  | fire n t hmoment hdue =>
    have hsplit := queue_of_due hdue
    have hmem : t ∈ c.timers.queue := List.mem_of_getLast? (TimerQueue.due_eq_some.1 hdue).1
    -- A timer that fires again was due when the sweep began, whatever its callback set since.
    have hexpired : s.expired t = true ∨ t ∈ c.fired := by
      by_cases hold : t ∈ c.fired
      · exact Or.inr hold
      · rw [← h.expired hold]
        exact Or.inl (TimerQueue.due_eq_some.1 hdue).2
    refine ⟨h.currentTime, by simp [h.invoked], fun t' ht' => ?_, fun t' ht' => ?_,
      fun t' ht' hnew => ?_, fun t' hnew => ?_, fun t' hcur => ?_, fun t' ht' => ?_,
      fun t' ht' hold => ?_⟩
    · rcases List.mem_append.1 ht' with hold | hlast
      · exact h.fired t' hold
      · obtain rfl := List.mem_singleton.1 hlast
        exact ⟨h.queue t' hmem, hexpired.elim id fun hold => (h.fired t' hold).2⟩
    · exact h.queue t' ((List.dropLast_sublist _).subset ht')
    · rw [List.mem_append, List.mem_singleton, not_or] at hnew
      have hin := h.rest t' ht' hnew.1
      rw [hsplit, List.mem_append, List.mem_singleton] at hin
      exact hin.resolve_right hnew.2
    · rw [List.mem_append, not_or] at hnew
      exact h.expireTime t' hnew.1
    · obtain rfl : t = t' := by simpa [TimerCall.current] using hcur
      simp
    · exact List.mem_append_left _ (h.asked t' ht')
    · rcases List.mem_append.1 hold with hold | hlast
      · rcases h.waiting t' ((List.dropLast_sublist _).subset ht') hold with hasked | hcur
        · exact Or.inl hasked
        · obtain ⟨m, hm⟩ := current_eq_some.1 hcur
          exact absurd (hmoment.symm.trans hm) nofun
      · rw [List.mem_singleton.1 hlast]
        exact Or.inr rfl
  -- Within a callback the queue changes by the calls of that callback only.
  | expiresFromNow n t time hmoment =>
    have hcur := current_eq_some.2 ⟨n, hmoment⟩
    exact h.own hcur (own_expiresAt (hmoves t hcur))
  | restart n t time hmoment =>
    exact h.own (current_eq_some.2 ⟨n, hmoment⟩) (own_schedule t time)
  | cancel n t hmoment =>
    exact h.own (current_eq_some.2 ⟨n, hmoment⟩) (own_cancel t (by rw [hmoment]; rfl))
  -- The callback is over: a timer still in the queue has been asked for again.
  | once n t hmoment =>
    have hcur : c.current = some t := current_eq_some.2 ⟨n, hmoment⟩
    refine ⟨h.currentTime, h.invoked, h.fired, h.queue, h.rest, h.expireTime, nofun,
      fun t' ht' => ?_, fun t' ht' hold => Or.inl ?_⟩
    · dsimp only at ht'
      split_ifs at ht' with hin
      · rcases List.mem_append.1 ht' with hasked | hlast
        · exact h.asked t' hasked
        · exact List.mem_singleton.1 hlast ▸ h.current t hcur
      · exact h.asked t' ht'
    · rcases h.waiting t' ht' hold with hasked | hcur'
      · dsimp only
        split_ifs
        · exact List.mem_append_left _ hasked
        · exact hasked
      · obtain rfl : t = t' := Option.some.inj (hcur.symm.trans hcur')
        dsimp only at ht' ⊢
        rw [if_pos ht']
        simp
  | again n t time hmoment =>
    have hcur : c.current = some t := current_eq_some.2 ⟨n, hmoment⟩
    have hfired := h.current t hcur
    refine ⟨h.currentTime, h.invoked, h.fired, fun t' ht' => ?_,
      fun t' ht' hnew => List.mem_append_left _ (h.rest t' ht' hnew), fun t' hnew => ?_, nofun,
      fun t' ht' => ?_, fun t' ht' hold => Or.inl ?_⟩
    · rcases List.mem_append.1 ht' with hin | hlast
      · exact h.queue t' hin
      · exact List.mem_singleton.1 hlast ▸ (h.fired t hfired).1
    · have hne : t' ≠ t := fun heq => hnew (heq ▸ hfired)
      exact (Function.update_of_ne hne _ _).trans (h.expireTime t' hnew)
    · rcases List.mem_append.1 ht' with hasked | hlast
      · exact h.asked t' hasked
      · exact List.mem_singleton.1 hlast ▸ hfired
    · rcases List.mem_append.1 ht' with hin | hlast
      · rcases h.waiting t' hin hold with hasked | hcur'
        · exact List.mem_append_left _ hasked
        · obtain rfl : t = t' := Option.some.inj (hcur.symm.trans hcur')
          simp
      · exact List.mem_append_right _ hlast
  -- The sort after the loop keeps the members of the queue.
  | finish n hmoment hdue =>
    have hnot : c.current = none := by simp [TimerCall.current, hmoment]
    have hsame : ∀ timers : TimerQueue τ,
        timers = (if 0 < n then c.timers.sortTimers o else c.timers) →
        timers.currentTime = c.timers.currentTime ∧ timers.invoked = c.timers.invoked ∧
          timers.expireTime = c.timers.expireTime ∧
          ∀ t, t ∈ timers.queue ↔ t ∈ c.timers.queue := by
      rintro timers rfl
      split_ifs
      · exact ⟨rfl, rfl, rfl, fun t => TimerQueue.mem_sortTimers⟩
      · exact ⟨rfl, rfl, rfl, fun t => Iff.rfl⟩
    obtain ⟨hcurrent, hinvoked, hexpire, hqueue⟩ := hsame _ rfl
    refine ⟨hcurrent.trans h.currentTime, hinvoked.trans h.invoked, h.fired,
      fun t ht => h.queue t ((hqueue t).1 ht), fun t ht hnew => (hqueue t).2 (h.rest t ht hnew),
      fun t hnew => ?_, nofun, h.asked, fun t ht hold => Or.inl ?_⟩
    · exact (congrFun hexpire t).trans (h.expireTime t hnew)
    · refine (h.waiting t ((hqueue t).1 ht) hold).resolve_right fun hcur => ?_
      exact absurd (hnot.symm.trans hcur) nofun

omit [DecidableEq τ] in
theorem Ordered.fire (hk : Kept s c) (h : Ordered s c) {n : ℕ} {t : τ}
    (hmoment : c.timers.moment = .loop n) (hdue : c.timers.due = some t) (hnew : t ∉ c.fired) :
    Ordered s
      { c with
        timers :=
          { c.timers with
            queue := c.timers.queue.dropLast
            moment := .callback n t
            invoked := c.timers.invoked ++ [t] }
        fired := c.fired ++ [t] } := by
  -- After a reschedule the last of the queue has fired already, and this one has not.
  have hzero : n = 0 := by
    cases n with
    | zero => rfl
    | succ n =>
      obtain ⟨last, hold, hlast⟩ := h.pushed n hmoment
      obtain rfl := Option.some.inj (hlast.symm.trans (TimerQueue.due_eq_some.1 hdue).1)
      exact absurd hold hnew
  subst hzero
  obtain ⟨hnodup, hsorted⟩ := h.calm (Or.inl hmoment)
  have hsplit := queue_of_due hdue
  have hmem : t ∈ c.timers.queue := List.mem_of_getLast? (TimerQueue.due_eq_some.1 hdue).1
  have hsub : ∀ x ∈ c.timers.queue, x ≠ t → x ∈ c.timers.queue.dropLast := by
    intro x hx hne
    rw [hsplit, List.mem_append, List.mem_singleton] at hx
    exact hx.resolve_right hne
  have hasked : t ∉ c.asked := fun hin => hnew (hk.asked t hin)
  refine ⟨fun _ => ?_, nofun, nofun, fun m t' hcall => ?_, h.nodup, fun x hx => ?_, ?_,
    fun x hx y hy hfresh => ?_⟩
  · exact ⟨hnodup.sublist (List.dropLast_sublist _), hsorted.sublist (List.dropLast_sublist _)⟩
  · cases hcall
    exact ⟨rfl, hasked⟩
  · exact hsub x (h.asked x hx) fun heq => hasked (heq ▸ hx)
  · refine List.pairwise_append.2 ⟨h.ordered, List.pairwise_singleton _ _, fun x hx y hy => ?_⟩
    rw [List.mem_singleton.1 hy]
    exact h.earlier x hx t hmem hnew
  · rw [List.mem_append, List.mem_singleton, not_or] at hfresh
    have hyin : y ∈ c.timers.queue := (List.dropLast_sublist _).subset hy
    rcases List.mem_append.1 hx with hold | hx
    · exact h.earlier x hold y hyin hfresh.1
    · rw [List.mem_singleton.1 hx, ← hk.expireTime t hnew, ← hk.expireTime y hfresh.1]
      exact hsorted.expireTime_le (TimerQueue.due_eq_some.1 hdue).1 hyin

theorem Ordered.step {a : Action} (hk : Kept s c) (h : c.fired.Nodup → Ordered s c)
    (hmoves : c.MovesInPlace a) (hstep : step o a c = some c') (hnodup : c'.fired.Nodup) :
    Ordered s c' := by
  cases turn_of_step hstep with
  | fire n t hmoment hdue =>
    obtain ⟨hold, -, hdisjoint⟩ := List.nodup_append.1 hnodup
    have hnew : t ∉ c.fired := fun hin => hdisjoint t hin t (List.mem_singleton_self t) rfl
    exact (h hold).fire hk hmoment hdue hnew
  | expiresFromNow n t time hmoment =>
    have hplace := hmoves t (current_eq_some.2 ⟨n, hmoment⟩)
    exact (h hnodup).own hk hmoment (own_expiresAt hplace)
  | restart n t time hmoment => exact (h hnodup).own hk hmoment (own_schedule t time)
  | cancel n t hmoment => exact (h hnodup).own hk hmoment (own_cancel t (by rw [hmoment]; rfl))
  | once n t hmoment =>
    have h := h hnodup
    obtain ⟨rfl, hasked⟩ := h.current n t hmoment
    have hcalm := h.calm (Or.inr ⟨t, current_eq_some.2 ⟨0, hmoment⟩⟩)
    refine ⟨fun _ => hcalm, nofun, nofun, nofun, ?_, fun x hx => ?_, h.ordered, h.earlier⟩
    · dsimp only
      split_ifs
      · exact TimerQueue.nodup_concat h.nodup hasked
      · exact h.nodup
    · dsimp only at hx
      split_ifs at hx with hin
      · rcases List.mem_append.1 hx with hx | hx
        · exact h.asked x hx
        · exact List.mem_singleton.1 hx ▸ hin
      · exact h.asked x hx
  | again n t time hmoment =>
    have h := h hnodup
    obtain ⟨rfl, hasked⟩ := h.current n t hmoment
    have hfired : t ∈ c.fired := hk.current t (current_eq_some.2 ⟨0, hmoment⟩)
    refine ⟨?_, nofun, fun m hm => ⟨t, hfired, by simp⟩, nofun,
      TimerQueue.nodup_concat h.nodup hasked, fun x hx => ?_, h.ordered, fun x hx y hy hnew => ?_⟩
    · rintro (hloop | ⟨t', hcur⟩)
      · exact absurd hloop nofun
      · exact absurd hcur nofun
    · rcases List.mem_append.1 hx with hx | hx
      · exact List.mem_append_left _ (h.asked x hx)
      · exact List.mem_append_right _ hx
    · rcases List.mem_append.1 hy with hy | hy
      · exact h.earlier x hx y hy hnew
      · exact absurd (List.mem_singleton.1 hy ▸ hfired) hnew
  | finish n hmoment hdue =>
    have h := h hnodup
    have hmem : ∀ x, x ∈ (if 0 < n then c.timers.sortTimers o else c.timers).queue ↔
        x ∈ c.timers.queue := by
      intro x
      split_ifs
      · exact TimerQueue.mem_sortTimers
      · exact Iff.rfl
    refine ⟨?_, fun _ => ?_, nofun, nofun, h.nodup, fun x hx => (hmem x).2 (h.asked x hx),
      h.ordered, fun x hx y hy hnew => h.earlier x hx y ((hmem y).1 hy) hnew⟩
    · rintro (hloop | ⟨t', hcur⟩)
      · exact absurd hloop nofun
      · exact absurd hcur nofun
    · by_cases hn : 0 < n
      · have hsorted := TimerQueue.sorted_sortTimers o c.timers
        rw [if_pos hn]
        exact hsorted
      · obtain rfl : n = 0 := by omega
        rw [if_neg hn]
        exact (h.calm (Or.inl hmoment)).2

omit [DecidableEq τ] in
/-- In a sorted queue an expired timer makes the one at the back due. -/
theorem due_ne_none (hsorted : s.Sorted) {t : τ} (ht : t ∈ s.queue)
    (hexpired : s.expired t = true) : s.due ≠ none := by
  intro hdue
  cases hlast : s.queue.getLast? with
  | none => simp [List.getLast?_eq_none_iff.1 hlast] at ht
  | some last =>
    have hlate : ¬ s.expireTime last ≤ s.currentTime := by
      simpa [TimerQueue.due, hlast, TimerQueue.expired] using hdue
    have hle := hsorted.expireTime_le hlast ht
    have hearly : s.expireTime t ≤ s.currentTime := by simpa [TimerQueue.expired] using hexpired
    exact hlate (hle.trans hearly)

/-! ## When the call is right -/

/-- No timer is in the queue twice, and the callbacks of the expired ones have been called. -/
def Settled (c : TimerCall τ) : Prop :=
  c.timers.queue.Nodup ∧ ∀ t ∈ c.timers.queue, c.timers.expired t = true → t ∈ c.fired

/-- The call has done nothing wrong, nor is it about to. -/
structure Right (c : TimerCall τ) : Prop where
  nodup : c.fired.Nodup
  pushed : ∀ n, c.timers.moment = .loop (n + 1) → c.timers.due = none ∧ c.Settled
  ended : c.timers.moment = .outside → c.Settled

omit [DecidableEq τ] in
theorem right_fire (hk : Kept s c) (ho : c.fired.Nodup → Ordered s c) {n : ℕ} {t : τ}
    (hmoment : c.timers.moment = .loop n) (hdue : c.timers.due = some t) :
    Right
        { c with
          timers :=
            { c.timers with
              queue := c.timers.queue.dropLast
              moment := .callback n t
              invoked := c.timers.invoked ++ [t] }
          fired := c.fired ++ [t] } ↔
      Right c ∧ c.LastAgain .fire := by
  have hmem : t ∈ c.timers.queue := List.mem_of_getLast? (TimerQueue.due_eq_some.1 hdue).1
  have hcond : c.LastAgain .fire ↔ t ∉ c.fired := by
    have hdueAsked : c.LastAgain .fire ↔ t ∉ c.asked := by simp [LastAgain, hdue]
    rw [hdueAsked, not_iff_not]
    refine ⟨hk.asked t, fun hold => (hk.waiting t hmem hold).resolve_right fun hcur => ?_⟩
    obtain ⟨m, hm⟩ := current_eq_some.1 hcur
    exact absurd (hmoment.symm.trans hm) nofun
  rw [hcond]
  constructor
  · intro h
    obtain ⟨hold, -, hdisjoint⟩ := List.nodup_append.1 h.nodup
    have hnew : t ∉ c.fired := fun hin => hdisjoint t hin t (List.mem_singleton_self t) rfl
    refine ⟨⟨hold, fun m hm => ?_, fun hm => absurd (hmoment.symm.trans hm) nofun⟩, hnew⟩
    -- the timer at the back after one was pushed there is that one
    obtain ⟨last, hlast, hback⟩ := (ho hold).pushed m hm
    obtain rfl := Option.some.inj (hback.symm.trans (TimerQueue.due_eq_some.1 hdue).1)
    exact absurd hlast hnew
  · rintro ⟨h, hnew⟩
    exact ⟨TimerQueue.nodup_concat h.nodup hnew, nofun, nofun⟩

theorem right_again (hk : Kept s c) (ho : c.fired.Nodup → Ordered s c) {n : ℕ} {t : τ} (time : ℕ)
    (hmoment : c.timers.moment = .callback n t) :
    Right
        { c with
          timers :=
            { c.timers.expiresAt t time with
              queue := c.timers.queue ++ [t]
              moment := .loop (n + 1) }
          asked := c.asked ++ [t] } ↔
      Right c ∧ c.LastAgain (.ret (some time)) := by
  have hcur : c.current = some t := current_eq_some.2 ⟨n, hmoment⟩
  have hcond : c.LastAgain (.ret (some time)) ↔ t ∉ c.timers.queue ∧ c.timers.currentTime < time ∧
      ∀ t' ∈ c.timers.queue, c.timers.expired t' = true → t' ∈ c.asked := by
    simp [LastAgain, hcur]
  have hother : ∀ t' ≠ t, (c.timers.expiresAt t time).expired t' = c.timers.expired t' := by
    intro t' ht
    unfold TimerQueue.expired TimerQueue.expiresAt
    simp [Function.update_of_ne ht]
  have hself : (c.timers.expiresAt t time).expired t = true ↔ ¬ c.timers.currentTime < time := by
    simp [TimerQueue.expired, TimerQueue.expiresAt]
  rw [hcond]
  constructor
  · intro h
    obtain ⟨hdue, hnodup, hall⟩ := h.pushed n rfl
    have hnew : t ∉ c.timers.queue := fun hin =>
      (List.nodup_append.1 hnodup).2.2 t hin t (List.mem_singleton_self t) rfl
    refine ⟨⟨h.nodup, fun m hm => absurd (hmoment.symm.trans hm) (by simp),
      fun hm => absurd (hmoment.symm.trans hm) (by simp)⟩, hnew, ?_, fun t' ht' hexpired => ?_⟩
    · by_contra hbad
      refine absurd hdue (Option.ne_none_iff_exists'.2 ⟨t, TimerQueue.due_eq_some.2 ⟨?_, ?_⟩⟩)
      · simp
      · exact hself.2 hbad
    · have hne : t' ≠ t := fun heq => hnew (heq ▸ ht')
      have hold := hall t' (List.mem_append_left _ ht') ((hother t' hne).trans hexpired)
      refine (hk.waiting t' ht' hold).resolve_right fun hcur' => ?_
      exact hne (Option.some.inj (hcur'.symm.trans hcur))
  · rintro ⟨h, hnew, hlater, hall⟩
    have hqueue := ((ho h.nodup).calm (Or.inr ⟨t, hcur⟩)).1
    refine ⟨h.nodup,
      fun m _ => ⟨?_, TimerQueue.nodup_concat hqueue hnew, fun t' ht' hexpired => ?_⟩, by simp⟩
    · by_contra hsome
      obtain ⟨x, hx⟩ := Option.ne_none_iff_exists'.1 hsome
      obtain ⟨hlast, hexpired⟩ := TimerQueue.due_eq_some.1 hx
      obtain rfl : t = x := by simpa using hlast
      exact hself.1 hexpired hlater
    · rcases List.mem_append.1 ht' with hin | hlast
      · have hne : t' ≠ t := fun heq => hnew (heq ▸ hin)
        exact hk.asked t' (hall t' hin ((hother t' hne).symm.trans hexpired))
      · exact List.mem_singleton.1 hlast ▸ hk.current t hcur

omit [DecidableEq τ] in
theorem right_finish (ho : c.fired.Nodup → Ordered s c) {n : ℕ}
    (hmoment : c.timers.moment = .loop n) (hdue : c.timers.due = none) :
    Right
        { c with
          timers :=
            { (if 0 < n then c.timers.sortTimers o else c.timers) with moment := .outside } } ↔
      Right c := by
  constructor
  · intro h
    refine ⟨h.nodup, fun m hm => ⟨hdue, ?_⟩, fun hm => absurd (hmoment.symm.trans hm) nofun⟩
    obtain rfl : n = m + 1 := by simpa [hmoment] using hm
    have hended := h.ended rfl
    simp only [Nat.zero_lt_succ, if_true] at hended
    exact ⟨TimerQueue.nodup_sortTimers.1 hended.1,
      fun t ht => hended.2 t (TimerQueue.mem_sortTimers.2 ht)⟩
  · intro h
    refine ⟨h.nodup, nofun, fun _ => ?_⟩
    cases n with
    | zero =>
      obtain ⟨hnodup, hsorted⟩ := (ho h.nodup).calm (Or.inl hmoment)
      exact ⟨hnodup, fun t ht hexpired => absurd hdue (due_ne_none hsorted ht hexpired)⟩
    | succ n =>
      obtain ⟨-, hnodup, hall⟩ := h.pushed n hmoment
      simp only [Nat.zero_lt_succ, if_true]
      exact ⟨TimerQueue.nodup_sortTimers.2 hnodup,
        fun t ht => hall t (TimerQueue.mem_sortTimers.1 ht)⟩

omit [DecidableEq τ] in
theorem right_of_callback {t : τ} {timers : TimerQueue τ} (hcur : c.current = some t)
    (hmoment : timers.moment = c.timers.moment) : Right { c with timers } ↔ Right c := by
  obtain ⟨n, hcall⟩ := current_eq_some.1 hcur
  constructor
  · intro h
    exact ⟨h.nodup, fun m hm => absurd (hcall.symm.trans hm) nofun,
      fun hm => absurd (hcall.symm.trans hm) nofun⟩
  · intro h
    exact ⟨h.nodup, fun m hm => absurd ((hmoment.trans hcall).symm.trans hm) nofun,
      fun hm => absurd ((hmoment.trans hcall).symm.trans hm) nofun⟩

theorem right_iff {a : Action} (hk : Kept s c) (ho : c.fired.Nodup → Ordered s c)
    (hstep : step o a c = some c') : Right c' ↔ Right c ∧ c.LastAgain a := by
  cases turn_of_step hstep with
  | fire n t hmoment hdue => exact right_fire hk ho hmoment hdue
  | expiresFromNow n t time hmoment =>
    have hcallback := right_of_callback (t := t) (current_eq_some.2 ⟨n, hmoment⟩)
      (show (c.timers.expiresAt t time).moment = c.timers.moment from rfl)
    rw [hcallback]
    exact (and_iff_left trivial).symm
  | restart n t time hmoment =>
    rw [right_of_callback (current_eq_some.2 ⟨n, hmoment⟩) (own_schedule t time).moment]
    exact (and_iff_left trivial).symm
  | cancel n t hmoment =>
    rw [right_of_callback (current_eq_some.2 ⟨n, hmoment⟩)
      (own_cancel t (by rw [hmoment]; rfl)).moment]
    exact (and_iff_left trivial).symm
  | once n t hmoment =>
    rw [and_iff_left (show c.LastAgain (.ret none) from trivial)]
    constructor
    · intro h
      exact ⟨h.nodup, fun m hm => absurd (hmoment.symm.trans hm) nofun,
        fun hm => absurd (hmoment.symm.trans hm) nofun⟩
    · intro h
      obtain ⟨rfl, -⟩ := (ho h.nodup).current n t hmoment
      exact ⟨h.nodup, nofun, nofun⟩
  | again n t time hmoment => exact right_again hk ho time hmoment
  | finish n hmoment hdue =>
    rw [right_finish ho hmoment hdue]
    exact (and_iff_left trivial).symm

/-- At the end of a call that is right the promise is kept, and only then. -/
theorem fires_iff (hnodup : s.queue.Nodup) (hk : Kept s c) (ho : c.fired.Nodup → Ordered s c)
    (hout : c.timers.moment = .outside) : Fires s c ↔ Right c := by
  have hidle : c.current = none := by simp [current, hout]
  have hwaiting : ∀ t ∈ c.timers.queue, t ∈ c.fired → t ∈ c.asked := by
    intro t ht hold
    refine (hk.waiting t ht hold).resolve_right fun hcur => ?_
    exact absurd (hidle.symm.trans hcur) nofun
  constructor
  · intro h
    have hfired : c.fired.Nodup := h.fired.nodup_iff.2 (hnodup.filter _)
    refine ⟨hfired, fun m hm => absurd (hout.symm.trans hm) nofun, fun _ => ⟨?_, ?_⟩⟩
    · refine h.queue.nodup_iff.2 (List.nodup_append.2 ⟨hnodup.filter _, (ho hfired).nodup, ?_⟩)
      rintro x hx y hy rfl
      have hexpired := (hk.fired x (hk.asked x hy)).2
      simp [hexpired] at hx
    · intro t ht hexpired
      by_contra hnew
      rw [hk.expired hnew] at hexpired
      exact hnew (h.fired.mem_iff.2 (List.mem_filter.2 ⟨hk.queue t ht, hexpired⟩))
  · intro h
    have ho := ho h.nodup
    obtain ⟨hqueue, hall⟩ := h.ended hout
    refine ⟨hk.invoked, ?_, ho.ordered, ?_, ho.ended hout⟩
    · refine (List.perm_ext_iff_of_nodup h.nodup (hnodup.filter _)).2 fun t => ?_
      rw [List.mem_filter]
      refine ⟨hk.fired t, fun ⟨ht, hexpired⟩ => ?_⟩
      by_contra hnew
      exact hnew (hall t (hk.rest t ht hnew) (by rw [hk.expired hnew, hexpired]))
    · refine (List.perm_ext_iff_of_nodup hqueue ?_).2 fun t => ?_
      · refine List.nodup_append.2 ⟨hnodup.filter _, ho.nodup, ?_⟩
        rintro x hx y hy rfl
        have hexpired := (hk.fired x (hk.asked x hy)).2
        simp [hexpired] at hx
      · rw [List.mem_append, List.mem_filter]
        constructor
        · intro ht
          by_cases hold : t ∈ c.fired
          · exact Or.inr (hwaiting t ht hold)
          · refine Or.inl ⟨hk.queue t ht, ?_⟩
            rw [← hk.expired hold, Bool.not_eq_true', Bool.eq_false_iff]
            exact fun hexpired => hold (hall t ht hexpired)
        · rintro (⟨ht, hexpired⟩ | hasked)
          · refine hk.rest t ht fun hold => ?_
            simp [(hk.fired t hold).2] at hexpired
          · exact ho.asked t hasked

omit [DecidableEq τ] in
theorem kept_begin : Kept s (begin s) :=
  ⟨rfl, (List.append_nil _).symm, nofun, fun _ => id, fun _ ht _ => ht, fun _ _ => rfl, nofun,
    nofun, nofun⟩

omit [DecidableEq τ] in
theorem ordered_begin (hnodup : s.queue.Nodup) (hsorted : s.Sorted) : Ordered s (begin s) :=
  ⟨fun _ => ⟨hnodup, hsorted⟩, nofun, nofun, nofun, List.nodup_nil, nofun, List.Pairwise.nil, nofun⟩

omit [DecidableEq τ] in
theorem right_begin : Right (begin s) := ⟨List.nodup_nil, nofun, nofun⟩

/-- Timers that expire at 1, 2 and 9, at the time 5. -/
def threeTimers : TimerQueue ℕ where
  queue := [2, 1, 0]
  expireTime t := if t = 2 then 9 else t + 1
  currentTime := 5

/-- A callback that has started its timer again moves it to expire last, and the queue is left out
of order. -/
example : (Machine.run (step .insertion)
      [.fire, .restart 7, .expiresFromNow 20, .ret none, .fire, .ret none, .finish]
      (begin threeTimers)).any (fun c =>
    c.timers.moment = .outside && c.timers.queue = [2, 0] && c.timers.expireTime 2 = 9 &&
      c.timers.expireTime 0 = 20) = true := by
  decide +kernel

end TimerCall

end Yasio
