import Yasio.Service.Step
import Mathlib.Algebra.Order.BigOperators.Group.List
import Mathlib.Algebra.Order.Group.Nat

/-!
# The timer queue

`schedule_timer`, `remove_timer`, `process_timers`, `get_timeout` and `highp_timer::cancel`, with
callbacks that schedule and cancel timers.  `process_timers` holds the mutex of the queue, so that
until it returns only the callback that runs can do so.
-/

namespace Yasio

/-- What `sort_timers` may do.  `std::sort` does not specify the order of equal timers. -/
structure TimerSort (τ : Type*) where
  sort : (τ → ℕ) → List τ → List τ
  perm : ∀ expireTime queue, (sort expireTime queue).Perm queue
  sorted : ∀ expireTime queue,
    (sort expireTime queue).Pairwise fun t t' => expireTime t' ≤ expireTime t

/-- The sort that the model of the service uses. -/
def TimerSort.insertion {τ : Type*} : TimerSort τ where
  sort expireTime := List.insertionSort fun t t' => expireTime t' ≤ expireTime t
  perm _ := List.perm_insertionSort _
  sorted expireTime :=
    have : Std.Total fun t t' : τ => expireTime t' ≤ expireTime t := ⟨fun _ _ => le_total _ _⟩
    have : IsTrans τ fun t t' => expireTime t' ≤ expireTime t := ⟨fun _ _ _ h h' => h'.trans h⟩
    List.pairwise_insertionSort _

/-- Whether the service thread is in the loop of `process_timers`, after `n` timers that want to
wait again, or in a callback that this loop has called. -/
inductive TimerMoment (τ : Type*)
  | outside
  | loop (n : ℕ)
  | callback (n : ℕ) (t : τ)
  deriving DecidableEq, Repr

/-- User code may run. -/
def TimerMoment.user {τ : Type*} : TimerMoment τ → Bool
  | .loop _ => false
  | _ => true

/-- `timer_queue_`, the timers' `expire_time_`, `current_time_`, and the calls of callbacks. -/
structure TimerQueue (τ : Type*) where
  queue : List τ := []
  expireTime : τ → ℕ := fun _ => 0
  currentTime : ℕ := 0
  moment : TimerMoment τ := .outside
  invoked : List τ := []

namespace TimerQueue

variable {τ : Type*} (o : TimerSort τ) (s : TimerQueue τ)

/-- `highp_timer::expired` -/
def expired (t : τ) : Bool := s.expireTime t ≤ s.currentTime

/-- By descending expiry. -/
def Sorted (s : TimerQueue τ) : Prop :=
  s.queue.Pairwise fun t t' => s.expireTime t' ≤ s.expireTime t

/-- `sort_timers` -/
def sortTimers : TimerQueue τ := { s with queue := o.sort s.expireTime s.queue }

variable {o s} in
theorem mem_sortTimers {t : τ} : t ∈ (s.sortTimers o).queue ↔ t ∈ s.queue := (o.perm _ _).mem_iff

variable {o s} in
theorem nodup_sortTimers : (s.sortTimers o).queue.Nodup ↔ s.queue.Nodup :=
  (o.perm _ _).nodup_iff

theorem sorted_sortTimers : (s.sortTimers o).Sorted := o.sorted _ _

/-- `get_timeout` -/
def getTimeout (usec : Int) : Int :=
  s.queue.getLast?.elim usec fun t => min usec ((s.expireTime t : Int) - s.currentTime)

/-- The timer that the loop fires next. -/
def due : Option τ := s.queue.getLast?.filter s.expired

variable [DecidableEq τ]

/-- `schedule_timer` -/
def scheduleTimer (t : τ) : TimerQueue τ :=
  { s with queue := if t ∈ s.queue then s.queue else s.queue ++ [t] }.sortTimers o

/-- `expires_from_now` -/
def expiresAt (t : τ) (time : ℕ) : TimerQueue τ :=
  { s with expireTime := Function.update s.expireTime t time }

/-- `remove_timer` -/
def removeTimer (t : τ) : TimerQueue τ :=
  if t ∈ s.queue then
    let s := { s with queue := s.queue.erase t }
    if s.queue = [] then s else s.sortTimers o
  else s

/-- `highp_timer::cancel` -/
def cancel (t : τ) : TimerQueue τ := if s.expired t then s else s.removeTimer o t

inductive Action (τ : Type*)
  /-- a turn of `run` reads the clock -/
  | frame (now : ℕ)
  /-- `expires_from_now` -/
  | expiresFromNow (t : τ) (time : ℕ)
  /-- `expires_from_now` and at once `async_wait` -/
  | schedule (t : τ) (time : ℕ)
  | cancel (t : τ)
  /-- `process_timers` up to its loop, which ends at once when the queue is empty -/
  | process
  /-- the timer at the back is popped and its callback called -/
  | fire
  /-- the callback returns; when the timer expires next if it wants to wait again -/
  | ret (again : Option ℕ)
  /-- the end of `process_timers` -/
  | finish

def step : Action τ → TimerQueue τ → Option (TimerQueue τ)
  | .frame now, s => if s.moment = .outside then some { s with currentTime := now } else none
  -- This call takes no mutex.
  | .expiresFromNow t time, s => some (s.expiresAt t time)
  | .schedule t time, s =>
    if s.moment.user then some ((s.expiresAt t time).scheduleTimer o t) else none
  | .cancel t, s => if s.moment.user then some (s.cancel o t) else none
  | .process, s =>
    if s.moment = .outside then some { s with moment := .loop 0 } else none
  | .fire, s =>
    match s.moment, s.due with
    | .loop n, some t =>
      some
        { s with
          queue := s.queue.dropLast
          moment := .callback n t
          invoked := s.invoked ++ [t] }
    | _, _ => none
  | .ret again, s =>
    match s.moment, again with
    | .callback n _, none => some { s with moment := .loop n }
    | .callback n t, some time =>
      some { s.expiresAt t time with queue := s.queue ++ [t], moment := .loop (n + 1) }
    | _, _ => none
  | .finish, s =>
    match s.moment, s.due with
    | .loop n, none =>
      some { (if 0 < n then s.sortTimers o else s) with moment := .outside }
    | _, _ => none

/-- What a step can do. -/
inductive Turn (o : TimerSort τ) (s : TimerQueue τ) : Action τ → TimerQueue τ → Prop
  | frame (now : ℕ) (hmoment : s.moment = .outside) :
    Turn o s (.frame now) { s with currentTime := now }
  | expiresFromNow (t : τ) (time : ℕ) : Turn o s (.expiresFromNow t time) (s.expiresAt t time)
  | schedule (t : τ) (time : ℕ) (huser : s.moment.user = true) :
    Turn o s (.schedule t time) ((s.expiresAt t time).scheduleTimer o t)
  | cancel (t : τ) (huser : s.moment.user = true) : Turn o s (.cancel t) (s.cancel o t)
  | process (hmoment : s.moment = .outside) :
    Turn o s .process { s with moment := .loop 0 }
  | fire (n : ℕ) (t : τ) (hmoment : s.moment = .loop n) (hdue : s.due = some t) :
    Turn o s .fire
      { s with
        queue := s.queue.dropLast
        moment := .callback n t
        invoked := s.invoked ++ [t] }
  | once (n : ℕ) (t : τ) (hmoment : s.moment = .callback n t) :
    Turn o s (.ret none) { s with moment := .loop n }
  | again (n : ℕ) (t : τ) (time : ℕ) (hmoment : s.moment = .callback n t) :
    Turn o s (.ret (some time))
      { s.expiresAt t time with queue := s.queue ++ [t], moment := .loop (n + 1) }
  | finish (n : ℕ) (hmoment : s.moment = .loop n) (hdue : s.due = none) :
    Turn o s .finish { (if 0 < n then s.sortTimers o else s) with moment := .outside }

theorem step_eq_some {o : TimerSort τ} {s s' : TimerQueue τ} {a : Action τ} :
    step o a s = some s' ↔ Turn o s a s' := by
  constructor
  · intro h
    cases a with
    | frame now =>
      obtain ⟨hmoment, rfl⟩ : s.moment = .outside ∧ { s with currentTime := now } = s' := by
        simpa [step] using h
      exact .frame now hmoment
    | expiresFromNow t time =>
      obtain rfl : s.expiresAt t time = s' := by simpa [step] using h
      exact .expiresFromNow t time
    | schedule t time =>
      obtain ⟨huser, rfl⟩ : s.moment.user = true ∧ (s.expiresAt t time).scheduleTimer o t = s' := by
        simpa [step] using h
      exact .schedule t time huser
    | cancel t =>
      obtain ⟨huser, rfl⟩ : s.moment.user = true ∧ s.cancel o t = s' := by simpa [step] using h
      exact .cancel t huser
    | process =>
      obtain ⟨hmoment, rfl⟩ : s.moment = .outside ∧ { s with moment := .loop 0 } = s' := by
        simpa [step] using h
      exact .process hmoment
    | fire =>
      simp only [step] at h
      split at h <;> cases h
      exact .fire _ _ ‹_› ‹_›
    | ret again =>
      simp only [step] at h
      split at h <;> cases h
      · exact .once _ _ ‹_›
      · exact .again _ _ _ ‹_›
    | finish =>
      simp only [step] at h
      split at h <;> cases h
      exact .finish _ ‹_› ‹_›
  · intro h
    cases h <;> simp [step, *]

/-- With this expiry a timer that waits is still at its place: those in front of it expire no
earlier, and those behind it no later. -/
def InPlace (s : TimerQueue τ) (t : τ) (time : ℕ) : Prop :=
  t ∈ s.queue →
    (∀ x ∈ s.queue.take (s.queue.idxOf t), time ≤ s.expireTime x) ∧
      ∀ x ∈ s.queue.drop (s.queue.idxOf t + 1), s.expireTime x ≤ time

instance (s : TimerQueue τ) (t : τ) (time : ℕ) : Decidable (s.InPlace t time) := by
  unfold InPlace
  infer_instance

/-- A callback whose timer is to wait again has not scheduled it itself, and a call of
`expires_from_now` alone leaves a timer that waits at its place. -/
def KeepsOrder (s : TimerQueue τ) : Action τ → Prop
  | .ret (some _) =>
    match s.moment with
    | .callback _ t => t ∉ s.queue
    | _ => True
  | .expiresFromNow t time => s.InPlace t time
  | _ => True

instance (s : TimerQueue τ) (a : Action τ) : Decidable (s.KeepsOrder a) := by
  unfold KeepsOrder
  split
  · split <;> infer_instance
  · infer_instance
  · infer_instance

/-- The invariant.  In the loop only the timer at the back may be out of order, one that is to wait
again. -/
structure Tidy (s : TimerQueue τ) : Prop where
  nodup : s.queue.Nodup
  sorted : s.moment.user = true → s.Sorted
  loop : ∀ n, s.moment = .loop n →
    (s.queue.dropLast.Pairwise fun t t' => s.expireTime t' ≤ s.expireTime t) ∧ (n = 0 → s.Sorted)

variable {o s}

omit [DecidableEq τ] in
theorem Tidy.of_sorted (hnodup : s.queue.Nodup) (hsorted : s.Sorted) : s.Tidy where
  nodup := hnodup
  sorted _ := hsorted
  loop _ _ := ⟨hsorted.sublist (List.dropLast_sublist _), fun _ => hsorted⟩

omit [DecidableEq τ] in
theorem nodup_concat {l : List τ} {t : τ} (h : l.Nodup) (ht : t ∉ l) : (l ++ [t]).Nodup :=
  List.nodup_append.2 ⟨h, List.nodup_singleton t, fun _ hx _ hy heq =>
    ht (List.mem_singleton.1 hy ▸ heq ▸ hx)⟩

/-- A sorted list stays sorted when one of its timers gets an expiry that its place allows. -/
theorem pairwise_update {f : τ → ℕ} {l : List τ} {t : τ} {time : ℕ}
    (h : l.Pairwise fun x y => f y ≤ f x) (hnodup : l.Nodup)
    (hplace : ∀ l₁ l₂, l = l₁ ++ t :: l₂ → (∀ x ∈ l₁, time ≤ f x) ∧ ∀ x ∈ l₂, f x ≤ time) :
    l.Pairwise fun x y => Function.update f t time y ≤ Function.update f t time x := by
  have hsame : ∀ l' : List τ, t ∉ l' → l'.Pairwise (fun x y => f y ≤ f x) →
      l'.Pairwise fun x y => Function.update f t time y ≤ Function.update f t time x := by
    intro l' ht hl'
    refine hl'.imp_of_mem fun hx hy hxy => ?_
    have hne : ∀ x ∈ l', x ≠ t := fun x hx heq => ht (heq ▸ hx)
    rwa [Function.update_of_ne (hne _ hx), Function.update_of_ne (hne _ hy)]
  by_cases ht : t ∈ l
  · obtain ⟨l₁, l₂, rfl⟩ := List.append_of_mem ht
    obtain ⟨hfront, hbehind⟩ := hplace l₁ l₂ rfl
    have hmid := List.nodup_middle.1 hnodup
    have hnot : t ∉ l₁ ∧ t ∉ l₂ := by simpa using (List.nodup_cons.1 hmid).1
    have hne₁ : ∀ x ∈ l₁, x ≠ t := fun x hx heq => hnot.1 (heq ▸ hx)
    have hne₂ : ∀ x ∈ l₂, x ≠ t := fun x hx heq => hnot.2 (heq ▸ hx)
    obtain ⟨h₁, h₂, hcross⟩ := List.pairwise_append.1 h
    refine List.pairwise_append.2 ⟨hsame l₁ hnot.1 h₁, List.pairwise_cons.2 ⟨fun x hx => ?_,
      hsame l₂ hnot.2 (List.pairwise_cons.1 h₂).2⟩, fun x hx y hy => ?_⟩
    · rw [Function.update_self, Function.update_of_ne (hne₂ x hx)]
      exact hbehind x hx
    · rw [Function.update_of_ne (hne₁ x hx)]
      rcases List.mem_cons.1 hy with rfl | hy'
      · rw [Function.update_self]
        exact hfront x hx
      · rw [Function.update_of_ne (hne₂ y hy')]
        exact hcross x hx y hy
  · exact hsame l ht h

theorem InPlace.split {t : τ} {time : ℕ} (h : s.InPlace t time) (hnodup : s.queue.Nodup)
    (l₁ l₂ : List τ) (hsplit : s.queue = l₁ ++ t :: l₂) :
    (∀ x ∈ l₁, time ≤ s.expireTime x) ∧ ∀ x ∈ l₂, s.expireTime x ≤ time := by
  rw [hsplit] at hnodup
  have hnot : t ∉ l₁ := fun ht =>
    (List.nodup_append.1 hnodup).2.2 t ht t List.mem_cons_self rfl
  have hidx : s.queue.idxOf t = l₁.length := by
    rw [hsplit, List.idxOf_append_of_notMem hnot, List.idxOf_cons_self, Nat.add_zero]
  have hplace := h (by simp [hsplit])
  rw [hidx, hsplit, List.take_left] at hplace
  exact ⟨hplace.1, fun x hx => hplace.2 x (by simp [List.drop_append, hx])⟩

theorem Tidy.expiresAt (h : s.Tidy) {t : τ} {time : ℕ} (hplace : s.InPlace t time) :
    (s.expiresAt t time).Tidy where
  nodup := h.nodup
  sorted huser := pairwise_update (h.sorted huser) h.nodup (hplace.split h.nodup)
  loop n hn := by
    obtain ⟨hfront, hall⟩ := h.loop n hn
    refine ⟨pairwise_update hfront (h.nodup.sublist (List.dropLast_sublist _)) ?_,
      fun hzero => pairwise_update (hall hzero) h.nodup (hplace.split h.nodup)⟩
    intro l₁ l₂ hsplit
    change s.queue.dropLast = _ at hsplit
    -- the timer at the back stands behind those in front of it
    cases hlast : s.queue.getLast? with
    | none =>
      rw [List.getLast?_eq_none_iff.1 hlast] at hsplit
      simp at hsplit
    | some last =>
      have hqueue := List.dropLast_append_getLast? last hlast
      rw [hsplit, List.append_assoc, List.cons_append] at hqueue
      obtain ⟨hfront', hbehind⟩ := hplace.split h.nodup l₁ (l₂ ++ [last]) hqueue.symm
      exact ⟨hfront', fun x hx => hbehind x (List.mem_append_left _ hx)⟩

theorem Tidy.scheduleTimer (h : s.Tidy) (t : τ) (time : ℕ) :
    ((s.expiresAt t time).scheduleTimer o t).Tidy := by
  refine .of_sorted (nodup_sortTimers.2 ?_) (sorted_sortTimers _ _)
  change (if t ∈ s.queue then s.queue else s.queue ++ [t]).Nodup
  split
  · exact h.nodup
  · rename_i hmem
    exact nodup_concat h.nodup hmem

theorem Tidy.cancel (h : s.Tidy) (huser : s.moment.user = true) (t : τ) : (s.cancel o t).Tidy := by
  have hnodup : (s.queue.erase t).Nodup := h.nodup.erase t
  unfold TimerQueue.cancel removeTimer
  split
  · exact h
  · split
    · dsimp only
      split
      · exact .of_sorted hnodup ((h.sorted huser).sublist List.erase_sublist)
      · exact .of_sorted (nodup_sortTimers.2 hnodup) (sorted_sortTimers _ _)
    · exact h

omit [DecidableEq τ] in
theorem due_eq_some {t : τ} : s.due = some t ↔ s.queue.getLast? = some t ∧ s.expired t = true := by
  simp [due, Option.filter_eq_some_iff]

theorem Tidy.step {a : Action τ} {s' : TimerQueue τ} (h : s.Tidy) (hcond : s.KeepsOrder a)
    (hstep : step o a s = some s') : s'.Tidy := by
  cases step_eq_some.1 hstep with
  | frame now hmoment => exact .of_sorted h.nodup (h.sorted (by rw [hmoment]; rfl))
  | expiresFromNow t time => exact h.expiresAt hcond
  | schedule t time huser => exact h.scheduleTimer t time
  | cancel t huser => exact h.cancel huser t
  | process hmoment => exact .of_sorted h.nodup (h.sorted (by rw [hmoment]; rfl))
  | fire n t hmoment hdue =>
    exact .of_sorted (h.nodup.sublist (List.dropLast_sublist _)) (h.loop n hmoment).1
  | once n t hmoment => exact .of_sorted h.nodup (h.sorted (by rw [hmoment]; rfl))
  | again n t time hmoment =>
    have hnew : t ∉ s.queue := by simpa [KeepsOrder, hmoment] using hcond
    have hne : ∀ x ∈ s.queue, x ≠ t := fun x hx heq => hnew (heq ▸ hx)
    refine ⟨nodup_concat h.nodup hnew, nofun, fun m hm => ?_⟩
    cases hm
    refine ⟨?_, nofun⟩
    rw [List.dropLast_concat]
    -- the timers that wait keep their expiry
    refine (h.sorted (by rw [hmoment]; rfl)).imp_of_mem fun hx hy hxy => ?_
    simp only [TimerQueue.expiresAt, Function.update_of_ne (hne _ hx),
      Function.update_of_ne (hne _ hy)]
    exact hxy
  | finish n hmoment hdue =>
    by_cases hn : 0 < n
    · rw [if_pos hn]
      exact .of_sorted (nodup_sortTimers.2 h.nodup) (sorted_sortTimers o s)
    · rw [if_neg hn]
      exact .of_sorted h.nodup ((h.loop n hmoment).2 (by omega))

omit [DecidableEq τ] in
/-- The timer at the back is the earliest. -/
theorem Sorted.expireTime_le (h : s.Sorted) {last t : τ} (hlast : s.queue.getLast? = some last)
    (ht : t ∈ s.queue) : s.expireTime last ≤ s.expireTime t := by
  unfold Sorted at h
  rw [← List.dropLast_append_getLast? last hlast] at h ht
  rcases List.mem_append.1 ht with ht | ht
  · exact (List.pairwise_append.1 h).2.2 t ht last (List.mem_singleton_self last)
  · rw [List.mem_singleton.1 ht]

omit [DecidableEq τ] in
theorem Sorted.getTimeout_le (h : s.Sorted) {t : τ} (ht : t ∈ s.queue) (usec : Int) :
    s.getTimeout usec ≤ (s.expireTime t : Int) - s.currentTime := by
  unfold getTimeout
  cases hlast : s.queue.getLast? with
  | none => simp [List.getLast?_eq_none_iff.1 hlast] at ht
  | some last =>
    have hle : s.expireTime last ≤ s.expireTime t := h.expireTime_le hlast ht
    have hmin : min usec ((s.expireTime last : Int) - s.currentTime) ≤
        (s.expireTime last : Int) - s.currentTime := min_le_right _ _
    dsimp only [Option.elim]
    omega

/-- After each `schedule_timer`, `remove_timer` and `process_timers` the queue has each timer once
and is sorted, and `get_timeout` waits no longer than until the earliest of them. -/
theorem timerQueue_of_run {as : List (Action τ)} {s : TimerQueue τ}
    (hrun : Machine.run (step o) as {} = some s)
    (hcond : Machine.Meets (step o) KeepsOrder as {}) (huser : s.moment.user = true) :
    s.queue.Nodup ∧ (s.queue.Pairwise fun t t' => s.expireTime t' ≤ s.expireTime t) ∧
      ∀ usec, ∀ t ∈ s.queue, s.getTimeout usec ≤ (s.expireTime t : Int) - s.currentTime := by
  have h : s.Tidy :=
    Machine.invariant_of_meets (I := Tidy) (fun _ _ _ h hcond => h.step hcond)
      (Tidy.of_sorted (s := {}) List.nodup_nil List.Pairwise.nil) hcond hrun
  exact ⟨h.nodup, h.sorted huser, fun usec t ht => (h.sorted huser).getTimeout_le ht usec⟩

/-- Two timers; the one that fires wants to wait again, and the other one is to expire later, but
still before it. -/
theorem timerQueue_of_run_again :
    ∃ s : TimerQueue ℕ, Machine.run (step .insertion)
        [.schedule 0 1, .schedule 1 7, .frame 1, .process, .fire, .ret (some 9), .finish,
          .expiresFromNow 1 8] {} = some s ∧ s.queue = [0, 1] ∧ s.queue.Nodup := by
  obtain ⟨s, hrun, hqueue, hmoment⟩ := Machine.exists_of_any (step (TimerSort.insertion (τ := ℕ)))
    [.schedule 0 1, .schedule 1 7, .frame 1, .process, .fire, .ret (some 9), .finish,
      .expiresFromNow 1 8] {}
    (fun s => s.queue = [0, 1] ∧ s.moment.user = true) (by decide +kernel)
  exact ⟨s, hrun, hqueue, (timerQueue_of_run hrun (by decide +kernel) hmoment).1⟩

/-- The callback of a timer schedules it and returns that it wants to wait again. -/
theorem timerQueue_twice :
    ∃ s : TimerQueue ℕ, Machine.run (step .insertion)
        [.schedule 0 1, .frame 1, .process, .fire, .schedule 0 5, .ret (some 9), .finish] {} =
          some s ∧ s.moment = .outside ∧ s.queue = [0, 0] :=
  Machine.exists_of_any _ _ _ _ (by decide +kernel)

/-- The callback of a timer moves another one, and `process_timers` does not sort. -/
example : (Machine.run (step .insertion)
      [.schedule 0 1, .schedule 1 7, .schedule 2 9, .frame 1, .process, .fire,
        .expiresFromNow 1 20, .ret none, .finish] ({} : TimerQueue ℕ)).any (fun s =>
    s.moment = .outside && s.queue = [2, 1] && s.expireTime 2 = 9 && s.expireTime 1 = 20) =
      true := by
  decide +kernel

/-! ## Cancelling -/

/-- Nothing but `schedule_timer` can make the timer fire. -/
def Gone (t : τ) (s : TimerQueue τ) : Prop := t ∉ s.queue ∧ ∀ n, s.moment ≠ .callback n t

theorem mem_of_mem_cancel {t t' : τ} (h : t ∈ (s.cancel o t').queue) : t ∈ s.queue := by
  unfold TimerQueue.cancel removeTimer at h
  split at h
  · exact h
  · split at h
    · dsimp only at h
      split at h
      · exact List.mem_of_mem_erase h
      · exact List.mem_of_mem_erase (mem_sortTimers.1 h)
    · exact h

theorem same_cancel (t : τ) :
    (s.cancel o t).moment = s.moment ∧ (s.cancel o t).invoked = s.invoked := by
  unfold TimerQueue.cancel removeTimer
  dsimp only
  split_ifs <;> exact ⟨rfl, rfl⟩

theorem Gone.step {t : τ} {a : Action τ} {s' : TimerQueue τ} (h : s.Gone t)
    (ha : ∀ time, a ≠ .schedule t time) (hstep : step o a s = some s') :
    s'.Gone t ∧ s'.invoked.count t = s.invoked.count t := by
  obtain ⟨hqueue, hmoment⟩ := h
  cases step_eq_some.1 hstep with
  | frame now hm => exact ⟨⟨hqueue, hmoment⟩, rfl⟩
  | expiresFromNow t' time => exact ⟨⟨hqueue, hmoment⟩, rfl⟩
  | schedule t' time huser =>
    have hne : t ≠ t' := fun heq => ha time (heq ▸ rfl)
    refine ⟨⟨fun hmem => hqueue ?_, hmoment⟩, rfl⟩
    have hmem : t ∈ if t' ∈ s.queue then s.queue else s.queue ++ [t'] := mem_sortTimers.1 hmem
    split at hmem
    · exact hmem
    · simpa [hne] using hmem
  | cancel t' huser =>
    obtain ⟨hm, hinvoked⟩ := same_cancel (o := o) (s := s) t'
    exact ⟨⟨fun hmem => hqueue (mem_of_mem_cancel hmem), hm ▸ hmoment⟩, by rw [hinvoked]⟩
  | process hm => exact ⟨⟨hqueue, nofun⟩, rfl⟩
  | fire n t' hm hdue =>
    have hmem : t' ∈ s.queue := List.mem_of_getLast? (due_eq_some.1 hdue).1
    have hne : t' ≠ t := fun heq => hqueue (heq ▸ hmem)
    refine ⟨⟨fun h => hqueue ((List.dropLast_sublist _).subset h), fun m => ?_⟩, ?_⟩
    · simp [hne]
    · simp [hne]
  | once n t' hm => exact ⟨⟨hqueue, nofun⟩, rfl⟩
  | again n t' time hm =>
    have hne : t ≠ t' := fun heq => hmoment n (heq ▸ hm)
    refine ⟨⟨?_, nofun⟩, rfl⟩
    simpa [hne] using hqueue
  | finish n hm hdue =>
    by_cases hn : 0 < n
    · rw [if_pos hn]
      exact ⟨⟨fun h => hqueue (mem_sortTimers.1 h), nofun⟩, rfl⟩
    · rw [if_neg hn]
      exact ⟨⟨hqueue, nofun⟩, rfl⟩

theorem Gone.run {t : τ} {as : List (Action τ)} {s' : TimerQueue τ} (h : s.Gone t)
    (has : ∀ time, .schedule t time ∉ as) (hrun : Machine.run (TimerQueue.step o) as s = some s') :
    s'.invoked.count t = s.invoked.count t := by
  induction as generalizing s with
  | nil =>
    obtain rfl : s = s' := by simpa using hrun
    rfl
  | cons a as ih =>
    obtain ⟨u, hu, hrun⟩ := Machine.run_cons.1 hrun
    obtain ⟨hgone, hcount⟩ := h.step (fun time heq => has time (heq ▸ List.mem_cons_self)) hu
    rw [ih hgone (fun time hmem => has time (List.mem_cons_of_mem a hmem)) hrun, hcount]

/-- Without being scheduled, the timer fires in some run from here. -/
def Fires (o : TimerSort τ) (t : τ) (s : TimerQueue τ) : Prop :=
  ∃ as s', (∀ time, .schedule t time ∉ as) ∧ Machine.run (step o) as s = some s' ∧
    s'.invoked.count t ≠ s.invoked.count t

theorem Fires.of_step {t : τ} {a : Action τ} {u : TimerQueue τ} (hstep : step o a s = some u)
    (ha : ∀ time, a ≠ .schedule t time) (hinvoked : u.invoked.count t = s.invoked.count t)
    (h : u.Fires o t) : s.Fires o t := by
  obtain ⟨as, s', has, hrun, hcount⟩ := h
  refine ⟨a :: as, s', fun time hmem => ?_, Machine.run_cons.2 ⟨u, hstep, hrun⟩, hinvoked ▸ hcount⟩
  rcases List.mem_cons.1 hmem with heq | hmem
  · exact ha time heq.symm
  · exact has time hmem

/-- The loop fires the timers at the back until it comes to the timer or ends before. -/
theorem fires_of_loop {t : τ} (l : List τ)
    (hend : ∀ u : TimerQueue τ, (∃ n, u.moment = .loop n) → t ∈ u.queue → u.queue ⊆ l →
      u.expireTime = s.expireTime → u.currentTime = s.currentTime → u.due = none → u.Fires o t)
    {n : ℕ} (hmoment : s.moment = .loop n) (ht : t ∈ s.queue) (hl : s.queue ⊆ l) :
    s.Fires o t := by
  induction hlength : s.queue.length using Nat.strong_induction_on generalizing s with
  | _ k ih =>
    cases hdue : s.due with
    | none => exact hend s ⟨n, hmoment⟩ ht hl rfl rfl hdue
    | some last =>
      have hfire := step_eq_some.2 (Turn.fire (o := o) n last hmoment hdue)
      have hsplit := List.dropLast_append_getLast? last (due_eq_some.1 hdue).1
      by_cases heq : last = t
      · refine ⟨[.fire], _, by simp, Machine.run_cons.2 ⟨_, hfire, rfl⟩, ?_⟩
        simp [heq]
      · refine .of_step hfire nofun (by simp [heq]) ?_
        refine .of_step (step_eq_some.2 (Turn.once n last rfl)) nofun rfl ?_
        have ht' : t ∈ s.queue.dropLast := by
          rw [← hsplit] at ht
          simpa [Ne.symm heq] using ht
        refine ih s.queue.dropLast.length ?_ hend rfl ht'
          (fun x hx => hl ((List.dropLast_sublist _).subset hx)) rfl
        have := List.length_pos_of_mem ht
        rw [List.length_dropLast]
        omega

omit [DecidableEq τ] in
theorem exists_mem_not_expired {t : τ} (ht : t ∈ s.queue) (hdue : s.due = none) :
    ∃ x ∈ s.queue, s.currentTime < s.expireTime x := by
  cases hlast : s.queue.getLast? with
  | none => simp [List.getLast?_eq_none_iff.1 hlast] at ht
  | some last =>
    refine ⟨last, List.mem_of_getLast? hlast, ?_⟩
    simpa [due, hlast, expired] using hdue

theorem fires_of_outside {t : τ} (hmoment : s.moment = .outside) (ht : t ∈ s.queue) :
    s.Fires o t := by
  let now := (s.queue.map s.expireTime).sum
  have hnow : ∀ x ∈ s.queue, s.expireTime x ≤ now := fun x hx =>
    List.le_sum_of_mem (List.mem_map_of_mem hx)
  refine .of_step (step_eq_some.2 (Turn.frame now hmoment)) nofun rfl ?_
  refine .of_step (step_eq_some.2 (Turn.process hmoment)) nofun rfl ?_
  refine fires_of_loop s.queue ?_ rfl ht (fun _ hx => hx)
  intro u _ hu hsub hexpire hcurrent hdue
  obtain ⟨x, hx, hlt⟩ := exists_mem_not_expired hu hdue
  rw [hexpire, hcurrent] at hlt
  exact absurd (hnow x (hsub hx)) (Nat.not_le_of_gt hlt)

theorem fires_of_mem {t : τ} (ht : t ∈ s.queue) : s.Fires o t := by
  have hloop : ∀ u : TimerQueue τ, (∃ n, u.moment = .loop n) → t ∈ u.queue → u.Fires o t := by
    rintro u ⟨n, hmoment⟩ hu
    refine fires_of_loop u.queue ?_ hmoment hu (fun _ hx => hx)
    rintro v ⟨n, hn⟩ hv - - - hdue
    by_cases hpos : 0 < n
    · refine .of_step (step_eq_some.2 (Turn.finish n hn hdue)) nofun (by simp [hpos]; rfl) ?_
      exact fires_of_outside rfl (by simpa [hpos] using mem_sortTimers.2 hv)
    · refine .of_step (step_eq_some.2 (Turn.finish n hn hdue)) nofun (by simp [hpos]) ?_
      exact fires_of_outside rfl (by simpa [hpos] using hv)
  cases hmoment : s.moment with
  | outside => exact fires_of_outside hmoment ht
  | loop n => exact hloop s ⟨n, hmoment⟩ ht
  | callback n t' =>
    exact .of_step (step_eq_some.2 (Turn.once n t' hmoment)) nofun rfl (hloop _ ⟨n, rfl⟩ ht)

/-- Whether the timer is still in the queue after `cancel`. -/
theorem mem_cancel_iff {t : τ} :
    t ∈ (s.cancel o t).queue ↔ t ∈ s.queue ∧ (s.expired t = true ∨ 2 ≤ s.queue.count t) := by
  have herase : t ∈ s.queue.erase t ↔ 2 ≤ s.queue.count t := by
    rw [← List.count_pos_iff, List.count_erase_self]
    omega
  unfold TimerQueue.cancel removeTimer
  cases hexpired : s.expired t with
  | true => simp
  | false =>
    by_cases ht : t ∈ s.queue
    · simp only [Bool.false_eq_true, ↓reduceIte, ht, true_and, false_or]
      split
      · exact herase
      · exact mem_sortTimers.trans herase
    · simp [ht]

/-- The timer queue of a service. -/
def ofService (s : Service) : TimerQueue TimerId where
  queue := s.timerQueue
  expireTime := s.expireTime
  currentTime := s.currentTime
  moment := match s.phase with
    | .timers n => .loop n
    | _ => .outside

theorem ofService_scheduleTimer (s : Service) (t : TimerId) (time : ℕ) :
    ofService ((s.expiresAt t time).scheduleTimer t) =
      ((ofService s).expiresAt t time).scheduleTimer .insertion t := rfl

theorem ofService_cancelTimer (s : Service) (t : TimerId) :
    ofService (s.cancelTimer t) = (ofService s).cancel .insertion t := by
  unfold Service.cancelTimer cancel Service.removeTimer removeTimer
  have hexpired : s.expired t = (ofService s).expired t := rfl
  rw [hexpired]
  split
  · rfl
  · change _ = if t ∈ s.timerQueue then _ else _
    split
    · dsimp only
      split
      · rename_i hempty
        have herase : s.timerQueue.erase t = [] := hempty
        simp [ofService, Service.sortTimers, herase]
      · rfl
    · rfl

/-- A turn of the loop of `process_timers` fires the timer that is due; the callback of a channel's
timer waits once. -/
theorem ofService_processTimer {s : Service} {n : ℕ} (hphase : s.phase = .timers n) {t : TimerId}
    (hdue : (ofService s).due = some t) (again : Option ℕ) :
    ∃ u, Machine.run (step .insertion)
        [.fire, .ret (match t with | .connect _ => none | .user _ => again)] (ofService s) =
          some u ∧ ofService (s.processTimer n again) = { u with invoked := [] } := by
  obtain ⟨hlast, hexpired⟩ := due_eq_some.1 hdue
  have hlast' : s.timerQueue.getLast? = some t := hlast
  have hexpired' : s.expired t = true := hexpired
  have hmoment : (ofService s).moment = .loop n := by simp [ofService, hphase]
  have hfire := step_eq_some.2 (Turn.fire (o := .insertion) n t hmoment hdue)
  unfold Service.processTimer
  rw [hlast']
  simp only [hexpired', ↓reduceIte]
  cases t with
  | connect i =>
    refine ⟨_, Machine.run_cons.2 ⟨_, hfire, Machine.run_cons.2
      ⟨_, step_eq_some.2 (Turn.once n (.connect i) rfl), rfl⟩⟩, ?_⟩
    unfold Service.fireTimer
    dsimp only
    split <;> simp [ofService, Service.handleConnectFailed, Service.cleanupChannel,
      Service.fireEvents, Service.setChan, Service.closeSock, hphase]
  | user k =>
    cases again with
    | none =>
      refine ⟨_, Machine.run_cons.2 ⟨_, hfire, Machine.run_cons.2
        ⟨_, step_eq_some.2 (Turn.once n (.user k) rfl), rfl⟩⟩, ?_⟩
      simp [ofService, Service.fireTimer, hphase]
    | some time =>
      refine ⟨_, Machine.run_cons.2 ⟨_, hfire, Machine.run_cons.2
        ⟨_, step_eq_some.2 (Turn.again n (.user k) time rfl), rfl⟩⟩, ?_⟩
      rfl

end TimerQueue

end Yasio
