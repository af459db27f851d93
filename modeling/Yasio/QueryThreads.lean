import Yasio.Service.State
import Yasio.Lib.Machine

/-!
# Resolver threads and the end of the service

`start_query` detaches a thread that may outlive the service.  It shares `life_mutex_` with
`finalize`, which releases `life_token_` under the exclusive lock, and it looks at the token twice:
before it calls the resolver function of the service, without the lock, and before it assigns the
answer, with it.
-/

namespace Yasio

/-- Where a thread of `start_query` is. -/
inductive QueryPhase
  | started
  | checked
  /-- the resolver function has answered -/
  | resolved (result : Except ℕ (List Endpoint))
  /-- `weak_mutex.lock()` gave it a reference to the mutex -/
  | pinned (result : Except ℕ (List Endpoint))
  /-- it has the shared lock and has found the token alive -/
  | holding (result : Except ℕ (List Endpoint))
  | stored
  | returned

/-- The thread has the shared lock. -/
def QueryPhase.holds : QueryPhase → Bool
  | holding _ | stored => true
  | _ => false

/-- The thread keeps the mutex from being destroyed. -/
def QueryPhase.pins : QueryPhase → Bool
  | pinned _ | holding _ | stored => true
  | _ => false

/-- The thread has found the token alive and has not called the resolver function yet. -/
def QueryPhase.isChecked : QueryPhase → Bool
  | checked => true
  | _ => false

structure QueryThread where
  query : Query
  phase : QueryPhase := .started

/-- How far the thread that owns the service has come.  `finalize` has the exclusive lock from
`locked` to `released`. -/
inductive OwnerPhase
  | idle
  | running
  | locked
  | released
  | finalized
  | destroyed
  deriving DecidableEq, Repr

/-- The owner, the query threads, and the members of the channels that they write. -/
structure QueryThreads where
  owner : OwnerPhase := .idle
  threads : List QueryThread := []
  remoteEps : ℕ → List Endpoint := fun _ => []
  querySuccessTime : ℕ → ℕ := fun _ => 0
  error : ℕ → Int := fun _ => 0
  wakeups : ℕ := 0

inductive QueryAction
  -- the owner and the service thread
  | start
  | stop
  | startQuery (query : Query)
  | lock
  | release
  | unlock
  | destroy
  -- the `n`-th query thread
  | check (n : ℕ)
  | call (n : ℕ) (result : Except ℕ (List Endpoint))
  | pin (n : ℕ)
  | acquire (n : ℕ)
  | assign (n : ℕ) (now : ℕ)
  | leave (n : ℕ)

namespace QueryThreads

variable (s : QueryThreads)

/-- `life_token.use_count() ≥ 1` -/
def tokenAlive : Bool := s.owner = .idle || s.owner = .running || s.owner = .locked

/-- Someone has a reference to `life_mutex_`. -/
def mutexAlive : Bool := s.owner ≠ .destroyed || s.threads.any fun t => t.phase.pins

def phase (n : ℕ) : Option QueryPhase := s.threads[n]?.map QueryThread.phase

def goOn (n : ℕ) (phase : QueryPhase) : QueryThreads :=
  { s with threads := s.threads.modify n fun t => { t with phase } }

/-- The assignment of an answer that came at `now`, and `wakeup`. -/
def assignAnswer (i : ℕ) (result : Except ℕ (List Endpoint)) (now : ℕ) : QueryThreads :=
  match result with
  | .ok eps =>
    { s with
      remoteEps := Function.update s.remoteEps i eps
      querySuccessTime := Function.update s.querySuccessTime i now
      wakeups := s.wakeups + 1 }
  | .error _ =>
    { s with
      error := Function.update s.error i Errc.resolveHostFailed
      wakeups := s.wakeups + 1 }

/-- One step; `none` when it cannot be taken. -/
def step (a : QueryAction) (s : QueryThreads) : Option QueryThreads :=
  match a with
  | .start => if s.owner = .idle then some { s with owner := .running } else none
  | .stop => if s.owner = .running then some { s with owner := .idle } else none
  | .startQuery query =>
    if s.owner = .running then
      some
        { s with
          error := Function.update s.error query.channel EINPROGRESS
          threads := s.threads ++ [{ query }] }
    else none
  -- `finalize` does nothing in another state, and waits for the threads that have the lock
  | .lock =>
    if s.owner = .idle ∧ ¬ s.threads.any fun t => t.phase.holds then
      some { s with owner := .locked }
    else none
  | .release => if s.owner = .locked then some { s with owner := .released } else none
  | .unlock => if s.owner = .released then some { s with owner := .finalized } else none
  | .destroy => if s.owner = .finalized then some { s with owner := .destroyed } else none
  | .check n =>
    match s.phase n with
    | some .started => some (s.goOn n (if s.tokenAlive then .checked else .returned))
    | _ => none
  | .call n result =>
    match s.phase n with
    | some .checked => some (s.goOn n (.resolved result))
    | _ => none
  | .pin n =>
    match s.phase n with
    | some (.resolved result) =>
      some (s.goOn n (if s.mutexAlive then .pinned result else .returned))
    | _ => none
  | .acquire n =>
    match s.phase n with
    | some (.pinned result) =>
      if s.owner = .locked ∨ s.owner = .released then none
      else some (s.goOn n (if s.tokenAlive then .holding result else .returned))
    | _ => none
  | .assign n now =>
    match s.threads[n]? with
    | some ⟨query, .holding result⟩ =>
      some ((s.assignAnswer query.channel result now).goOn n .stored)
    | _ => none
  | .leave n =>
    match s.phase n with
    | some .stored => some (s.goOn n .returned)
    | _ => none

end QueryThreads

/-- The steps of a query thread that read or write the service or a channel: the call reads
`options_.resolv_`. -/
def QueryAction.touches : QueryAction → Bool
  | call _ _ | assign _ _ => true
  | _ => false

namespace QueryThreads

/-- The step is not one that touches a service without its token. -/
def Untouched (s : QueryThreads) (a : QueryAction) : Prop :=
  a.touches = true → (step a s).isSome = true → s.tokenAlive = true

instance (s : QueryThreads) (a : QueryAction) : Decidable (s.Untouched a) :=
  inferInstanceAs (Decidable (_ → _))

/-! ## What a step can do -/

variable {s t : QueryThreads} {a : QueryAction} {n : ℕ}

/-- Nobody has the exclusive lock or is done with it. -/
def Shared (s : QueryThreads) : Prop := s.owner = .idle ∨ s.owner = .running

/-- A step moves the owner or a query thread on, or begins a thread. -/
inductive Goes (s : QueryThreads) : QueryThreads → Prop
  | owner (p : OwnerPhase)
      (hshared : s.Shared →
        (p = .idle ∨ p = .running) ∨ ∀ x ∈ s.threads, x.phase.holds = false)
      (halive : tokenAlive { s with owner := p } = true → s.tokenAlive = true) :
      Goes s { s with owner := p }
  | query (query : Query) (h : s.owner = .running) (error : ℕ → Int) :
      Goes s { s with error, threads := s.threads ++ [{ query }] }
  | thread (u : QueryThreads) (n : ℕ) (p : QueryPhase) (howner : u.owner = s.owner)
      (hthreads : u.threads = s.threads)
      (hcheck : p.isChecked = true → s.tokenAlive = true)
      (hhold : p.holds = true → s.Shared ∨ ∃ x ∈ s.threads, x.phase.holds = true) :
      Goes s (u.goOn n p)

theorem exists_of_phase {p : QueryPhase} (h : s.phase n = some p) :
    ∃ x ∈ s.threads, x.phase = p := by
  obtain ⟨x, hx, hp⟩ := Option.map_eq_some_iff.1 h
  exact ⟨x, List.mem_of_getElem? hx, hp⟩

theorem shared_of_tokenAlive (halive : s.tokenAlive = true)
    (hlock : ¬ (s.owner = .locked ∨ s.owner = .released)) : s.Shared := by
  simp only [tokenAlive, Bool.or_eq_true, decide_eq_true_eq] at halive
  rcases halive with (h | h) | h
  · exact .inl h
  · exact .inr h
  · exact absurd (.inl h) hlock

theorem assignAnswer_frame (s : QueryThreads) (i : ℕ) (result : Except ℕ (List Endpoint))
    (now : ℕ) : (s.assignAnswer i result now).owner = s.owner ∧
      (s.assignAnswer i result now).threads = s.threads := by
  cases result <;> exact ⟨rfl, rfl⟩

/-- A thread that goes on without the lock. -/
theorem Goes.of_goOn {p : QueryPhase} (hcheck : p.isChecked = true → s.tokenAlive = true)
    (hhold : p.holds = true → s.Shared) : Goes s (s.goOn n p) :=
  .thread s n p rfl rfl hcheck fun hp => .inl (hhold hp)

theorem goes_of_step (h : step a s = some t) : Goes s t := by
  cases a with
  | start | stop | lock | release | unlock | destroy =>
    simp only [step, Option.ite_none_right_eq_some, Option.some.injEq] at h
    obtain ⟨hs, rfl⟩ := h
    apply Goes.owner
    · simp_all [Shared]
    · simp_all [tokenAlive]
  | startQuery query =>
    simp only [step, Option.ite_none_right_eq_some, Option.some.injEq] at h
    obtain ⟨hs, rfl⟩ := h
    exact .query query hs _
  -- The test of the token before the call; the one under the lock is in `acquire`.
  | check n =>
    simp only [step] at h
    split at h
    · obtain rfl := Option.some.inj h
      split
      · next halive => exact .of_goOn (fun _ => halive) nofun
      · exact .of_goOn nofun nofun
    · cases h
  | call n result =>
    simp only [step] at h
    split at h
    · obtain rfl := Option.some.inj h
      exact .of_goOn nofun nofun
    · cases h
  | pin n =>
    simp only [step] at h
    split at h
    · obtain rfl := Option.some.inj h
      split
      · exact .of_goOn nofun nofun
      · exact .of_goOn nofun nofun
    · cases h
  | acquire n =>
    simp only [step] at h
    split at h
    · split at h
      · cases h
      · next hlock =>
        obtain rfl := Option.some.inj h
        split
        · next halive => exact .of_goOn nofun fun _ => shared_of_tokenAlive halive hlock
        · exact .of_goOn nofun nofun
    · cases h
  -- The answer is written under the lock, by a thread that has seen the token alive.
  | assign n now =>
    simp only [step] at h
    split at h
    · next query result hx =>
      obtain rfl := Option.some.inj h
      obtain ⟨howner, hthreads⟩ := s.assignAnswer_frame query.channel result now
      refine .thread _ n _ howner hthreads nofun fun _ => .inr ?_
      exact ⟨_, List.mem_of_getElem? hx, rfl⟩
    · cases h
  | leave n =>
    simp only [step] at h
    split at h
    · obtain rfl := Option.some.inj h
      exact .of_goOn nofun nofun
    · cases h

theorem mem_goOn {p : QueryPhase} {x : QueryThread} (hx : x ∈ (s.goOn n p).threads) :
    x ∈ s.threads ∨ x.phase = p := by
  obtain ⟨m, hm⟩ := List.mem_iff_getElem?.1 hx
  change (s.threads.modify n fun t => { t with phase := p })[m]? = some x at hm
  rw [List.getElem?_modify] at hm
  obtain ⟨y, hy, rfl⟩ := Option.map_eq_some_iff.1 hm
  split
  · exact .inr rfl
  · exact .inl (List.mem_of_getElem? hy)

/-! ## Before the token is released -/

/-- The threads that have the lock have kept `finalize` waiting. -/
def Held (s : QueryThreads) : Prop := ∀ x ∈ s.threads, x.phase.holds = true → s.Shared

theorem Held.step (h : s.Held) (hstep : step a s = some t) : t.Held := by
  intro x hx hholds
  cases goes_of_step hstep with
  | owner p hshared halive =>
    rcases hshared (h x hx hholds) with hp | hnone
    · exact hp
    · rw [hnone x hx] at hholds
      cases hholds
  | query query hrunning error => exact .inr hrunning
  | thread u n p howner hthreads hcheck hhold =>
    have hs : s.Shared := by
      rcases mem_goOn hx with hx | rfl
      · exact h x (hthreads ▸ hx) hholds
      · rcases hhold hholds with hs | ⟨y, hy, hyholds⟩
        · exact hs
        · exact h y hy hyholds
    unfold Shared at hs ⊢
    change u.owner = _ ∨ u.owner = _
    rwa [howner]

theorem tokenAlive_of_step (hstep : step a s = some t) (halive : t.tokenAlive = true) :
    s.tokenAlive = true := by
  cases goes_of_step hstep with
  | owner p hshared hback => exact hback halive
  | query query hrunning error => exact halive
  | thread u n p howner hthreads hcheck hhold =>
    unfold tokenAlive at halive ⊢
    rwa [show (u.goOn n p).owner = s.owner from howner] at halive

/-- As long as the token lives, nothing is wrong. -/
theorem untouched_of_tokenAlive {as : List QueryAction} (hrun : Machine.run step as s = some t)
    (halive : t.tokenAlive = true) : s.tokenAlive = true ∧ Machine.Meets step Untouched as s := by
  induction as generalizing s with
  | nil =>
    obtain rfl : s = t := by simpa using hrun
    exact ⟨halive, trivial⟩
  | cons a as ih =>
    obtain ⟨u, hu, hrun⟩ := Machine.run_cons.1 hrun
    obtain ⟨hualive, hmeets⟩ := ih hrun
    have hsalive := tokenAlive_of_step hu hualive
    refine ⟨hsalive, Machine.meets_cons.2 ⟨fun _ _ => hsalive, fun v hv => ?_⟩⟩
    exact Option.some.inj (hu.symm.trans hv) ▸ hmeets

/-! ## After it -/

/-- No thread can touch the service any more. -/
structure Spent (s : QueryThreads) : Prop where
  dead : s.tokenAlive = false
  checked : ∀ x ∈ s.threads, x.phase.isChecked = false
  holds : ∀ x ∈ s.threads, x.phase.holds = false

theorem Spent.step (h : s.Spent) (hstep : step a s = some t) : t.Spent := by
  have hdead : t.tokenAlive = false := by
    by_contra hne
    have halive := tokenAlive_of_step hstep (eq_true_of_ne_false hne)
    cases halive.symm.trans h.dead
  have hshared : ¬ s.Shared := by
    intro hs
    have := h.dead
    rcases hs with hs | hs <;> simp [tokenAlive, hs] at this
  cases goes_of_step hstep with
  | owner p _ halive => exact ⟨hdead, h.checked, h.holds⟩
  | query query hrunning error => exact absurd (.inr hrunning) hshared
  | thread u n p howner hthreads hcheck hhold =>
    refine ⟨hdead, fun x hx => ?_, fun x hx => ?_⟩
    · rcases mem_goOn hx with hx | rfl
      · exact h.checked x (hthreads ▸ hx)
      · by_contra hne
        exact absurd (hcheck (eq_true_of_ne_false hne)) (by simp [h.dead])
    · rcases mem_goOn hx with hx | rfl
      · exact h.holds x (hthreads ▸ hx)
      · by_contra hne
        rcases hhold (eq_true_of_ne_false hne) with hs | ⟨y, hy, hyholds⟩
        · exact hshared hs
        · rw [h.holds y hy] at hyholds
          cases hyholds

theorem Spent.untouched (h : s.Spent) : s.Untouched a := by
  intro htouches hsome
  cases a with
  | call n result =>
    simp only [QueryThreads.step] at hsome
    split at hsome
    · next hphase =>
      obtain ⟨x, hx, hp⟩ := exists_of_phase hphase
      have := h.checked x hx
      rw [hp] at this
      cases this
    · cases hsome
  | assign n now =>
    simp only [QueryThreads.step] at hsome
    split at hsome
    · next query result hx => cases h.holds _ (List.mem_of_getElem? hx)
    · cases hsome
  | _ => cases htouches

/-! ## Runs -/

/-- In a run in which `finalize` is about to release the token: whatever comes after, no query
thread touches the service any more, if and only if none is between its first look at the token and
its call of the resolver function. -/
theorem untouched_iff {as : List QueryAction} (hrun : Machine.run step as {} = some s)
    (hlocked : s.owner = .locked) :
    (∀ bs, Machine.Meets step Untouched (as ++ .release :: bs) {}) ↔
      ∀ x ∈ s.threads, x.phase.isChecked = false := by
  have halive : s.tokenAlive = true := by simp [tokenAlive, hlocked]
  have hrelease : step .release s = some { s with owner := .released } := if_pos hlocked
  have hbefore := (untouched_of_tokenAlive hrun halive).2
  have hheld : s.Held := by
    refine Machine.invariant_of_run (I := Held) ?_ ?_ hrun
    · intro s a t hs hstep
      exact hs.step hstep
    · exact fun _ hx => absurd hx List.not_mem_nil
  constructor
  · intro h x hx
    obtain ⟨n, hn⟩ := List.mem_iff_getElem?.1 hx
    by_contra hne
    have hphase : x.phase = .checked := by
      cases hp : x.phase <;> simp_all [QueryPhase.isChecked]
    have hafter := ((Machine.meets_append hrun).1 (h [.call n (.error 0)])).2
    have hcall := (Machine.meets_cons.1 ((Machine.meets_cons.1 hafter).2 _ hrelease)).1 rfl
    have hn' : phase { s with owner := .released } n = some .checked := by
      change s.threads[n]?.map QueryThread.phase = _
      rw [hn, Option.map_some, hphase]
    simp [step, hn', tokenAlive] at hcall
  · intro h bs
    refine (Machine.meets_append hrun).2 ⟨hbefore, Machine.meets_cons.2 ⟨nofun, fun t ht => ?_⟩⟩
    obtain rfl := Option.some.inj (hrelease.symm.trans ht)
    apply Machine.meets_of_invariant (I := Spent)
    · exact fun _ _ hs => hs.untouched
    · intro s a t hs hstep
      exact hs.step hstep
    · refine ⟨rfl, h, fun x hx => ?_⟩
      by_contra hne
      rcases hheld x hx (eq_true_of_ne_false hne) with hs | hs <;> cases hs.symm.trans hlocked

/-- A query is begun and answered, and the service comes to its end meanwhile: the thread looks at
the token, then `finalize` gets the lock. -/
def answeredInTime : List QueryAction :=
  [.start, .startQuery ⟨0, ['a'], 80⟩, .check 0, .call 0 (.ok []), .stop, .pin 0, .lock]

theorem untouched_iff_answeredInTime :
    ∃ s, Machine.run step answeredInTime {} = some s ∧ s.owner = .locked ∧
      ∀ bs, Machine.Meets step Untouched (answeredInTime ++ .release :: bs) {} := by
  obtain ⟨s, hrun, hlocked, hchecked⟩ := Machine.exists_of_any step answeredInTime {}
    (fun s => s.owner = .locked ∧ ∀ x ∈ s.threads, x.phase.isChecked = false) (by decide +kernel)
  exact ⟨s, hrun, hlocked, (untouched_iff hrun hlocked).2 hchecked⟩

/-- The thread finds the token alive, and calls the function of a service that is gone. -/
theorem not_untouched_of_call :
    ¬ Machine.Meets step Untouched
      [.start, .startQuery ⟨0, ['a'], 80⟩, .check 0, .stop, .lock, .release, .unlock, .destroy,
        .call 0 (.error 1)] {} := by
  decide +kernel

end QueryThreads

end Yasio
