import Mathlib.Algebra.Order.BigOperators.Group.Finset
import Mathlib.Algebra.Order.Ring.Int
import Mathlib.Data.Fintype.BigOperators
import Mathlib.Data.Nat.Bitwise
import Yasio.Lib.Machine

/-!
# The shared mutex

`cxx17::shared_mutex` for compilers without C++17: a counter word under a mutex, and two condition
variables.  A function runs under the mutex up to a `wait` or to its end, so each action is one such
piece; a thread that waits is asleep until it is notified or wakes up by itself.
-/

namespace Yasio

/-- What `lock` or `lock_shared` acquires. -/
inductive Ownership
  | exclusive
  | shared
  deriving DecidableEq

/-- Where a thread is. -/
inductive LockPhase
  | free
  | gate1 (wants : Ownership) (asleep : Bool)
  | gate2 (asleep : Bool)
  | holds (owned : Ownership)
  deriving DecidableEq

namespace LockPhase

def isShared : LockPhase → Bool
  | holds .shared => true
  | _ => false

/-- The thread has set `write_entered_`. -/
def hasEntered : LockPhase → Bool
  | holds .exclusive => true
  | gate2 _ => true
  | _ => false

def isHolder : LockPhase → Bool
  | holds _ => true
  | _ => false

def isWaiting : LockPhase → Bool
  | gate1 _ _ => true
  | gate2 _ => true
  | _ => false

def asleepAt1 : LockPhase → Bool
  | gate1 _ asleep => asleep
  | _ => false

def asleepAt2 : LockPhase → Bool
  | gate2 asleep => asleep
  | _ => false

def awake : LockPhase → LockPhase
  | gate1 wants _ => gate1 wants false
  | gate2 _ => gate2 false
  | phase => phase

theorem eq_of_isShared {phase : LockPhase} (h : phase.isShared = true) :
    phase = .holds .shared := by
  rcases phase with _ | _ | _ | ⟨_ | _⟩
  · cases h
  · cases h
  · cases h
  · cases h
  · rfl

theorem hasEntered_of_asleepAt2 {phase : LockPhase} (h : phase.asleepAt2 = true) :
    phase.hasEntered = true := by
  cases phase with
  | gate2 => rfl
  | _ => cases h

end LockPhase

/-- `state_`, and the threads that use the mutex. -/
structure SharedMutex (ι : Type) where
  state : ℕ := 0
  phase : ι → LockPhase := fun _ => .free

/-- A piece of a function under `mut_`, or a spurious wake-up.  `woken` is the thread that
`notify_one` picks. -/
inductive LockAction (ι : Type)
  | lock (i : ι)
  | tryLock (i : ι)
  | unlock (i : ι)
  | lockShared (i : ι)
  | tryLockShared (i : ι)
  | unlockShared (i : ι) (woken : Option ι)
  | wake (i : ι)
  | resume (i : ι)

namespace SharedMutex

variable {ι : Type} [DecidableEq ι] (bits : ℕ)

/-- `1U << (sizeof(count_t) * CHAR_BIT - 1)`, for a `count_t` with one bit more than `bits` -/
def writeEntered : ℕ := 2 ^ bits

/-- `~write_entered_` -/
def nReaders : ℕ := 2 ^ (bits + 1) - 1 - writeEntered bits

/-- `~n_readers_` -/
def notReaders : ℕ := 2 ^ (bits + 1) - 1 - nReaders bits

def noWriter (state : ℕ) : Prop := state &&& writeEntered bits = 0

def noWriterNoReaders (state : ℕ) : Prop := state = 0

def noReaders (state : ℕ) : Prop := state &&& nReaders bits = 0

def noWriterNoMaxReaders (state : ℕ) : Prop :=
  state &&& writeEntered bits = 0 ∧ state &&& nReaders bits ≠ nReaders bits

def oneOrMoreReaders (state : ℕ) : Prop := 0 < state &&& nReaders bits

instance (state : ℕ) : Decidable (noWriter bits state) := inferInstanceAs (Decidable (_ = _))

instance (state : ℕ) : Decidable (noWriterNoReaders state) := inferInstanceAs (Decidable (_ = _))

instance (state : ℕ) : Decidable (noReaders bits state) := inferInstanceAs (Decidable (_ = _))

instance (state : ℕ) : Decidable (noWriterNoMaxReaders bits state) :=
  inferInstanceAs (Decidable (_ ∧ _))

instance (state : ℕ) : Decidable (oneOrMoreReaders bits state) :=
  inferInstanceAs (Decidable (_ < _))

/-- `state_ &= ~n_readers_; state_ |= num_readers;` -/
def withReaders (state numReaders : ℕ) : ℕ := state &&& notReaders bits ||| numReaders

def setPhase (s : SharedMutex ι) (i : ι) (phase : LockPhase) : SharedMutex ι :=
  { s with phase := Function.update s.phase i phase }

/-- `lock`, from the test at the first gate on. -/
def enter (s : SharedMutex ι) (i : ι) : SharedMutex ι :=
  if noWriter bits s.state then
    let state := s.state ||| writeEntered bits
    { s with state := state }.setPhase i
      (if noReaders bits state then .holds .exclusive else .gate2 true)
  else s.setPhase i (.gate1 .exclusive true)

/-- `lock_shared`, from the test on. -/
def enterShared (s : SharedMutex ι) (i : ι) : SharedMutex ι :=
  if noWriterNoMaxReaders bits s.state then
    { s with state := withReaders bits s.state ((s.state &&& nReaders bits) + 1) }.setPhase i
      (.holds .shared)
  else s.setPhase i (.gate1 .shared true)

/-- `try_lock` -/
def tryEnter (s : SharedMutex ι) (i : ι) : SharedMutex ι :=
  if noWriterNoReaders s.state then
    { s with state := writeEntered bits }.setPhase i (.holds .exclusive)
  else s

/-- `try_lock_shared` -/
def tryEnterShared (s : SharedMutex ι) (i : ι) : SharedMutex ι :=
  if noWriterNoMaxReaders bits s.state then
    { s with state := withReaders bits s.state ((s.state &&& nReaders bits) + 1) }.setPhase i
      (.holds .shared)
  else s

/-- The rest of `lock` behind the second gate. -/
def enterGate2 (s : SharedMutex ι) (i : ι) : SharedMutex ι :=
  s.setPhase i (if noReaders bits s.state then .holds .exclusive else .gate2 true)

/-- `gate1_.notify_all()` -/
def notifyAll (s : SharedMutex ι) : SharedMutex ι :=
  { s with phase := fun i => if (s.phase i).asleepAt1 = true then (s.phase i).awake else s.phase i }

/-- `unlock` -/
def leave (s : SharedMutex ι) (i : ι) : SharedMutex ι :=
  { s with state := 0 }.notifyAll.setPhase i .free

section

variable [Fintype ι]

/-- `notify_one`: one of the threads that are asleep at the gate, if there is one. -/
def notifyOne (s : SharedMutex ι) (asleep : LockPhase → Bool) (woken : Option ι) :
    Option (SharedMutex ι) :=
  match woken with
  | some j => if asleep (s.phase j) = true then some (s.setPhase j (s.phase j).awake) else none
  | none => if ∀ j, asleep (s.phase j) = false then some s else none

/-- `unlock_shared` -/
def leaveShared (s : SharedMutex ι) (i : ι) (woken : Option ι) : Option (SharedMutex ι) :=
  let numReaders := (s.state &&& nReaders bits) - 1
  let t := { s with state := withReaders bits s.state numReaders }.setPhase i .free
  if noWriter bits t.state then
    if numReaders = nReaders bits - 1 then t.notifyOne LockPhase.asleepAt1 woken
    else if woken = none then some t else none
  else if numReaders = 0 then t.notifyOne LockPhase.asleepAt2 woken
  else if woken = none then some t else none

def step : LockAction ι → SharedMutex ι → Option (SharedMutex ι)
  | .lock i, s => if s.phase i = .free then some (s.enter bits i) else none
  | .tryLock i, s => if s.phase i = .free then some (s.tryEnter bits i) else none
  | .unlock i, s => if s.phase i = .holds .exclusive then some (s.leave i) else none
  | .lockShared i, s => if s.phase i = .free then some (s.enterShared bits i) else none
  | .tryLockShared i, s => if s.phase i = .free then some (s.tryEnterShared bits i) else none
  | .unlockShared i woken, s =>
    if s.phase i = .holds .shared then s.leaveShared bits i woken else none
  | .wake i, s =>
    if (s.phase i).isWaiting = true then some (s.setPhase i (s.phase i).awake) else none
  | .resume i, s =>
    if s.phase i = .gate1 .exclusive false then some (s.enter bits i)
    else if s.phase i = .gate1 .shared false then some (s.enterShared bits i)
    else if s.phase i = .gate2 false then some (s.enterGate2 bits i)
    else none

end

/-! ## The word -/

section

variable {bits e r n : ℕ}

theorem nReaders_eq (bits : ℕ) : nReaders bits = 2 ^ bits - 1 := by
  unfold nReaders writeEntered
  rw [Nat.pow_succ]
  omega

theorem notReaders_eq (bits : ℕ) : notReaders bits = 2 ^ bits := by
  have hpos := Nat.two_pow_pos bits
  rw [notReaders, nReaders_eq, Nat.pow_succ]
  omega

theorem and_nReaders (hr : r < 2 ^ bits) : (e * 2 ^ bits + r) &&& nReaders bits = r := by
  rw [nReaders_eq, Nat.and_two_pow_sub_one_eq_mod, Nat.mul_comm, Nat.mul_add_mod,
    Nat.mod_eq_of_lt hr]

theorem and_two_pow (he : e ≤ 1) (hr : r < 2 ^ bits) :
    (e * 2 ^ bits + r) &&& 2 ^ bits = e * 2 ^ bits := by
  have hbit : (e * 2 ^ bits + r).testBit bits = e.testBit 0 := by
    rw [Nat.mul_comm, Nat.testBit_two_pow_mul_add e hr, if_neg (lt_irrefl _), Nat.sub_self]
  rw [Nat.and_two_pow, hbit]
  rcases Nat.le_one_iff_eq_zero_or_eq_one.1 he with rfl | rfl <;> rfl

theorem withReaders_eq (he : e ≤ 1) (hr : r < 2 ^ bits) (hn : n < 2 ^ bits) :
    withReaders bits (e * 2 ^ bits + r) n = e * 2 ^ bits + n := by
  rw [withReaders, notReaders_eq, and_two_pow he hr, Nat.mul_comm, Nat.two_pow_add_eq_or_of_lt hn]

theorem or_writeEntered (hr : r < 2 ^ bits) : r ||| writeEntered bits = 1 * 2 ^ bits + r := by
  have hor := Nat.two_pow_add_eq_or_of_lt hr 1
  rw [Nat.mul_one] at hor
  rw [writeEntered, Nat.or_comm, ← hor, Nat.one_mul]

end

/-! ## The threads -/

section

variable [Fintype ι]

/-- How many threads are in such a phase. -/
def count (p : LockPhase → Bool) (s : SharedMutex ι) : ℕ := ∑ i, (p (s.phase i)).toNat

/-- The threads that own the mutex shared. -/
def readers (s : SharedMutex ι) : ℕ := s.count LockPhase.isShared

/-- The threads behind the first gate of `lock`. -/
def entered (s : SharedMutex ι) : ℕ := s.count LockPhase.hasEntered

variable {bits : ℕ} {s s' : SharedMutex ι} {i j : ι} {phase : LockPhase} {p : LockPhase → Bool}
  {a : LockAction ι}

theorem count_setPhase (p : LockPhase → Bool) (s : SharedMutex ι) (i : ι) (phase : LockPhase) :
    (s.setPhase i phase).count p + (p (s.phase i)).toNat = s.count p + (p phase).toNat := by
  have hphase : (fun j => (p ((s.setPhase i phase).phase j)).toNat) =
      Function.update (fun j => (p (s.phase j)).toNat) i (p phase).toNat := by
    funext j
    exact Function.apply_update (fun _ phase => (p phase).toNat) s.phase i phase j
  unfold count
  rw [hphase, Finset.sum_update_of_mem (Finset.mem_univ i),
    ← Finset.add_sum_erase _ _ (Finset.mem_univ i), Finset.sdiff_singleton_eq_erase]
  omega

omit [DecidableEq ι] in
theorem count_pos (h : p (s.phase i) = true) : 0 < s.count p := by
  have hle : (p (s.phase i)).toNat ≤ s.count p :=
    Finset.single_le_sum (f := fun j => (p (s.phase j)).toNat) (fun j _ => Nat.zero_le _)
      (Finset.mem_univ i)
  rw [h] at hle
  exact hle

omit [DecidableEq ι] in
theorem exists_of_count_pos (h : 0 < s.count p) : ∃ i, p (s.phase i) = true := by
  obtain ⟨i, -, hi⟩ := Finset.exists_ne_zero_of_sum_ne_zero (Nat.pos_iff_ne_zero.1 h)
  refine ⟨i, ?_⟩
  cases hp : p (s.phase i)
  · rw [hp] at hi
    exact absurd rfl hi
  · rfl

omit [Fintype ι] in
theorem phase_setPhase_of_ne (h : j ≠ i) : (s.setPhase i phase).phase j = s.phase j := by
  unfold setPhase
  exact Function.update_of_ne h phase s.phase

omit [Fintype ι] in
theorem phase_setPhase_self : (s.setPhase i phase).phase i = phase := by
  unfold setPhase
  exact Function.update_self i phase s.phase

/-- Where one thread is, no second one is. -/
theorem eq_of_count_le_one (h : s.count p ≤ 1) (hp : p .free = false) (hi : p (s.phase i) = true)
    (hj : p (s.phase j) = true) : j = i := by
  by_contra hne
  have hcount := count_setPhase p s i .free
  rw [hi, hp, Bool.toNat_true, Bool.toNat_false] at hcount
  have hpos : 0 < (s.setPhase i .free).count p :=
    count_pos (i := j) (by rw [phase_setPhase_of_ne hne]; exact hj)
  omega

/-- The word counts the threads, and a thread that owns the mutex alone is alone. -/
structure Counted (bits : ℕ) (s : SharedMutex ι) : Prop where
  state_eq : s.state = s.entered * 2 ^ bits + s.readers
  entered_le : s.entered ≤ 1
  readers_lt : s.readers < 2 ^ bits
  alone : ∀ i, s.phase i = .holds .exclusive → s.readers = 0

namespace Counted

omit [DecidableEq ι]

theorem noWriter_iff (h : s.Counted bits) : noWriter bits s.state ↔ s.entered = 0 := by
  rw [noWriter, writeEntered, h.state_eq, and_two_pow h.entered_le h.readers_lt, Nat.mul_eq_zero]
  exact or_iff_left (Nat.two_pow_pos bits).ne'

theorem noReaders_iff (h : s.Counted bits) : noReaders bits s.state ↔ s.readers = 0 := by
  rw [noReaders, h.state_eq, and_nReaders h.readers_lt]

theorem noWriterNoMaxReaders_iff (h : s.Counted bits) :
    noWriterNoMaxReaders bits s.state ↔ s.entered = 0 ∧ s.readers + 1 < 2 ^ bits := by
  have hpos := Nat.two_pow_pos bits
  have hlt := h.readers_lt
  rw [noWriterNoMaxReaders, ← noWriter, h.noWriter_iff, h.state_eq, and_nReaders h.readers_lt,
    nReaders_eq]
  exact and_congr_right fun _ => by omega

theorem noWriterNoReaders_iff (h : s.Counted bits) :
    noWriterNoReaders s.state ↔ s.entered = 0 ∧ s.readers = 0 := by
  rw [noWriterNoReaders, h.state_eq, Nat.add_eq_zero_iff, Nat.mul_eq_zero,
    or_iff_left (Nat.two_pow_pos bits).ne']

/-- A thread goes to another phase, and the word goes with it. -/
theorem move [DecidableEq ι] {e r : ℕ}
    (he : e + (s.phase i).hasEntered.toNat = s.entered + phase.hasEntered.toNat)
    (hr : r + (s.phase i).isShared.toNat = s.readers + phase.isShared.toNat)
    (hele : e ≤ 1) (hrlt : r < 2 ^ bits) (hself : phase = .holds .exclusive → r = 0)
    (hother : ∀ j ≠ i, s.phase j = .holds .exclusive → r = 0) :
    let t := { s with state := e * 2 ^ bits + r }.setPhase i phase
    t.Counted bits ∧ t.entered = e ∧ t.readers = r := by
  have hentered := count_setPhase LockPhase.hasEntered { s with state := e * 2 ^ bits + r } i phase
  have hreaders := count_setPhase LockPhase.isShared { s with state := e * 2 ^ bits + r } i phase
  have he' : ({ s with state := e * 2 ^ bits + r }.setPhase i phase).entered = e :=
    Nat.add_right_cancel (hentered.trans he.symm)
  have hr' : ({ s with state := e * 2 ^ bits + r }.setPhase i phase).readers = r :=
    Nat.add_right_cancel (hreaders.trans hr.symm)
  refine ⟨⟨?_, ?_, ?_, fun j hj => ?_⟩, he', hr'⟩
  · rw [he', hr']
    rfl
  · rwa [he']
  · rwa [hr']
  · rw [hr']
    by_cases hij : j = i
    · subst hij
      rw [phase_setPhase_self] at hj
      exact hself hj
    · rw [phase_setPhase_of_ne hij] at hj
      exact hother j hij hj

end Counted

/-- Some threads that were asleep are awake. -/
structure Woken (s t : SharedMutex ι) : Prop where
  state_eq : t.state = s.state
  phase_eq : ∀ i, t.phase i = s.phase i ∨ t.phase i = (s.phase i).awake

namespace Woken

variable {t : SharedMutex ι}

omit [DecidableEq ι]

omit [Fintype ι] in
theorem refl (s : SharedMutex ι) : Woken s s := ⟨rfl, fun _ => .inl rfl⟩

omit [Fintype ι] in
theorem apply_eq (h : Woken s t) (hp : ∀ phase : LockPhase, p phase.awake = p phase) (i : ι) :
    p (t.phase i) = p (s.phase i) := by
  rcases h.phase_eq i with hi | hi
  · rw [hi]
  · rw [hi, hp]

theorem count_eq (h : Woken s t) (hp : ∀ phase : LockPhase, p phase.awake = p phase) :
    t.count p = s.count p := by
  unfold count
  simp only [h.apply_eq hp]

theorem isShared_awake (phase : LockPhase) : phase.awake.isShared = phase.isShared := by
  cases phase <;> rfl

theorem hasEntered_awake (phase : LockPhase) : phase.awake.hasEntered = phase.hasEntered := by
  cases phase <;> rfl

omit [Fintype ι] in
theorem holds_eq (h : Woken s t) {owned : Ownership} (hi : t.phase i = .holds owned) :
    s.phase i = .holds owned := by
  rcases h.phase_eq i with heq | heq
  · rw [← heq, hi]
  · rw [hi] at heq
    cases hphase : s.phase i <;> rw [hphase] at heq <;> cases heq
    rfl

omit [Fintype ι] in
/-- Nobody has fallen asleep. -/
theorem asleep_eq (h : Woken s t) (hp : ∀ phase : LockPhase, p phase.awake = false)
    (hi : p (t.phase i) = true) : t.phase i = s.phase i := by
  rcases h.phase_eq i with heq | heq
  · exact heq
  · rw [heq, hp] at hi
    cases hi

theorem counted (h : Woken s t) (hs : s.Counted bits) : t.Counted bits := by
  have hreaders : t.readers = s.readers := h.count_eq isShared_awake
  have hentered : t.entered = s.entered := h.count_eq hasEntered_awake
  refine ⟨?_, ?_, ?_, fun i hi => ?_⟩
  · rw [h.state_eq, hs.state_eq, hreaders, hentered]
  · rw [hentered]
    exact hs.entered_le
  · rw [hreaders]
    exact hs.readers_lt
  · rw [hreaders]
    exact hs.alone i (h.holds_eq hi)

end Woken

omit [DecidableEq ι] [Fintype ι] in
theorem woken_notifyAll (s : SharedMutex ι) : Woken s s.notifyAll where
  state_eq := rfl
  phase_eq i := by
    unfold notifyAll
    dsimp only
    split
    · exact .inr rfl
    · exact .inl rfl

omit [DecidableEq ι] [Fintype ι] in
theorem asleepAt1_notifyAll (s : SharedMutex ι) (i : ι) :
    (s.notifyAll.phase i).asleepAt1 = false := by
  unfold notifyAll
  dsimp only
  split
  · cases s.phase i <;> rfl
  · rename_i h
    exact Bool.not_eq_true _ ▸ h

omit [Fintype ι] in
theorem woken_setPhase (s : SharedMutex ι) (i : ι) : Woken s (s.setPhase i (s.phase i).awake) where
  state_eq := rfl
  phase_eq j := by
    by_cases hij : j = i
    · subst hij
      exact .inr phase_setPhase_self
    · exact .inl (phase_setPhase_of_ne hij)

theorem woken_notifyOne {woken : Option ι} {t : SharedMutex ι}
    (h : s.notifyOne p woken = some t) : Woken s t := by
  unfold notifyOne at h
  split at h
  · split at h
    · cases h
      exact woken_setPhase s _
    · cases h
  · split at h
    · cases h
      exact .refl s
    · cases h

/-! ## One step -/

namespace Counted

omit [DecidableEq ι] in
theorem init : ({} : SharedMutex ι).Counted bits where
  state_eq := by simp [entered, readers, count, LockPhase.isShared, LockPhase.hasEntered]
  entered_le := by simp [entered, count, LockPhase.hasEntered]
  readers_lt := by
    have hzero : ({} : SharedMutex ι).readers = 0 := by simp [readers, count, LockPhase.isShared]
    rw [hzero]
    exact Nat.two_pow_pos bits
  alone i hi := by cases hi

/-- A thread goes to another phase that the word does not count. -/
theorem stay (h : s.Counted bits) (he : (s.phase i).hasEntered = phase.hasEntered)
    (hr : (s.phase i).isShared = phase.isShared)
    (hself : phase = .holds .exclusive → s.readers = 0) :
    (s.setPhase i phase).Counted bits ∧ (s.setPhase i phase).entered = s.entered ∧
      (s.setPhase i phase).readers = s.readers := by
  have hstate : { s with state := s.entered * 2 ^ bits + s.readers } = s := by
    rw [← h.state_eq]
  rw [← hstate]
  exact move (by rw [he]) (by rw [hr]) h.entered_le h.readers_lt hself fun j _ hj => h.alone j hj

end Counted

/-- What a step can do. -/
inductive Moved (bits : ℕ) (s : SharedMutex ι) (a : LockAction ι) : SharedMutex ι → Prop
  /-- `try_lock` or `try_lock_shared` has failed. -/
  | still : Moved bits s a s
  | wake (i : ι) (hwaits : (s.phase i).isWaiting = true) :
    Moved bits s a (s.setPhase i (s.phase i).awake)
  | sleep (i : ι) (wants : Ownership) (hi : s.phase i = .free ∨ s.phase i = .gate1 wants false)
    (h : s.entered ≠ 0 ∨ wants = .shared ∧ s.readers + 1 = 2 ^ bits) :
    Moved bits s a (s.setPhase i (.gate1 wants true))
  | enter (i : ι) (hi : s.phase i = .free ∨ s.phase i = .gate1 .exclusive false)
    (h : s.entered = 0) :
    Moved bits s a ({ s with state := 1 * 2 ^ bits + s.readers }.setPhase i
      (if s.readers = 0 then .holds .exclusive else .gate2 true))
  | share (i : ι) (hi : s.phase i = .free ∨ s.phase i = .gate1 .shared false)
    (h : s.entered = 0) (hlt : s.readers + 1 < 2 ^ bits) :
    Moved bits s a ({ s with state := 0 * 2 ^ bits + (s.readers + 1) }.setPhase i (.holds .shared))
  | gate2 (i : ι) (hi : s.phase i = .gate2 false) :
    Moved bits s a (s.setPhase i (if s.readers = 0 then .holds .exclusive else .gate2 true))
  | leave (i : ι) (hi : s.phase i = .holds .exclusive) (ha : a = .unlock i) :
    Moved bits s a (s.leave i)
  | leaveShared (i : ι) (woken : Option ι) (hi : s.phase i = .holds .shared) {t u : SharedMutex ι}
    (ht : t = { s with state := s.entered * 2 ^ bits + (s.readers - 1) }.setPhase i .free)
    (hu : Woken t u)
    (hgate1 : s.entered = 0 → s.readers + 1 = 2 ^ bits →
      t.notifyOne LockPhase.asleepAt1 woken = some u)
    (hgate2 : s.entered ≠ 0 → s.readers = 1 → t.notifyOne LockPhase.asleepAt2 woken = some u) :
    Moved bits s a u

namespace Counted

theorem enter (h : s.Counted bits) (hi : s.phase i = .free ∨ s.phase i = .gate1 .exclusive false) :
    Moved bits s a (s.enter bits i) := by
  unfold SharedMutex.enter
  split
  · rename_i hwriter
    have hzero := h.noWriter_iff.1 hwriter
    have hstate : s.state ||| writeEntered bits = 1 * 2 ^ bits + s.readers := by
      rw [h.state_eq, hzero, Nat.zero_mul, Nat.zero_add, or_writeEntered h.readers_lt]
    have hiff : noReaders bits (1 * 2 ^ bits + s.readers) ↔ s.readers = 0 := by
      rw [noReaders, and_nReaders h.readers_lt]
    dsimp only
    rw [hstate]
    simp only [hiff]
    exact .enter i hi hzero
  · rename_i hwriter
    exact .sleep i .exclusive hi (.inl fun hzero => hwriter (h.noWriter_iff.2 hzero))

omit [DecidableEq ι] in
theorem withReaders_eq (h : s.Counted bits) {n : ℕ} (hn : n < 2 ^ bits) :
    withReaders bits s.state n = s.entered * 2 ^ bits + n := by
  rw [h.state_eq, SharedMutex.withReaders_eq h.entered_le h.readers_lt hn]

omit [DecidableEq ι] in
theorem and_nReaders (h : s.Counted bits) : s.state &&& nReaders bits = s.readers := by
  rw [h.state_eq, SharedMutex.and_nReaders h.readers_lt]

theorem enterShared (h : s.Counted bits)
    (hi : s.phase i = .free ∨ s.phase i = .gate1 .shared false) :
    Moved bits s a (s.enterShared bits i) := by
  unfold SharedMutex.enterShared
  split
  · rename_i hpass
    obtain ⟨hzero, hlt⟩ := h.noWriterNoMaxReaders_iff.1 hpass
    rw [h.and_nReaders, h.withReaders_eq hlt, hzero]
    exact .share i hi hzero hlt
  · rename_i hblocked
    refine .sleep i .shared hi ?_
    rw [h.noWriterNoMaxReaders_iff, not_and, Nat.not_lt] at hblocked
    have hlt := h.readers_lt
    by_cases hzero : s.entered = 0
    · exact .inr ⟨rfl, by have hle := hblocked hzero; omega⟩
    · exact .inl hzero

theorem tryEnter (h : s.Counted bits) (hi : s.phase i = .free) :
    Moved bits s a (s.tryEnter bits i) := by
  unfold SharedMutex.tryEnter
  split
  · rename_i hfree
    obtain ⟨hzero, hreaders⟩ := h.noWriterNoReaders_iff.1 hfree
    have hmoved : Moved bits s a _ := .enter i (.inl hi) hzero
    rw [hreaders, if_pos rfl, Nat.one_mul, Nat.add_zero] at hmoved
    exact hmoved
  · exact .still

theorem tryEnterShared (h : s.Counted bits) (hi : s.phase i = .free) :
    Moved bits s a (s.tryEnterShared bits i) := by
  unfold SharedMutex.tryEnterShared
  split
  · rename_i hpass
    obtain ⟨hzero, hlt⟩ := h.noWriterNoMaxReaders_iff.1 hpass
    rw [h.and_nReaders, h.withReaders_eq hlt, hzero]
    exact .share i (.inl hi) hzero hlt
  · exact .still

theorem leaveShared (h : s.Counted bits) (hi : s.phase i = .holds .shared) {woken : Option ι}
    (hstep : s.leaveShared bits i woken = some s') : Moved bits s a s' := by
  have hpos : 0 < s.readers := count_pos (i := i) (by rw [hi]; rfl)
  have hlt := h.readers_lt
  have hpred : s.readers - 1 < 2 ^ bits := by omega
  have hwriter : noWriter bits (s.entered * 2 ^ bits + (s.readers - 1)) ↔ s.entered = 0 := by
    rw [noWriter, writeEntered, and_two_pow h.entered_le hpred, Nat.mul_eq_zero]
    exact or_iff_left (Nat.two_pow_pos bits).ne'
  unfold SharedMutex.leaveShared at hstep
  dsimp only at hstep
  rw [h.and_nReaders, h.withReaders_eq hpred] at hstep
  generalize ht : ({ s with state := s.entered * 2 ^ bits + (s.readers - 1) }.setPhase i .free) = t
    at hstep
  have hstate : t.state = s.entered * 2 ^ bits + (s.readers - 1) := by
    rw [← ht]
    rfl
  rw [hstate] at hstep
  simp only [hwriter, nReaders_eq] at hstep
  have hstay : (if woken = none then some t else none) = some s' → Woken t s' := by
    intro hsome
    rw [Option.ite_none_right_eq_some] at hsome
    rw [← Option.some.inj hsome.2]
    exact .refl t
  split at hstep
  · rename_i hzero
    split at hstep
    · exact .leaveShared i woken hi ht.symm (woken_notifyOne hstep) (fun _ _ => hstep)
        fun hne => absurd hzero hne
    · rename_i hmax
      exact .leaveShared i woken hi ht.symm (hstay hstep) (fun _ heq => absurd (by omega) hmax)
        fun hne => absurd hzero hne
  · rename_i hne
    split at hstep
    · exact .leaveShared i woken hi ht.symm (woken_notifyOne hstep) (fun hzero => absurd hzero hne)
        fun _ _ => hstep
    · rename_i hsome
      exact .leaveShared i woken hi ht.symm (hstay hstep) (fun hzero => absurd hzero hne)
        fun _ hone => absurd (by omega) hsome

end Counted

theorem step_cases (h : s.Counted bits) (hstep : step bits a s = some s') :
    Moved bits s a s' := by
  cases a with
  | lock i =>
    rw [step, Option.ite_none_right_eq_some] at hstep
    obtain ⟨hi, hs'⟩ := hstep
    cases hs'
    exact h.enter (.inl hi)
  | tryLock i =>
    rw [step, Option.ite_none_right_eq_some] at hstep
    obtain ⟨hi, hs'⟩ := hstep
    cases hs'
    exact h.tryEnter hi
  | unlock i =>
    rw [step, Option.ite_none_right_eq_some] at hstep
    obtain ⟨hi, hs'⟩ := hstep
    cases hs'
    exact .leave i hi rfl
  | lockShared i =>
    rw [step, Option.ite_none_right_eq_some] at hstep
    obtain ⟨hi, hs'⟩ := hstep
    cases hs'
    exact h.enterShared (.inl hi)
  | tryLockShared i =>
    rw [step, Option.ite_none_right_eq_some] at hstep
    obtain ⟨hi, hs'⟩ := hstep
    cases hs'
    exact h.tryEnterShared hi
  | unlockShared i woken =>
    rw [step] at hstep
    split at hstep
    · rename_i hi
      exact h.leaveShared hi hstep
    · cases hstep
  | wake i =>
    rw [step, Option.ite_none_right_eq_some] at hstep
    obtain ⟨hi, hs'⟩ := hstep
    cases hs'
    exact .wake i hi
  | resume i =>
    rw [step] at hstep
    split at hstep
    · rename_i hi
      cases hstep
      exact h.enter (.inr hi)
    · split at hstep
      · rename_i hi
        cases hstep
        exact h.enterShared (.inr hi)
      · split at hstep
        · rename_i hi
          cases hstep
          unfold enterGate2
          simp only [h.noReaders_iff]
          exact .gate2 i hi
        · cases hstep

/-! ## The counts in a run -/

namespace Counted

theorem sleep (h : s.Counted bits) {wants : Ownership}
    (hi : s.phase i = .free ∨ s.phase i = .gate1 wants false) :
    (s.setPhase i (.gate1 wants true)).Counted bits ∧
      (s.setPhase i (.gate1 wants true)).entered = s.entered ∧
      (s.setPhase i (.gate1 wants true)).readers = s.readers := by
  refine h.stay ?_ ?_ fun hphase => by cases hphase
  · rcases hi with hi | hi <;> rw [hi] <;> rfl
  · rcases hi with hi | hi <;> rw [hi] <;> rfl

theorem gate2 (h : s.Counted bits) (hi : s.phase i = .gate2 false) :
    let t := s.setPhase i (if s.readers = 0 then .holds .exclusive else .gate2 true)
    t.Counted bits ∧ t.entered = s.entered ∧ t.readers = s.readers := by
  refine h.stay ?_ ?_ fun hphase => ?_
  · rw [hi]
    split <;> rfl
  · rw [hi]
    split <;> rfl
  · by_contra hne
    rw [if_neg hne] at hphase
    cases hphase

theorem entering (h : s.Counted bits) (hi : s.phase i = .free ∨ s.phase i = .gate1 .exclusive false)
    (hzero : s.entered = 0) :
    let t := { s with state := 1 * 2 ^ bits + s.readers }.setPhase i
      (if s.readers = 0 then .holds .exclusive else .gate2 true)
    t.Counted bits ∧ t.entered = 1 ∧ t.readers = s.readers := by
  refine move ?_ ?_ le_rfl h.readers_lt (fun hphase => ?_) fun j _ hj => h.alone j hj
  · rw [hzero]
    rcases hi with hi | hi <;> rw [hi] <;> split <;> rfl
  · rcases hi with hi | hi <;> rw [hi] <;> split <;> rfl
  · by_contra hne
    rw [if_neg hne] at hphase
    cases hphase

theorem sharing (hi : s.phase i = .free ∨ s.phase i = .gate1 .shared false)
    (hzero : s.entered = 0) (hlt : s.readers + 1 < 2 ^ bits) :
    let t := { s with state := 0 * 2 ^ bits + (s.readers + 1) }.setPhase i (.holds .shared)
    t.Counted bits ∧ t.entered = 0 ∧ t.readers = s.readers + 1 := by
  refine move ?_ ?_ (Nat.zero_le 1) hlt (fun hphase => by cases hphase) fun j _ hj => ?_
  · rw [hzero]
    rcases hi with hi | hi <;> rw [hi] <;> rfl
  · rcases hi with hi | hi <;> rw [hi] <;> rfl
  · have hpos : 0 < s.entered := count_pos (i := j) (by rw [hj]; rfl)
    omega

theorem leaving (h : s.Counted bits) (hi : s.phase i = .holds .exclusive) :
    (s.leave i).Counted bits ∧ (s.leave i).entered = 0 ∧ (s.leave i).readers = 0 := by
  have hwoken := woken_notifyAll s
  have hphase : s.notifyAll.phase i = .holds .exclusive := by
    simp only [notifyAll, hi]
    rfl
  have hpos : 0 < s.entered := count_pos (i := i) (by rw [hi]; rfl)
  have hle := h.entered_le
  have hentered : s.notifyAll.entered = s.entered := hwoken.count_eq Woken.hasEntered_awake
  have hreaders : s.notifyAll.readers = s.readers := hwoken.count_eq Woken.isShared_awake
  have hleave : s.leave i = { s.notifyAll with state := 0 * 2 ^ bits + 0 }.setPhase i .free := by
    rw [Nat.zero_mul]
    rfl
  rw [hleave]
  refine move ?_ ?_ (Nat.zero_le 1) (Nat.two_pow_pos bits) (fun _ => rfl) fun _ _ _ => rfl
  · rw [hphase, hentered]
    exact Nat.le_antisymm hpos hle
  · rw [hphase, hreaders, h.alone i hi]
    rfl

theorem leavingShared (h : s.Counted bits) (hi : s.phase i = .holds .shared) :
    let t := { s with state := s.entered * 2 ^ bits + (s.readers - 1) }.setPhase i .free
    t.Counted bits ∧ t.entered = s.entered ∧ t.readers = s.readers - 1 := by
  have hpos : 0 < s.readers := count_pos (i := i) (by rw [hi]; rfl)
  have hlt := h.readers_lt
  refine move ?_ ?_ h.entered_le (by omega) (fun hphase => by cases hphase) fun j _ hj => ?_
  · rw [hi]
    rfl
  · rw [hi]
    exact Nat.sub_add_cancel hpos
  · rw [h.alone j hj]

end Counted

theorem Moved.counted (h : s.Counted bits) (hmoved : Moved bits s a s') : s'.Counted bits := by
  cases hmoved with
  | still => exact h
  | wake i => exact (woken_setPhase s i).counted h
  | sleep i wants hi => exact (h.sleep hi).1
  | enter i hi hzero => exact (h.entering hi hzero).1
  | share i hi hzero hlt => exact (Counted.sharing hi hzero hlt).1
  | gate2 i hi => exact (h.gate2 hi).1
  | leave i hi => exact (h.leaving hi).1
  | leaveShared i woken hi ht hu =>
    subst ht
    exact hu.counted (h.leavingShared hi).1

theorem counted_of_run {as : List (LockAction ι)} (hrun : Machine.run (step bits) as {} = some s) :
    s.Counted bits :=
  Machine.invariant_of_run (fun _ _ _ h hstep => Moved.counted h (step_cases h hstep))
    Counted.init hrun

/-! ## The gates -/

omit [DecidableEq ι] in
/-- A thread owns the mutex shared or is asleep at the first gate, not both. -/
theorem readers_add_le : s.readers + s.count LockPhase.asleepAt1 ≤ Fintype.card ι := by
  have hle : ∀ phase : LockPhase, phase.isShared.toNat + phase.asleepAt1.toNat ≤ 1 := by
    intro phase
    rcases phase with _ | ⟨_, _ | _⟩ | _ | ⟨_ | _⟩ <;>
      simp [LockPhase.isShared, LockPhase.asleepAt1]
  unfold readers count
  rw [← Finset.sum_add_distrib, ← Finset.card_univ, Finset.card_eq_sum_ones]
  exact Finset.sum_le_sum fun i _ => hle (s.phase i)

theorem notifyOne_cases {woken : Option ι} {t u : SharedMutex ι}
    (h : t.notifyOne p woken = some u) : (∀ j, p (t.phase j) = false) ∨
      ∃ k, p (t.phase k) = true ∧ u = t.setPhase k (t.phase k).awake := by
  unfold notifyOne at h
  split at h
  · rw [Option.ite_none_right_eq_some] at h
    exact .inr ⟨_, h.1, (Option.some.inj h.2).symm⟩
  · rw [Option.ite_none_right_eq_some] at h
    exact .inl h.1

/-- A thread that is asleep has a reason to be: at the second gate, a reader that will notify it; at
the first one, a writer, or for a reader the largest number of readers. -/
structure Awaited (bits : ℕ) (s : SharedMutex ι) : Prop extends s.Counted bits where
  gate2 : ∀ i, s.phase i = .gate2 true → s.readers ≠ 0
  gate1 : Fintype.card ι ≤ nReaders bits + 1 → ∀ i wants, s.phase i = .gate1 wants true →
    s.entered ≠ 0 ∨ wants = .shared ∧ s.readers + 1 = 2 ^ bits

/-- The gates when one thread goes to another phase. -/
theorem Counted.awaited {t : SharedMutex ι} (ht : (t.setPhase i phase).Counted bits)
    (hself2 : phase = .gate2 true → (t.setPhase i phase).readers ≠ 0)
    (hself1 : ∀ wants, phase = .gate1 wants true → (t.setPhase i phase).entered ≠ 0 ∨
      wants = .shared ∧ (t.setPhase i phase).readers + 1 = 2 ^ bits)
    (hother2 : ∀ j ≠ i, t.phase j = .gate2 true → (t.setPhase i phase).readers ≠ 0)
    (hother1 : Fintype.card ι ≤ nReaders bits + 1 →
      ∀ j ≠ i, ∀ wants, t.phase j = .gate1 wants true →
      (t.setPhase i phase).entered ≠ 0 ∨
        wants = .shared ∧ (t.setPhase i phase).readers + 1 = 2 ^ bits) :
    (t.setPhase i phase).Awaited bits := by
  refine ⟨ht, fun j hj => ?_, fun hcard j wants hj => ?_⟩
  · by_cases hij : j = i
    · subst hij
      rw [phase_setPhase_self] at hj
      exact hself2 hj
    · rw [phase_setPhase_of_ne hij] at hj
      exact hother2 j hij hj
  · by_cases hij : j = i
    · subst hij
      rw [phase_setPhase_self] at hj
      exact hself1 wants hj
    · rw [phase_setPhase_of_ne hij] at hj
      exact hother1 hcard j hij wants hj

namespace Awaited

omit [DecidableEq ι] in
theorem init : ({} : SharedMutex ι).Awaited bits where
  toCounted := .init
  gate2 i hi := by cases hi
  gate1 _ i wants hi := by cases hi

theorem asleepAt1_awake (phase : LockPhase) : phase.awake.asleepAt1 = false := by
  cases phase <;> rfl

theorem asleepAt2_awake (phase : LockPhase) : phase.awake.asleepAt2 = false := by
  cases phase <;> rfl

omit [DecidableEq ι] in
theorem woken {t : SharedMutex ι} (h : s.Awaited bits) (hwoken : Woken s t) : t.Awaited bits := by
  have hreaders : t.readers = s.readers := hwoken.count_eq Woken.isShared_awake
  have hentered : t.entered = s.entered := hwoken.count_eq Woken.hasEntered_awake
  refine ⟨hwoken.counted h.toCounted, fun i hi => ?_, fun hcard i wants hi => ?_⟩
  · rw [hreaders]
    exact h.gate2 i ((hwoken.asleep_eq asleepAt2_awake (by rw [hi]; rfl)).symm.trans hi)
  · rw [hreaders, hentered]
    exact h.gate1 hcard i wants ((hwoken.asleep_eq asleepAt1_awake (by rw [hi]; rfl)).symm.trans hi)

end Awaited

theorem Moved.awaited (h : s.Awaited bits) (hmoved : Moved bits s a s') : s'.Awaited bits := by
  have hentered : ∀ j asleep, s.phase j = .gate2 asleep → s.entered ≠ 0 :=
    fun j asleep hj => (count_pos (i := j) (by rw [hj]; rfl)).ne'
  cases hmoved with
  | still => exact h
  | wake i => exact h.woken (woken_setPhase s i)
  | sleep i wants hi hblocked =>
    obtain ⟨hcounted, he, hr⟩ := h.sleep hi
    refine hcounted.awaited (fun hphase => by cases hphase) (fun wants' hphase => ?_)
      (fun j _ hj => ?_) fun hcard j _ wants' hj => ?_
    · cases hphase
      rw [he, hr]
      exact hblocked
    · rw [hr]
      exact h.gate2 j hj
    · rw [he, hr]
      exact h.gate1 hcard j wants' hj
  | enter i hi hzero =>
    obtain ⟨hcounted, he, hr⟩ := h.entering hi hzero
    have hne := he.trans_ne Nat.one_ne_zero
    refine hcounted.awaited (fun hphase => ?_) (fun _ _ => .inl hne)
      (fun j _ hj => absurd hzero (hentered j true hj)) fun _ _ _ _ _ => .inl hne
    rw [hr]
    intro hreaders
    rw [if_pos hreaders] at hphase
    cases hphase
  | share i hi hzero hlt =>
    obtain ⟨hcounted, -, -⟩ := Counted.sharing hi hzero hlt
    refine hcounted.awaited (fun hphase => by cases hphase) (fun _ hphase => by cases hphase)
      (fun j _ hj => absurd hzero (hentered j true hj)) fun hcard j _ wants hj => ?_
    rcases h.gate1 hcard j wants hj with hne | ⟨-, hmax⟩
    · exact absurd hzero hne
    · omega
  | gate2 i hi =>
    obtain ⟨hcounted, he, hr⟩ := h.toCounted.gate2 hi
    have hne := he.trans_ne (hentered i false hi)
    refine hcounted.awaited (fun hphase => ?_) (fun _ _ => .inl hne) (fun j _ hj => ?_)
      fun _ _ _ _ _ => .inl hne
    · rw [hr]
      intro hreaders
      rw [if_pos hreaders] at hphase
      cases hphase
    · rw [hr]
      exact h.gate2 j hj
  | leave i hi =>
    obtain ⟨hcounted, -, -⟩ := h.leaving hi
    have hwoken := woken_notifyAll { s with state := 0 }
    refine hcounted.awaited (fun hphase => by cases hphase) (fun _ hphase => by cases hphase)
      (fun j hij hj => ?_) fun _ j _ wants hj => ?_
    · have hj' := (hwoken.asleep_eq Awaited.asleepAt2_awake (by rw [hj]; rfl)).symm.trans hj
      exact absurd (eq_of_count_le_one (p := LockPhase.hasEntered) h.entered_le rfl
        (by rw [hi]; rfl) (by rw [show s.phase j = .gate2 true from hj']; rfl)) hij
    · have hasleep := asleepAt1_notifyAll { s with state := 0 } j
      rw [hj] at hasleep
      cases hasleep
  | leaveShared i woken hi ht hu hgate1 hgate2 =>
    rename_i t
    obtain ⟨-, he, hr⟩ := h.leavingShared hi
    rw [← ht] at he hr
    have he' : s'.entered = s.entered := (hu.count_eq Woken.hasEntered_awake).trans he
    have hr' : s'.readers = s.readers - 1 := (hu.count_eq Woken.isShared_awake).trans hr
    have hphase : ∀ j, t.phase j = .free ∨ t.phase j = s.phase j := by
      intro j
      rw [ht]
      by_cases hij : j = i
      · subst hij
        exact .inl phase_setPhase_self
      · exact .inr (phase_setPhase_of_ne hij)
    have hpos : 0 < s.readers := count_pos (i := i) (by rw [hi]; rfl)
    refine ⟨hu.counted (ht ▸ (h.leavingShared hi).1), fun j hj => ?_, fun hcard j wants hj => ?_⟩
    · have hjt := (hu.asleep_eq Awaited.asleepAt2_awake (by rw [hj]; rfl)).symm.trans hj
      have hjs : s.phase j = .gate2 true := by
        rcases hphase j with hfree | hsame
        · rw [hjt] at hfree
          cases hfree
        · rw [← hsame, hjt]
      rw [hr']
      intro hlast
      rcases notifyOne_cases (hgate2 (hentered j true hjs) (by omega)) with hnone | ⟨k, hk, rfl⟩
      · have hfalse := hnone j
        rw [hjt] at hfalse
        cases hfalse
      · -- Only one thread is behind the first gate, so it is the one that was notified.
        have hks : (s.phase k).hasEntered = true := by
          rcases hphase k with hfree | hsame
          · rw [hfree] at hk
            cases hk
          · rw [← hsame]
            exact LockPhase.hasEntered_of_asleepAt2 hk
        obtain rfl := eq_of_count_le_one (p := LockPhase.hasEntered) h.entered_le rfl hks
          (by rw [hjs]; rfl)
        rw [phase_setPhase_self, hjt] at hj
        cases hj
    · have hjt := (hu.asleep_eq Awaited.asleepAt1_awake (by rw [hj]; rfl)).symm.trans hj
      have hjs : s.phase j = .gate1 wants true := by
        rcases hphase j with hfree | hsame
        · rw [hjt] at hfree
          cases hfree
        · rw [← hsame, hjt]
      rw [he']
      rcases h.gate1 hcard j wants hjs with hne | ⟨-, hmax⟩
      · exact .inl hne
      refine .inl fun hzero => ?_
      rcases notifyOne_cases (hgate1 hzero hmax) with hnone | ⟨k, hk, rfl⟩
      · have hfalse := hnone j
        rw [hjt] at hfalse
        cases hfalse
      · have hks : (s.phase k).asleepAt1 = true := by
          rcases hphase k with hfree | hsame
          · rw [hfree] at hk
            cases hk
          · rwa [← hsame]
        -- All threads but one own the mutex shared, so only that one is asleep.
        have hone : s.count LockPhase.asleepAt1 ≤ 1 := by
          have hle := readers_add_le (s := s)
          rw [nReaders_eq] at hcard
          omega
        obtain rfl := eq_of_count_le_one (p := LockPhase.asleepAt1) hone rfl hks (by rw [hjs]; rfl)
        rw [phase_setPhase_self, hjt] at hj
        cases hj

theorem awaited_of_run {as : List (LockAction ι)} (hrun : Machine.run (step bits) as {} = some s) :
    s.Awaited bits :=
  Machine.invariant_of_run (fun _ _ _ h hstep => Moved.awaited h (step_cases h.toCounted hstep))
    Awaited.init hrun

/-! ## What the mutex promises -/

/-- A thread that owns the mutex alone is the only owner, the word says who is there, and the
assertions of `unlock` and `unlock_shared` hold for the owners. -/
theorem exclusive_of_run (bits : ℕ) {as : List (LockAction ι)} {s : SharedMutex ι}
    (hrun : Machine.run (step bits) as {} = some s) :
    (∀ i j, s.phase i = .holds .exclusive → (s.phase j).isHolder = true → j = i) ∧
      (s.state = s.entered * 2 ^ bits + s.readers ∧ s.entered ≤ 1) ∧
      s.state &&& nReaders bits = s.readers ∧
      (noWriter bits s.state ↔ ∀ i, (s.phase i).hasEntered = false) ∧
      (∀ i, s.phase i = .holds .exclusive → ¬noWriter bits s.state ∧ noReaders bits s.state) ∧
      ∀ i, s.phase i = .holds .shared → oneOrMoreReaders bits s.state := by
  have h := counted_of_run hrun
  refine ⟨fun i j hi hj => ?_, ⟨h.state_eq, h.entered_le⟩, h.and_nReaders, ?_,
    fun i hi => ⟨?_, ?_⟩, fun i hi => ?_⟩
  · rcases hphase : s.phase j with _ | _ | _ | ⟨_ | _⟩
    · rw [hphase] at hj
      cases hj
    · rw [hphase] at hj
      cases hj
    · rw [hphase] at hj
      cases hj
    · exact eq_of_count_le_one (p := LockPhase.hasEntered) h.entered_le rfl (by rw [hi]; rfl)
        (by rw [hphase]; rfl)
    · have hpos : 0 < s.readers := count_pos (i := j) (by rw [hphase]; rfl)
      exact absurd (h.alone i hi) hpos.ne'
  · rw [h.noWriter_iff]
    constructor
    · intro hzero i
      by_contra hi
      exact absurd hzero (count_pos (Bool.not_eq_false _ ▸ hi)).ne'
    · intro hnone
      by_contra hne
      obtain ⟨i, hi⟩ := exists_of_count_pos (Nat.pos_of_ne_zero hne)
      rw [hnone i] at hi
      cases hi
  · rw [h.noWriter_iff]
    exact (count_pos (i := i) (by rw [hi]; rfl)).ne'
  · rw [h.noReaders_iff]
    exact h.alone i hi
  · rw [oneOrMoreReaders, h.and_nReaders]
    exact count_pos (by rw [hi]; rfl)

/-- A writer waits for a reader, takes the mutex over from it, and the reader comes back to wait. -/
def takeover : List (LockAction Bool) :=
  [.lockShared false, .lock true, .unlockShared false (some true), .resume true, .lockShared false]

/-- The mutex afterwards. -/
def takenOver : SharedMutex Bool := (Machine.run (step 1) takeover {}).getD {}

theorem run_takeover : Machine.run (step 1) takeover {} = some takenOver := rfl

theorem exclusive_of_run_takeover : takenOver.phase true = .holds .exclusive ∧
    takenOver.phase false = .gate1 .shared true ∧
    (∀ i j, takenOver.phase i = .holds .exclusive → (takenOver.phase j).isHolder = true → j = i) ∧
      (takenOver.state = takenOver.entered * 2 ^ 1 + takenOver.readers ∧ takenOver.entered ≤ 1) ∧
      takenOver.state &&& nReaders 1 = takenOver.readers ∧
      (noWriter 1 takenOver.state ↔ ∀ i, (takenOver.phase i).hasEntered = false) ∧
      (∀ i, takenOver.phase i = .holds .exclusive →
        ¬noWriter 1 takenOver.state ∧ noReaders 1 takenOver.state) ∧
      ∀ i, takenOver.phase i = .holds .shared → oneOrMoreReaders 1 takenOver.state :=
  ⟨by decide, by decide, exclusive_of_run 1 run_takeover⟩

/-- A writer has unlocked the mutex, and a second one was notified. -/
def handover : List (LockAction Bool) := [.lock true, .lock false, .unlock true]

/-- The mutex afterwards. -/
def handedOver : SharedMutex Bool := (Machine.run (step 1) handover {}).getD {}

theorem run_handover : Machine.run (step 1) handover {} = some handedOver := rfl

namespace Counted

/-- Nobody is in the way of a thread that goes on. -/
theorem resume (h : s.Counted bits) (hbits : 0 < bits) (hreaders : s.readers = 0)
    (hi : (∃ wants, s.phase i = .gate1 wants false ∧ s.entered = 0) ∨ s.phase i = .gate2 false) :
    ∃ s', step bits (.resume i) s = some s' ∧ (s'.phase i).isHolder = true := by
  have hpow : 1 < 2 ^ bits := Nat.one_lt_two_pow hbits.ne'
  rcases hi with ⟨_ | _, hi, hzero⟩ | hi
  · refine ⟨_, if_pos hi, ?_⟩
    have hstate : noReaders bits (s.state ||| writeEntered bits) := by
      rw [h.state_eq, hzero, hreaders, noReaders, Nat.zero_mul, Nat.zero_add,
        or_writeEntered (Nat.two_pow_pos bits), SharedMutex.and_nReaders (Nat.two_pow_pos bits)]
    rw [SharedMutex.enter, if_pos (h.noWriter_iff.2 hzero)]
    dsimp only
    rw [if_pos hstate, phase_setPhase_self]
    rfl
  · refine ⟨_, (if_neg (by rw [hi]; decide)).trans (if_pos hi), ?_⟩
    have hpass : noWriterNoMaxReaders bits s.state :=
      h.noWriterNoMaxReaders_iff.2 ⟨hzero, by omega⟩
    rw [SharedMutex.enterShared, if_pos hpass, phase_setPhase_self]
    rfl
  · refine ⟨_, (if_neg (by rw [hi]; decide)).trans
      ((if_neg (by rw [hi]; decide)).trans (if_pos hi)), ?_⟩
    rw [enterGate2, if_pos (h.noReaders_iff.2 hreaders), phase_setPhase_self]
    rfl

end Counted

/-- No wake-up is lost: when nobody owns the mutex and a thread waits, then one of the waiting
threads is awake and acquires the mutex as soon as it goes on. -/
theorem acquires_of_run {bits : ℕ} (hbits : 0 < bits)
    (hcard : Fintype.card ι ≤ nReaders bits + 1) {as : List (LockAction ι)} {s : SharedMutex ι}
    (hrun : Machine.run (step bits) as {} = some s) (hfree : ∀ i, (s.phase i).isHolder = false)
    (hwaits : ∃ i, (s.phase i).isWaiting = true) :
    ∃ i s', step bits (.resume i) s = some s' ∧ (s'.phase i).isHolder = true := by
  have h := awaited_of_run hrun
  have hreaders : s.readers = 0 := by
    by_contra hne
    obtain ⟨i, hi⟩ := exists_of_count_pos (Nat.pos_of_ne_zero hne)
    have hi' := hfree i
    rw [LockPhase.eq_of_isShared hi] at hi'
    cases hi'
  have hpow : 1 < 2 ^ bits := Nat.one_lt_two_pow hbits.ne'
  by_cases hzero : s.entered = 0
  · obtain ⟨i, hi⟩ := hwaits
    refine ⟨i, h.resume hbits hreaders (.inl ?_)⟩
    rcases hphase : s.phase i with _ | ⟨wants, _ | _⟩ | _ | _
    · rw [hphase] at hi
      cases hi
    · exact ⟨wants, rfl, hzero⟩
    · rcases h.gate1 hcard i wants hphase with hne | ⟨-, hmax⟩
      · exact absurd hzero hne
      · omega
    · exact absurd hzero (count_pos (i := i) (by rw [hphase]; rfl)).ne'
    · rw [hphase] at hi
      cases hi
  · obtain ⟨i, hi⟩ := exists_of_count_pos (Nat.pos_of_ne_zero hzero)
    refine ⟨i, h.resume hbits hreaders (.inr ?_)⟩
    have hi' := hfree i
    rcases hphase : s.phase i with _ | _ | _ | _
    · rw [hphase] at hi
      cases hi
    · rw [hphase] at hi
      cases hi
    · rename_i asleep
      cases asleep
      · rfl
      · exact absurd hreaders (h.gate2 i hphase)
    · rw [hphase] at hi'
      cases hi'

theorem acquires_of_run_handover :
    ∃ i s', step 1 (.resume i) handedOver = some s' ∧ (s'.phase i).isHolder = true :=
  acquires_of_run (by decide) (by decide) run_handover (by decide) (by decide)

/-- With two threads more than the word can count as readers, one that waits for the largest number
to go down may not be notified. -/
example : (Machine.run (step 2) ([.lockShared 0, .lockShared 1, .lockShared 2, .lockShared 3,
    .lockShared 4, .unlockShared 0 (some 3), .unlockShared 1 none, .unlockShared 2 none, .resume 3,
    .unlockShared 3 none] : List (LockAction (Fin 5))) {}).any (fun s =>
      decide ((∀ i, (s.phase i).isHolder = false) ∧ s.phase 4 = .gate1 .shared true)) = true := by
  decide

/-- A thread has passed the first gate, and who owns the mutex beside it is a reader that owned it
before. -/
structure Behind (bits : ℕ) (s₀ : SharedMutex ι) (i : ι) (s : SharedMutex ι) : Prop where
  awaited : s.Awaited bits
  entered : (s.phase i).hasEntered = true
  owners : ∀ j ≠ i, ∀ owned, s.phase j = .holds owned →
    owned = .shared ∧ s₀.phase j = .holds .shared

omit [DecidableEq ι] in
/-- Other threads may fall asleep, wake up, or give the mutex up. -/
theorem Behind.of_phase {s₀ : SharedMutex ι} (h : Behind bits s₀ i s) (h' : s'.Awaited bits)
    (hi : (s'.phase i).hasEntered = true)
    (hother : ∀ j ≠ i, ∀ owned, s'.phase j = .holds owned → s.phase j = .holds owned) :
    Behind bits s₀ i s' :=
  ⟨h', hi, fun j hij owned hj => h.owners j hij owned (hother j hij owned hj)⟩

theorem Moved.behind {s₀ : SharedMutex ι} (h : Behind bits s₀ i s) (hmoved : Moved bits s a s')
    (ha : a ≠ .unlock i) : Behind bits s₀ i s' := by
  have h' := hmoved.awaited h.awaited
  have hne : s.entered ≠ 0 := (count_pos h.entered).ne'
  have hunique : ∀ k, (s.phase k).hasEntered = true → k = i := fun k hk =>
    eq_of_count_le_one (p := LockPhase.hasEntered) h.awaited.entered_le rfl h.entered hk
  cases hmoved with
  | still => exact h
  | wake k =>
    have hwoken := woken_setPhase s k
    exact h.of_phase h' ((hwoken.apply_eq Woken.hasEntered_awake i).trans h.entered)
      fun j _ _ hj => hwoken.holds_eq hj
  | sleep k wants hk =>
    have hik : i ≠ k := by
      rintro rfl
      have hi := h.entered
      rcases hk with hk | hk <;> rw [hk] at hi <;> cases hi
    refine h.of_phase h' (by rw [phase_setPhase_of_ne hik]; exact h.entered) fun j _ owned hj => ?_
    by_cases hjk : j = k
    · subst hjk
      rw [phase_setPhase_self] at hj
      cases hj
    · rwa [phase_setPhase_of_ne hjk] at hj
  | enter k _ hzero => exact absurd hzero hne
  | share k _ hzero => exact absurd hzero hne
  | gate2 k hk =>
    obtain rfl := hunique k (by rw [hk]; rfl)
    refine h.of_phase h' ?_ fun j hjk owned hj => by rwa [phase_setPhase_of_ne hjk] at hj
    rw [phase_setPhase_self]
    split <;> rfl
  | leave k hk hunlock =>
    obtain rfl := hunique k (by rw [hk]; rfl)
    exact absurd hunlock ha
  | leaveShared k woken hk ht hu =>
    have hik : i ≠ k := by
      rintro rfl
      have hi := h.entered
      rw [hk] at hi
      cases hi
    refine h.of_phase h' ?_ fun j _ owned hj => ?_
    · rw [hu.apply_eq Woken.hasEntered_awake, ht, phase_setPhase_of_ne hik]
      exact h.entered
    · have hjt := hu.holds_eq hj
      rw [ht] at hjt
      by_cases hjk : j = k
      · subst hjk
        rw [phase_setPhase_self] at hjt
        cases hjt
      · rwa [phase_setPhase_of_ne hjk] at hjt

/-- A writer is not overtaken: from the moment a thread has passed the first gate of `lock` until it
unlocks, no other thread becomes an owner, and when the last reader has left it owns the mutex or is
awake. -/
theorem shared_of_run {bits : ℕ} {as as' : List (LockAction ι)} {s s' : SharedMutex ι} {i : ι}
    (hrun : Machine.run (step bits) as {} = some s) (hi : (s.phase i).hasEntered = true)
    (hrun' : Machine.run (step bits) as' s = some s') (hlocked : .unlock i ∉ as') :
    (s'.phase i).hasEntered = true ∧
      (∀ j ≠ i, ∀ owned, s'.phase j = .holds owned → owned = .shared ∧ s.phase j = .holds .shared) ∧
      ((∀ j, s'.phase j ≠ .holds .shared) →
        s'.phase i = .holds .exclusive ∨ s'.phase i = .gate2 false) := by
  have hstart : Behind bits s i s := by
    refine ⟨awaited_of_run hrun, hi, fun j hij owned hj => ?_⟩
    cases owned with
    | exclusive =>
      exact absurd (eq_of_count_le_one (p := LockPhase.hasEntered) (awaited_of_run hrun).entered_le
        rfl hi (by rw [hj]; rfl)) hij
    | shared => exact ⟨rfl, hj⟩
  have hall : Machine.Meets (step bits) (fun _ _ => True) as' s :=
    Machine.meets_of_invariant (I := fun _ => True) (fun _ _ _ => trivial)
      (fun _ _ _ _ _ => trivial) trivial
  have hmeets : Machine.Meets (step bits) (fun _ a => True ∧ a ≠ .unlock i) as' s :=
    hall.and_of_forall fun a ha heq => hlocked (heq ▸ ha)
  have h : Behind bits s i s' := Machine.invariant_of_meets
    (fun _ _ _ h hC hstep => Moved.behind h (step_cases h.awaited.toCounted hstep) hC.2)
    hstart hmeets hrun'
  refine ⟨h.entered, h.owners, fun hnone => ?_⟩
  have hreaders : s'.readers = 0 := by
    by_contra hne
    obtain ⟨j, hj⟩ := exists_of_count_pos (Nat.pos_of_ne_zero hne)
    exact hnone j (LockPhase.eq_of_isShared hj)
  have hentered := h.entered
  rcases hphase : s'.phase i with _ | _ | asleep | owned
  · rw [hphase] at hentered
    cases hentered
  · rw [hphase] at hentered
    cases hentered
  · cases asleep
    · exact .inr rfl
    · exact absurd hreaders (h.awaited.gate2 i hphase)
  · cases owned
    · exact .inl rfl
    · rw [hphase] at hentered
      cases hentered

/-- A writer waits for the reader that was there before it. -/
def lastReader : SharedMutex Bool :=
  (Machine.run (step 1) [.lockShared true, .lock false] {}).getD {}

def noReader : SharedMutex Bool :=
  (Machine.run (step 1) [.unlockShared true (some false)] lastReader).getD {}

theorem shared_of_run_lastReader :
    (noReader.phase false).hasEntered = true ∧
      (∀ j ≠ false, ∀ owned, noReader.phase j = .holds owned →
        owned = .shared ∧ lastReader.phase j = .holds .shared) ∧
      ((∀ j, noReader.phase j ≠ .holds .shared) →
        noReader.phase false = .holds .exclusive ∨ noReader.phase false = .gate2 false) :=
  shared_of_run (show Machine.run (step 1) [.lockShared true, .lock false] {} = some lastReader from
    rfl) rfl (show Machine.run (step 1) [.unlockShared true (some false)] lastReader = some noReader
      from rfl) (by simp)

end

end SharedMutex

end Yasio
