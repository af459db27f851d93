import Mathlib.Data.List.Basic

/-!
# The poll watcher

`poll_io_watcher` of `poll_io_watcher.hpp`, without the descriptor of its interrupter.
-/

namespace Yasio

abbrev Fd := ℕ

/-- A set of `socket_event`s to watch for. -/
structure Interest where
  read : Bool := false
  write : Bool := false
  deriving DecidableEq, Repr

namespace Interest

def none : Interest := {}

def readwrite : Interest := { read := true, write := true }

/-- `(events | add) & ~remove` -/
def mod (events add remove : Interest) : Interest where
  read := (events.read || add.read) && !remove.read
  write := (events.write || add.write) && !remove.write

end Interest

/-- The `revents` of a `pollfd`; `error` gathers `POLLERR`, `POLLHUP` and `POLLNVAL`. -/
structure Ready where
  read : Bool := false
  write : Bool := false
  error : Bool := false
  deriving DecidableEq, Repr

/-- `ready & events`, nonzero. -/
def Ready.any (ready events : Ready) : Bool :=
  ready.read && events.read || ready.write && events.write || ready.error && events.error

/-- `events_` and `revents_` -/
structure PollWatcher where
  events : List (Fd × Interest) := []
  revents : List (Fd × Ready) := []
  deriving DecidableEq, Repr

namespace PollWatcher

/-- `pollfd_mod` -/
def pollfdMod (fdset : List (Fd × Interest)) (fd : Fd) (add remove : Interest) :
    List (Fd × Interest) :=
  match fdset.find? (fun e => e.1 == fd) with
  | some e =>
    if e.2.mod add remove = .none then fdset.filter (fun e => e.1 != fd)
    else fdset.map fun e => if e.1 == fd then (fd, e.2.mod add remove) else e
  | none =>
    if Interest.none.mod add remove = .none then fdset
    else fdset ++ [(fd, Interest.none.mod add remove)]

/-- `mod_event` -/
def modEvent (w : PollWatcher) (fd : Fd) (add remove : Interest) : PollWatcher :=
  { w with events := pollfdMod w.events fd add remove }

/-- `poll_io`: what `ppoll` answers for each descriptor, nothing when it fails. -/
def pollIo (w : PollWatcher) (answer : Option (Fd → Ready)) : PollWatcher :=
  { w with revents := w.events.map fun e => (e.1, answer.elim {} fun f => f e.1) }

/-- `is_ready` -/
def isReady (w : PollWatcher) (fd : Fd) (events : Ready) : Bool :=
  (w.revents.find? (fun e => e.1 == fd)).elim false fun e => e.2.any events

/-- The result array has a ready entry for this number. -/
def reports (w : PollWatcher) (fd : Fd) : Bool :=
  w.isReady fd { read := true, write := true, error := true }

theorem reports_of_isReady {w : PollWatcher} {fd : Fd} {events : Ready}
    (h : w.isReady fd events = true) : w.reports fd = true := by
  unfold reports isReady at *
  cases he : w.revents.find? (fun e => e.1 == fd) with
  | none => simp [he] at h
  | some e =>
    simp only [he, Option.elim, Ready.any, Bool.and_true] at h ⊢
    revert h
    cases e.2.read <;> cases e.2.write <;> cases e.2.error <;> simp

@[simp] theorem reports_modEvent (w : PollWatcher) (fd fd' : Fd) (add remove : Interest) :
    (w.modEvent fd add remove).reports fd' = w.reports fd' := rfl

/-! ## What is watched for -/

/-- What is watched for on a descriptor. -/
def interest (w : PollWatcher) (fd : Fd) : Interest :=
  (w.events.find? fun e => e.1 == fd).elim .none Prod.snd

/-- The entry of one descriptor in an array of entries whose events may be changed for another. -/
theorem find?_pollfdMod_of_ne {fd fd' : Fd} (h : fd' ≠ fd) (fdset : List (Fd × Interest))
    (add remove : Interest) :
    (pollfdMod fdset fd add remove).find? (fun e => e.1 == fd') =
      fdset.find? fun e => e.1 == fd' := by
  unfold pollfdMod
  split
  · next e he =>
    generalize e.2.mod add remove = m
    split
    · clear he
      induction fdset with
      | nil => rfl
      | cons x xs ih => grind
    · clear he
      induction fdset with
      | nil => rfl
      | cons x xs ih => grind
  · split
    · rfl
    · simp [h.symm]

theorem interest_modEvent (w : PollWatcher) (fd fd' : Fd) (add remove : Interest) :
    (w.modEvent fd add remove).interest fd' =
      if fd' = fd then (w.interest fd).mod add remove else w.interest fd' := by
  unfold interest modEvent
  dsimp only
  split
  · next heq =>
    subst heq
    unfold pollfdMod
    cases he : w.events.find? (fun e => e.1 == fd') with
    | none =>
      dsimp only
      by_cases hnone : Interest.none.mod add remove = .none
      · rw [if_pos hnone, he]
        exact hnone.symm
      · rw [if_neg hnone]
        simp [he]
    | some e =>
      dsimp only
      by_cases hnone : e.2.mod add remove = .none
      · have hout : (w.events.filter fun e => e.1 != fd').find? (fun e => e.1 == fd') = none := by
          apply List.find?_eq_none.2
          intro x hx
          simpa using (List.mem_filter.1 hx).2
        rw [if_pos hnone, hout]
        exact hnone.symm
      · have hmap : ∀ l : List (Fd × Interest), l.find? (fun e => e.1 == fd') = some e →
            (l.map fun x => if x.1 == fd' then (fd', x.2.mod add remove) else x).find?
              (fun e => e.1 == fd') = some (fd', e.2.mod add remove) := by
          intro l hl
          induction l with
          | nil => cases hl
          | cons x xs ih => grind
        rw [if_neg hnone, hmap _ he]
        rfl
  · next hne => rw [find?_pollfdMod_of_ne hne]

/-- Only the entries of the descriptor change. -/
theorem mem_modEvent {w : PollWatcher} {fd : Fd} {add remove : Interest} {e : Fd × Interest}
    (h : e ∈ (w.modEvent fd add remove).events) : e.1 = fd ∨ e ∈ w.events := by
  unfold modEvent pollfdMod at h
  grind

theorem exists_mem_modEvent {w : PollWatcher} {fd : Fd} {remove : Interest}
    {e : Fd × Interest} (h : e ∈ (w.modEvent fd .none remove).events) :
    ∃ e' ∈ w.events, e'.1 = e.1 := by
  unfold modEvent pollfdMod at h
  dsimp only at h
  split at h
  · next e' he' =>
    split at h
    · exact ⟨e, (List.mem_filter.1 h).1, rfl⟩
    · obtain ⟨x, hx, rfl⟩ := List.mem_map.1 h
      refine ⟨x, hx, ?_⟩
      grind
  · split at h
    · exact ⟨e, h, rfl⟩
    · next hne => 
      exact absurd (by cases remove; rfl) hne

theorem ne_of_mem_modEvent {w : PollWatcher} {fd : Fd}
    {e : Fd × Interest} (h : e ∈ (w.modEvent fd .none .readwrite).events) : e.1 ≠ fd := by
  have hmod : ∀ m : Interest, m.mod .none .readwrite = .none := by
    intro m
    cases m with
    | mk read write => cases read <;> cases write <;> rfl
  unfold modEvent pollfdMod at h
  dsimp only at h
  split at h
  · rw [if_pos (hmod _)] at h
    simpa using (List.mem_filter.1 h).2
  · next hnone =>
    rw [if_pos (hmod _)] at h
    simpa using List.find?_eq_none.1 hnone e h

theorem exists_mem_of_reports {w : PollWatcher} {answer : Option (Fd → Ready)} {fd : Fd}
    (h : (w.pollIo answer).reports fd = true) : ∃ e ∈ w.events, e.1 = fd := by
  unfold reports isReady pollIo at h
  dsimp only at h
  cases he : (w.events.map fun e => (e.1, answer.elim ({} : Ready) fun f => f e.1)).find?
      (fun e => e.1 == fd) with
  | none => simp [he] at h
  | some x =>
    obtain ⟨e, hmem, rfl⟩ := List.mem_map.1 (List.mem_of_find?_eq_some he)
    exact ⟨e, hmem, by simpa using List.find?_some he⟩

end PollWatcher

end Yasio
