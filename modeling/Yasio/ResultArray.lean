import Yasio.Backends

/-!
# The result arrays of the watcher back ends

`poll_io` and `is_ready` of the epoll, event port and kqueue watchers, called as `run` does.
`is_ready` searches the array up to what the last call of the kernel returned, also where that is
-1 and there is no such range, and a frame with a timer that is due has no poll.
-/

namespace Yasio

variable {β ε : Type}

/-- What a watcher does with its books and with the entries of its array. -/
structure BackEnd (β ε : Type) where
  modEvent : β → ModEvent → Option β
  /-- `max_events_` -/
  maxEvents : β → Int
  /-- an entry that `reset` has cleared -/
  zero : ε
  /-- the predicate of the search -/
  found : Fd → EventSet → ε → Bool
  /-- What `is_ready` returns for an entry is not 0. -/
  answers : EventSet → ε → Bool
  /-- The entry is about this descriptor and one of these events. -/
  reports : Fd → EventSet → ε → Bool
  /-- the number of events after a call of the kernel that failed -/
  failed : Int
  /-- `poll_io` of the event port has no return statement. -/
  returns : Bool
  answers_zero : ∀ asked, answers asked zero = false

/-- A watcher, and whether `run` is at the top of its loop. -/
structure Watching (β ε : Type) where
  book : β
  revents : List ε := []
  nrevents : Int := 0
  atTop : Bool := true
  /-- what the last poll reported that did not fail -/
  report : List ε := []
  /-- The last poll failed. -/
  failed : Bool := false

/-- A call, or a part of `run` without one. -/
inductive PollCall (ε : Type)
  | modEvent (c : ModEvent)
  /-- a frame that does not wait -/
  | skip
  /-- What the kernel reports, none when it fails; and what a caller finds for a result that
  `poll_io` does not return. -/
  | poll (answer : Option (List ε)) (garbage : Int)
  | isReady (fd : Fd) (asked : EventSet)
  /-- the end of a frame -/
  | frame

/-- `std::find_if` from the start of the array up to `last`, and the rest of the array where it
stops; none when this is not a range of the array. -/
def findIf (p : ε → Bool) (last : Int) (es : List ε) : Option (List ε) :=
  if 0 ≤ last ∧ last ≤ es.length then
    some ((es.take last.toNat).dropWhile (fun e => !p e) ++ es.drop last.toNat)
  else none

namespace BackEnd

variable (k : BackEnd β ε) (interrupter : Fd) (w : Watching β ε)

/-- `is_ready`; none when it searches what is not a range of the array. -/
def isReady (fd : Fd) (asked : EventSet) : Option Bool :=
  (findIf (k.found fd asked) w.nrevents w.revents).map fun it => it.head?.any (k.answers asked)

/-- `reset(max_events_)`, and the call of the kernel. -/
def polled (answer : Option (List ε)) : Watching β ε :=
  let entries := answer.getD []
  { w with
    revents := entries ++
      List.replicate ((k.maxEvents w.book).toNat - entries.length) k.zero
    nrevents := answer.elim k.failed fun entries => (entries.length : Int)
    report := answer.getD w.report
    failed := answer.isNone }

/-- What `poll_io` returns: an event of the interrupter does not count. -/
def retval (garbage : Int) : Int :=
  if !k.returns then garbage
  else if 0 < w.nrevents ∧ k.isReady w interrupter {.read} = some true then w.nrevents - 1
  else w.nrevents

/-- There are no more entries than the array has; a negative size is none for `reset`. -/
def canPoll (answer : Option (List ε)) : Bool :=
  w.atTop && 0 ≤ k.maxEvents w.book &&
    answer.all fun entries => entries.length ≤ k.maxEvents w.book

def step : PollCall ε → Watching β ε → Option (Watching β ε)
  | .modEvent c, w =>
    if c.fd = interrupter then none
    else (k.modEvent w.book c).map fun book => { w with book }
  | .skip, w => if w.atTop then some { w with atTop := false } else none
  | .poll answer garbage, w =>
    if k.canPoll w answer then
      let w := k.polled w answer
      -- A poll that fails is retried.
      some { w with atTop := k.retval interrupter w garbage < 0 }
    else none
  | .isReady fd asked, w => if w.atTop then none else (k.isReady w fd asked).map fun _ => w
  | .frame, w => if w.atTop then none else some { w with atTop := true }

/-- The call of `is_ready` that is made in the step, on the array as it then is. -/
def call : PollCall ε → Option (Watching β ε × Fd × EventSet)
  | .isReady fd asked => if w.atTop then none else some (w, fd, asked)
  | .poll answer _ =>
    if k.canPoll w answer ∧ k.returns ∧ 0 < (k.polled w answer).nrevents then
      some (k.polled w answer, interrupter, {.read})
    else none
  | _ => none

/-- The call examines entries of the array only, and says yes only to what was reported. -/
def Sound (fd : Fd) (asked : EventSet) : Prop :=
  ∃ ready, k.isReady w fd asked = some ready ∧
    (ready = true → ∃ e ∈ w.report, k.reports fd asked e = true)

/-- After a poll that failed, the count is within the cleared array; after another, the entry that
the search stops at is one of the descriptor. -/
structure Safe (fd : Fd) (asked : EventSet) : Prop where
  failed : w.failed = true → 0 ≤ k.failed ∧ k.failed ≤ w.revents.length
  report : w.failed = false → ∀ e, w.report.find? (k.found fd asked) = some e →
    k.answers asked e = true → ∃ e' ∈ w.report, k.reports fd asked e' = true

/-- The array is the last report, if that poll did not fail, with cleared entries behind it. -/
def Filled : Prop :=
  ∃ n, w.revents = (if w.failed then [] else w.report) ++ List.replicate n k.zero ∧
    w.nrevents = if w.failed then k.failed else (w.report.length : Int)

end BackEnd

/-! ## The three watchers -/

/-- An `epoll_event` or a `port_event_t`. -/
structure PortEvent where
  /-- the descriptor that the event is of; none for what was sent to a port by `port_send` -/
  source : Option Fd := none
  /-- `data.fd` or `portev_object`.  `wakeup` has epoll store an address in its place. -/
  object : ℕ := 0
  events : EventSet := ∅
  deriving DecidableEq

/-- A `struct kevent`.  The filter of a cleared one is 0. -/
structure Kevent where
  udata : ℕ := 0
  error : Bool := false
  filter : Option SocketEvent := none
  deriving DecidableEq

/-- `is_ready` of epoll and of the event port looks for the number and then at the events. -/
def portBackEnd (failed : Int) (returns : Bool) : BackEnd PortBook PortEvent where
  modEvent w c := some (w.modEvent c)
  maxEvents w := w.maxEvents
  zero := {}
  found fd _ e := e.object = fd
  answers asked e := e.events ∩ asked ≠ ∅
  reports fd asked e := e.source = some fd ∧ e.events ∩ asked ≠ ∅
  failed
  returns
  answers_zero asked := by simp

def epollBackEnd : BackEnd PortBook PortEvent := portBackEnd (-1) true

/-- `num_events` is 1 before the call of `port_getn`, which leaves it alone when it fails. -/
def evportBackEnd : BackEnd PortBook PortEvent := portBackEnd 1 false

def kqueueBackEnd : BackEnd KqueueBook Kevent where
  modEvent := KqueueBook.modEvent
  maxEvents w := w.maxEvents
  zero := {}
  found fd asked e :=
    e.udata = fd && if e.error then .error ∈ asked else e.filter.any fun event => event ∈ asked
  answers _ e := e.filter.isSome
  reports fd asked e :=
    e.udata = fd && if e.error then .error ∈ asked else e.filter.any fun event => event ∈ asked
  failed := -1
  returns := true
  answers_zero _ := rfl

/-- The watchers as they are constructed.  The poll that the constructor of `epoll_io_watcher` makes
is the first one of a run. -/
def epollFresh (interrupter : Fd) : Watching PortBook PortEvent where
  book := ({} : PortBook).modEvent ⟨interrupter, {.read}, ∅⟩

def evportFresh : Watching PortBook PortEvent where
  book := {}

def kqueueFresh (interrupter : Fd) : Watching KqueueBook Kevent where
  book := ({} : KqueueBook).registerEvent interrupter {.read}

/-! ## The search -/

section

variable {p q : ε → Bool}

/-- A search of the first part of an array. -/
theorem any_findIf_append (es zs : List ε) :
    (findIf p es.length (es ++ zs)).map (fun it => it.head?.any q) =
      some ((es.find? p).elim (zs.head?.any q) q) := by
  have hrange : (0 : Int) ≤ es.length ∧ (es.length : Int) ≤ (es ++ zs).length := by
    rw [List.length_append]
    omega
  unfold findIf
  rw [if_pos hrange, Int.toNat_natCast, List.take_left, List.drop_left, Option.map_some]
  congr 1
  clear hrange
  induction es with
  | nil => rfl
  | cons e es ih =>
    cases hp : p e with
    | true => simp [hp]
    | false =>
      rw [List.dropWhile_cons_of_pos (by simp [hp]), List.find?_cons_of_neg (by simp [hp])]
      exact ih

/-- The search of a range stops in the array or at its end. -/
theorem mem_of_findIf {last : Int} {es it : List ε} (h : findIf p last es = some it) {e : ε}
    (he : e ∈ it) : e ∈ es := by
  unfold findIf at h
  split at h
  · obtain rfl := Option.some.inj h
    rcases List.mem_append.1 he with he | he
    · exact List.mem_of_mem_take (List.dropWhile_subset _ he)
    · exact List.mem_of_mem_drop he
  · cases h

end

namespace BackEnd

variable {k : BackEnd β ε} {interrupter : Fd} {w w' : Watching β ε}

/-- A call of `is_ready` is sound exactly when it is safe. -/
theorem sound_iff_safe (h : k.Filled w) (fd : Fd) (asked : EventSet) :
    k.Sound w fd asked ↔ k.Safe w fd asked := by
  obtain ⟨n, hrevents, hnrevents⟩ := h
  unfold Sound isReady
  cases hfailed : w.failed with
  | true =>
    rw [hfailed, if_pos rfl] at hrevents hnrevents
    rw [hnrevents]
    by_cases hin : 0 ≤ k.failed ∧ k.failed ≤ w.revents.length
    · refine iff_of_true ?_ ⟨fun _ => hin, fun hok => ?_⟩
      · cases hit : findIf (k.found fd asked) k.failed w.revents with
        | none => exact absurd ((if_pos hin).symm.trans hit) nofun
        | some it =>
          -- all entries are cleared
          refine ⟨_, rfl, fun hready => ?_⟩
          obtain ⟨e, he, hanswers⟩ := (Option.any_eq_true _ _).1 hready
          have hmem := mem_of_findIf hit (List.mem_of_head? he)
          rw [hrevents, List.nil_append] at hmem
          rw [List.eq_of_mem_replicate hmem, k.answers_zero] at hanswers
          cases hanswers
      · exact absurd (hok.symm.trans hfailed) Bool.false_ne_true
    · refine iff_of_false ?_ fun hsafe => hin (hsafe.failed hfailed)
      rintro ⟨ready, hready, -⟩
      have hnone : findIf (k.found fd asked) k.failed w.revents = none := if_neg hin
      rw [hnone] at hready
      cases hready
  | false =>
    rw [hfailed, if_neg Bool.false_ne_true] at hrevents hnrevents
    have hready := any_findIf_append (p := k.found fd asked) (q := k.answers asked) w.report
      (List.replicate n k.zero)
    have hzero : (List.replicate n k.zero).head?.any (k.answers asked) = false := by
      cases n with
      | zero => rfl
      | succ n => exact k.answers_zero asked
    rw [hzero] at hready
    rw [hrevents, hnrevents, hready]
    cases hfind : w.report.find? (k.found fd asked) with
    | none =>
      refine iff_of_true ⟨false, rfl, nofun⟩ ⟨fun hbad => ?_, fun _ e he => ?_⟩
      · exact absurd (hfailed.symm.trans hbad) Bool.false_ne_true
      · exact absurd (hfind.symm.trans he) nofun
    | some e =>
      constructor
      · rintro ⟨ready, hsome, hreported⟩
        refine ⟨fun hbad => absurd (hfailed.symm.trans hbad) Bool.false_ne_true, ?_⟩
        rintro - e' he' hanswers
        obtain rfl := Option.some.inj (hfind.symm.trans he')
        exact hreported ((Option.some.inj hsome).symm.trans hanswers)
      · intro hsafe
        exact ⟨_, rfl, hsafe.report hfailed e hfind⟩

theorem Filled.polled (answer : Option (List ε)) : k.Filled (k.polled w answer) := by
  cases answer with
  | none => exact ⟨_, rfl, rfl⟩
  | some entries => exact ⟨_, rfl, rfl⟩

theorem Filled.step {a : PollCall ε} (h : k.Filled w)
    (hstep : k.step interrupter a w = some w') : k.Filled w' := by
  cases a with
  | modEvent c =>
    dsimp only [BackEnd.step] at hstep
    split at hstep
    · cases hstep
    · obtain ⟨book, -, rfl⟩ := Option.map_eq_some_iff.1 hstep
      exact h
  | skip =>
    dsimp only [BackEnd.step] at hstep
    split at hstep
    · obtain rfl := Option.some.inj hstep
      exact h
    · cases hstep
  | poll answer garbage =>
    dsimp only [BackEnd.step] at hstep
    split at hstep
    · obtain rfl := Option.some.inj hstep
      exact Filled.polled (w := w) answer
    · cases hstep
  | isReady fd asked =>
    dsimp only [BackEnd.step] at hstep
    split at hstep
    · cases hstep
    · obtain ⟨ready, -, rfl⟩ := Option.map_eq_some_iff.1 hstep
      exact h
  | frame =>
    dsimp only [BackEnd.step] at hstep
    split at hstep
    · cases hstep
    · obtain rfl := Option.some.inj hstep
      exact h

/-- The array of the call in a step is filled like that of the watcher. -/
theorem Filled.call {a : PollCall ε} {c : Watching β ε × Fd × EventSet} (h : k.Filled w)
    (hcall : k.call interrupter w a = some c) : k.Filled c.1 := by
  cases a with
  | modEvent _ | skip | frame => cases hcall
  | poll answer garbage =>
    dsimp only [BackEnd.call] at hcall
    split at hcall
    · obtain rfl := Option.some.inj hcall
      exact .polled answer
    · cases hcall
  | isReady fd asked =>
    dsimp only [BackEnd.call] at hcall
    split at hcall
    · cases hcall
    · obtain rfl := Option.some.inj hcall
      exact h

theorem meets_sound_iff (hw : k.Filled w) (as : List (PollCall ε)) :
    Machine.Meets (k.step interrupter)
        (fun w a => ∀ c ∈ k.call interrupter w a, k.Sound c.1 c.2.1 c.2.2) as w ↔
      Machine.Meets (k.step interrupter)
        (fun w a => ∀ c ∈ k.call interrupter w a, k.Safe c.1 c.2.1 c.2.2) as w := by
  apply Machine.meets_iff_meets (I := k.Filled)
  · intro w a h
    refine forall_congr' fun c => forall_congr' fun hcall => ?_
    exact sound_iff_safe (h.call hcall) c.2.1 c.2.2
  · exact fun w a w' h _ hstep => h.step hstep
  · exact hw

end BackEnd

/-- What the search of kqueue stops at is what it was asked for. -/
theorem kqueue_safe_iff {w : Watching KqueueBook Kevent} (fd : Fd) (asked : EventSet) :
    kqueueBackEnd.Safe w fd asked ↔ w.failed = false := by
  constructor
  · intro hsafe
    by_contra hfailed
    exact absurd (hsafe.failed ((Bool.not_eq_false _).mp hfailed)).1 (by decide)
  · intro hok
    refine ⟨fun hfailed => absurd (hok.symm.trans hfailed) Bool.false_ne_true, ?_⟩
    rintro - e he -
    exact ⟨e, List.mem_of_find?_eq_some he, List.find?_some (p := kqueueBackEnd.found fd asked) he⟩

end Yasio
