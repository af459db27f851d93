import Yasio.Watcher
import Yasio.Lib.Machine
import Mathlib.Data.List.AList
import Mathlib.Data.Fintype.Powerset
import Mathlib.Data.Fintype.Prod
import Mathlib.Algebra.BigOperators.Group.Finset.Basic

/-!
# The books of the watcher back ends

`mod_event` of the select, poll, epoll, event port and kqueue watchers, with what they keep and what
they have the kernel watch.  Only one of them is built on a platform; here all are given the same
calls.  Kqueue is one that has `EVFILT_EXCEPT`.
-/

namespace Yasio

inductive SocketEvent
  | read
  | write
  | error
  deriving DecidableEq, Repr

instance : Fintype SocketEvent where
  elems := {.read, .write, .error}
  complete e := by cases e <;> decide

/-- A mask of `socket_event`s. -/
abbrev EventSet := Finset SocketEvent

def SocketEvent.code : SocketEvent → ℕ
  | read => 1
  | write => 2
  | error => 4

/-- The mask as the source's `int`. -/
def EventSet.mask (m : EventSet) : ℕ := ∑ e ∈ m, e.code

/-- `FD_SETSIZE` -/
def FD_SETSIZE : ℕ := 1024

/-- The arguments of `mod_event`. -/
structure ModEvent where
  fd : Fd
  add : EventSet
  remove : EventSet

/-- What the set of a descriptor is to be after the call. -/
def ModEvent.apply (c : ModEvent) (events : EventSet) : EventSet := (events ∪ c.add) \ c.remove

/-! ## Select -/

/-- `events_` and `max_descriptor_`; `undefined` once a descriptor was outside of an `fd_set`. -/
structure SelectBook where
  events : SocketEvent → Finset Fd := fun _ => ∅
  maxDescriptor : ℕ := 0
  undefined : Bool := false

namespace SelectBook

/-- `FD_SET` for these events. -/
def fdSet (w : SelectBook) (fd : Fd) (events : EventSet) : SelectBook :=
  { w with
    events := fun e => if e ∈ events then insert fd (w.events e) else w.events e
    maxDescriptor := max w.maxDescriptor (fd + 1)
    undefined := w.undefined || FD_SETSIZE ≤ fd }

/-- `FD_CLR` for these events. -/
def fdClr (w : SelectBook) (fd : Fd) (events : EventSet) : SelectBook :=
  { w with
    events := fun e => if e ∈ events then (w.events e).erase fd else w.events e
    undefined := w.undefined || FD_SETSIZE ≤ fd }

def modEvent (w : SelectBook) (c : ModEvent) : SelectBook :=
  let w := if c.add = ∅ then w else w.fdSet c.fd c.add
  if c.remove = ∅ then w else w.fdClr c.fd c.remove

def recorded (w : SelectBook) (fd : Fd) : EventSet := Finset.univ.filter fun e => fd ∈ w.events e

/-- `select` is given the first descriptors of two of the three sets. -/
def watched (w : SelectBook) (fd : Fd) : EventSet :=
  if fd < w.maxDescriptor then w.recorded fd \ {.error} else ∅

end SelectBook

/-! ## The back ends that keep one entry for a descriptor -/

/-- `events_`, as a map or as an array. -/
abbrev EventBook := AList fun _ : Fd => EventSet

namespace EventBook

def recorded (book : EventBook) (fd : Fd) : EventSet := (book.lookup fd).getD ∅

/-- No descriptor has an empty entry. -/
def Clean (book : EventBook) : Prop := ∀ fd, book.lookup fd ≠ some ∅

/-- `poll_io_watcher::pollfd_mod` -/
def pollfdMod (fdset : EventBook) (c : ModEvent) : EventBook :=
  match fdset.lookup c.fd with
  | some events =>
    if c.apply events = ∅ then fdset.erase c.fd else fdset.insert c.fd (c.apply events)
  | none => if c.add \ c.remove = ∅ then fdset else fdset.insert c.fd (c.add \ c.remove)

end EventBook

/-- An `epoll_io_watcher` or an `evport_io_watcher`, with what the kernel watches for it. -/
structure PortBook where
  events : EventBook := ∅
  kernel : Fd → EventSet := fun _ => ∅
  maxEvents : ℕ := 0

namespace PortBook

/-- `mod_event`, where `epoll_ctl` and `port_associate` succeed. -/
def modEvent (w : PortBook) (c : ModEvent) : PortBook :=
  let underlying := c.apply ((w.events.lookup c.fd).getD ∅)
  let w :=
    if underlying = ∅ then
      if (w.events.lookup c.fd).isSome then
        { w with
          kernel := Function.update w.kernel c.fd ∅
          events := w.events.erase c.fd }
      else w
    else
      { w with
        kernel := Function.update w.kernel c.fd underlying
        events := w.events.insert c.fd underlying }
  { w with maxEvents := min w.events.entries.length 128 }

end PortBook

/-! ## Kqueue -/

/-- A `kqueue_io_watcher` with the filters that are registered in the kernel. -/
structure KqueueBook where
  events : EventBook := ∅
  kernel : Finset (Fd × SocketEvent) := ∅
  maxEvents : Int := 0

namespace KqueueBook

/-- `prev_events > 0 ? ((prev_events >> 1) + 1) : 0` -/
def filterCount (events : EventSet) : ℕ := if 0 < events.mask then events.mask / 2 + 1 else 0

/-- `events_[fd]` -/
def touch (w : KqueueBook) (fd : Fd) : KqueueBook :=
  if (w.events.lookup fd).isSome then w else { w with events := w.events.insert fd ∅ }

/-- `register_event`.  `EV_ADD` of a filter that is there changes nothing. -/
def registerEvent (w : KqueueBook) (fd : Fd) (events : EventSet) : KqueueBook :=
  let prev := (w.events.lookup fd).getD ∅
  let w := w.touch fd
  if events = ∅ then w
  else
    { events := w.events.insert fd events
      kernel := w.kernel ∪ ({fd} : Finset Fd) ×ˢ events
      maxEvents := w.maxEvents + ((events.card : Int) - filterCount prev) }

/-- `deregister_event`.  `EV_DELETE` of a filter that is not registered fails. -/
def deregisterEvent (w : KqueueBook) (fd : Fd) (events : EventSet) : Option KqueueBook :=
  let curr := (w.events.lookup fd).getD ∅
  let w := w.touch fd
  if events = ∅ then some w
  else if ({fd} : Finset Fd) ×ˢ events ⊆ w.kernel then
    some
      { events :=
          if curr \ events = ∅ then w.events.erase fd else w.events.insert fd (curr \ events)
        kernel := w.kernel \ ({fd} : Finset Fd) ×ˢ events
        maxEvents := w.maxEvents + ((events.card : Int) - filterCount curr) }
  else none

def modEvent (w : KqueueBook) (c : ModEvent) : Option KqueueBook :=
  let w := if c.add = ∅ then w else w.registerEvent c.fd c.add
  if c.remove = ∅ then some w else w.deregisterEvent c.fd c.remove

def watched (w : KqueueBook) (fd : Fd) : EventSet :=
  Finset.univ.filter fun e => (fd, e) ∈ w.kernel

end KqueueBook

/-! ## All of them -/

/-- The back ends after the same calls, and the sets that they are to have. -/
structure Backends where
  select : SelectBook
  poll : EventBook
  epoll : PortBook
  evport : PortBook
  kqueue : KqueueBook
  interest : Fd → EventSet

namespace Backends

/-- The constructors.  All but that of the event port watch the descriptor of the interrupter. -/
def fresh (interrupter : Fd) : Backends where
  select := ({} : SelectBook).modEvent ⟨interrupter, {.read}, ∅⟩
  poll := EventBook.pollfdMod ∅ ⟨interrupter, {.read}, ∅⟩
  epoll := ({} : PortBook).modEvent ⟨interrupter, {.read}, ∅⟩
  evport := {}
  kqueue := ({} : KqueueBook).registerEvent interrupter {.read}
  interest := Function.update (fun _ => ∅) interrupter {.read}

/-- A call for the descriptor of a socket whose system calls succeed. -/
def step (interrupter : Fd) (c : ModEvent) (s : Backends) : Option Backends :=
  if c.fd = interrupter then none
  else
    (s.kqueue.modEvent c).map fun kqueue =>
      { select := s.select.modEvent c
        poll := s.poll.pollfdMod c
        epoll := s.epoll.modEvent c
        evport := s.evport.modEvent c
        kqueue
        interest := Function.update s.interest c.fd (c.apply (s.interest c.fd)) }

/-- What the event port is to have: it is woken up without a descriptor. -/
def portInterest (interrupter : Fd) (s : Backends) : Fd → EventSet :=
  Function.update s.interest interrupter ∅

/-- The back ends record the same sets and have the kernel watch them, `max_events_` of kqueue
counts the registered filters, and there is room for an event. -/
structure Agree (interrupter : Fd) (s : Backends) : Prop where
  defined : s.select.undefined = false
  select : s.select.recorded = s.interest ∧ s.select.watched = s.interest
  poll : s.poll.recorded = s.interest ∧ s.poll.Clean
  epoll : s.epoll.events.recorded = s.interest ∧ s.epoll.events.Clean ∧ s.epoll.kernel = s.interest
  evport : s.evport.events.recorded = s.portInterest interrupter ∧ s.evport.events.Clean ∧
    s.evport.kernel = s.portInterest interrupter
  kqueue : s.kqueue.events.recorded = s.interest ∧ s.kqueue.events.Clean ∧
    s.kqueue.watched = s.interest
  count : s.kqueue.maxEvents = s.kqueue.kernel.card
  room : 0 < s.epoll.maxEvents ∧ 0 < s.evport.maxEvents ∧ 0 < s.kqueue.maxEvents

end Backends

/-! ## The books of one back end -/

namespace SelectBook

theorem mem_recorded {w : SelectBook} {fd : Fd} {e : SocketEvent} :
    e ∈ w.recorded fd ↔ fd ∈ w.events e := by
  simp [recorded]

theorem mem_fdSet {w : SelectBook} {fd fd' : Fd} {events : EventSet} {e : SocketEvent} :
    fd' ∈ (w.fdSet fd events).events e ↔ fd' ∈ w.events e ∨ fd' = fd ∧ e ∈ events := by
  unfold fdSet
  dsimp only
  split_ifs with he
  · simp [he, or_comm]
  · simp [he]

theorem mem_fdClr {w : SelectBook} {fd fd' : Fd} {events : EventSet} {e : SocketEvent} :
    fd' ∈ (w.fdClr fd events).events e ↔ fd' ∈ w.events e ∧ ¬ (fd' = fd ∧ e ∈ events) := by
  unfold fdClr
  dsimp only
  split_ifs with he
  · simp [he, and_comm]
  · simp [he]

theorem mem_modEvent {w : SelectBook} {c : ModEvent} {fd : Fd} {e : SocketEvent} :
    fd ∈ (w.modEvent c).events e ↔
      (fd ∈ w.events e ∨ fd = c.fd ∧ e ∈ c.add) ∧ ¬ (fd = c.fd ∧ e ∈ c.remove) := by
  simp only [modEvent]
  split_ifs with ha hr hr <;> simp [mem_fdSet, mem_fdClr, *]

theorem recorded_modEvent (w : SelectBook) (c : ModEvent) :
    (w.modEvent c).recorded = Function.update w.recorded c.fd (c.apply (w.recorded c.fd)) := by
  funext fd
  ext e
  rw [mem_recorded, mem_modEvent]
  by_cases hfd : fd = c.fd
  · subst hfd
    simp [ModEvent.apply, mem_recorded]
  · simp [mem_recorded, hfd]

theorem undefined_modEvent (w : SelectBook) (c : ModEvent) :
    (w.modEvent c).undefined = false ↔
      w.undefined = false ∧ (c.add ≠ ∅ ∨ c.remove ≠ ∅ → c.fd < FD_SETSIZE) := by
  simp only [modEvent]
  split_ifs with ha hr hr <;> simp [fdSet, fdClr, *]

/-- `max_descriptor_` is above every descriptor that is recorded. -/
def Bounded (w : SelectBook) : Prop := ∀ fd, w.recorded fd ≠ ∅ → fd < w.maxDescriptor

theorem Bounded.modEvent {w : SelectBook} (h : w.Bounded) (c : ModEvent) :
    (w.modEvent c).Bounded := by
  have hmax : (w.modEvent c).maxDescriptor =
      if c.add = ∅ then w.maxDescriptor else max w.maxDescriptor (c.fd + 1) := by
    simp only [SelectBook.modEvent]
    split_ifs <;> rfl
  intro fd hne
  rw [recorded_modEvent] at hne
  rw [hmax]
  by_cases hfd : fd = c.fd
  · subst hfd
    rw [Function.update_self] at hne
    by_cases ha : c.add = ∅
    · rw [if_pos ha]
      refine h c.fd fun hempty => hne ?_
      simp [ModEvent.apply, hempty, ha]
    · rw [if_neg ha]
      exact lt_max_of_lt_right (Nat.lt_succ_self _)
  · rw [Function.update_of_ne hfd] at hne
    have hlt := h fd hne
    by_cases ha : c.add = ∅
    · rwa [if_pos ha]
    · rw [if_neg ha]
      exact lt_max_of_lt_left hlt

theorem Bounded.watched {w : SelectBook} (h : w.Bounded) (fd : Fd) :
    w.watched fd = w.recorded fd \ {.error} := by
  unfold SelectBook.watched
  split_ifs with hlt
  · rfl
  · have hempty : w.recorded fd = ∅ := not_not.1 fun hne => hlt (h fd hne)
    rw [hempty]
    rfl

end SelectBook

namespace EventBook

variable {book : EventBook}

theorem recorded_insert (fd : Fd) (events : EventSet) :
    recorded (book.insert fd events) = Function.update book.recorded fd events := by
  funext fd'
  unfold recorded
  by_cases h : fd' = fd
  · subst h
    simp
  · rw [Function.update_of_ne h, AList.lookup_insert_ne h]

theorem recorded_erase (fd : Fd) :
    recorded (book.erase fd) = Function.update book.recorded fd ∅ := by
  funext fd'
  unfold recorded
  by_cases h : fd' = fd
  · subst h
    simp
  · rw [Function.update_of_ne h, AList.lookup_erase_ne h]

theorem Clean.insert (h : book.Clean) {fd : Fd} {events : EventSet} (hne : events ≠ ∅) :
    Clean (book.insert fd events) := by
  intro fd'
  by_cases heq : fd' = fd
  · subst heq
    simpa using hne
  · rw [AList.lookup_insert_ne heq]
    exact h fd'

theorem Clean.erase (h : book.Clean) (fd : Fd) : Clean (book.erase fd) := by
  intro fd'
  by_cases heq : fd' = fd
  · subst heq
    simp
  · rw [AList.lookup_erase_ne heq]
    exact h fd'

/-- A descriptor without an entry has no events. -/
theorem recorded_of_none {fd : Fd} (h : book.lookup fd = none) : book.recorded fd = ∅ := by
  unfold recorded
  rw [h]
  rfl

theorem recorded_of_some {fd : Fd} {events : EventSet} (h : book.lookup fd = some events) :
    book.recorded fd = events := by
  unfold recorded
  rw [h]
  rfl

theorem recorded_pollfdMod (book : EventBook) (c : ModEvent) :
    (book.pollfdMod c).recorded =
      Function.update book.recorded c.fd (c.apply (book.recorded c.fd)) := by
  unfold pollfdMod
  cases hentry : book.lookup c.fd with
  | none =>
    have hnone := recorded_of_none hentry
    have happly : c.apply (book.recorded c.fd) = c.add \ c.remove := by
      rw [hnone, ModEvent.apply, Finset.empty_union]
    rw [happly]
    dsimp only
    split_ifs with hempty
    · rw [hempty, ← hnone, Function.update_eq_self]
    · exact recorded_insert _ _
  | some events =>
    rw [recorded_of_some hentry]
    dsimp only
    split_ifs with hempty
    · rw [recorded_erase, hempty]
    · exact recorded_insert _ _

theorem Clean.pollfdMod (h : book.Clean) (c : ModEvent) : (book.pollfdMod c).Clean := by
  unfold EventBook.pollfdMod
  split
  · split_ifs with hempty
    · exact h.erase c.fd
    · exact h.insert hempty
  · split_ifs with hempty
    · exact h
    · exact h.insert hempty

/-- A clean book has an entry exactly when some descriptor has events. -/
theorem Clean.length_pos_iff (h : book.Clean) :
    0 < book.entries.length ↔ ∃ fd, book.recorded fd ≠ ∅ := by
  constructor
  · intro hpos
    obtain ⟨e, he⟩ := List.exists_mem_of_length_pos hpos
    have hlookup : book.lookup e.1 = some e.2 := AList.mem_lookup_iff.2 he
    refine ⟨e.1, ?_⟩
    rw [recorded_of_some hlookup]
    intro hempty
    exact h e.1 (by rw [hlookup, hempty])
  · rintro ⟨fd, hne⟩
    cases hentry : book.lookup fd with
    | none => exact absurd (recorded_of_none hentry) hne
    | some events => exact List.length_pos_of_mem (AList.mem_lookup_iff.1 hentry)

end EventBook

namespace PortBook

/-- The map and the kernel have the same sets, and `max_events_` goes by the size of the map. -/
structure Mirrors (w : PortBook) : Prop where
  clean : w.events.Clean
  kernel : w.kernel = w.events.recorded
  maxEvents : w.maxEvents = min w.events.entries.length 128

theorem recorded_modEvent (w : PortBook) (c : ModEvent) :
    (w.modEvent c).events.recorded =
      Function.update w.events.recorded c.fd (c.apply (w.events.recorded c.fd)) := by
  change (w.modEvent c).events.recorded =
    Function.update w.events.recorded c.fd (c.apply ((w.events.lookup c.fd).getD ∅))
  unfold modEvent
  dsimp only
  split_ifs with hempty hsome
  · rw [EventBook.recorded_erase, hempty]
  · have hnone : w.events.lookup c.fd = none := by simpa using hsome
    rw [hempty, ← EventBook.recorded_of_none hnone, Function.update_eq_self]
  · exact EventBook.recorded_insert _ _

theorem Mirrors.modEvent {w : PortBook} (h : w.Mirrors) (c : ModEvent) :
    (w.modEvent c).Mirrors := by
  unfold PortBook.modEvent
  dsimp only
  split_ifs with hempty hsome
  · exact ⟨h.clean.erase c.fd, by rw [EventBook.recorded_erase, h.kernel], rfl⟩
  · exact ⟨h.clean, h.kernel, rfl⟩
  · exact ⟨h.clean.insert hempty, by rw [EventBook.recorded_insert, h.kernel], rfl⟩

theorem mirrors_empty : ({} : PortBook).Mirrors :=
  ⟨fun _ => by simp, funext fun _ => by simp [EventBook.recorded], rfl⟩

theorem Mirrors.room_iff {w : PortBook} (h : w.Mirrors) :
    0 < w.maxEvents ↔ ∃ fd, w.events.recorded fd ≠ ∅ := by
  rw [← h.clean.length_pos_iff, h.maxEvents]
  omega

end PortBook

namespace KqueueBook

theorem mem_watched {w : KqueueBook} {fd : Fd} {e : SocketEvent} :
    e ∈ w.watched fd ↔ (fd, e) ∈ w.kernel := by
  simp [watched]

/-- The filters of one descriptor and those of the others. -/
theorem card_kernel (w : KqueueBook) (fd : Fd) :
    w.kernel.card = (w.watched fd).card + (w.kernel.filter fun p => p.1 ≠ fd).card := by
  have hself : (w.kernel.filter fun p => p.1 = fd) =
      (w.watched fd).map ⟨Prod.mk fd, Prod.mk_right_injective fd⟩ := by
    ext ⟨fd', e⟩
    simp only [Finset.mem_filter, Finset.mem_map, mem_watched, Function.Embedding.coeFn_mk,
      Prod.mk.injEq]
    constructor
    · rintro ⟨hmem, rfl⟩
      exact ⟨e, hmem, rfl, rfl⟩
    · rintro ⟨e', hmem, rfl, rfl⟩
      exact ⟨hmem, rfl⟩
  rw [← Finset.card_filter_add_card_filter_not (fun p : Fd × SocketEvent => p.1 = fd), hself,
    Finset.card_map]

/-- A change of one descriptor's set, with the filters that go to the kernel, and its effect on
`max_events_`. -/
structure Changed (w w' : KqueueBook) (fd : Fd) (events : EventSet)
    (kernel : Finset (Fd × SocketEvent)) (diff : Int) : Prop where
  recorded : w'.events.recorded = Function.update w.events.recorded fd events
  clean : w'.events.Clean
  kernel : w'.kernel = kernel
  maxEvents : w'.maxEvents = w.maxEvents + diff

theorem touch_frame (w : KqueueBook) (fd : Fd) :
    (w.touch fd).kernel = w.kernel ∧ (w.touch fd).maxEvents = w.maxEvents ∧
      ∀ fd' ≠ fd, (w.touch fd).events.lookup fd' = w.events.lookup fd' := by
  unfold touch
  split_ifs
  · exact ⟨rfl, rfl, fun _ _ => rfl⟩
  · exact ⟨rfl, rfl, fun fd' h => AList.lookup_insert_ne h⟩

/-- The entry that `events_[fd]` makes is overwritten or erased. -/
theorem touch_put {w : KqueueBook} (h : w.events.Clean) (fd : Fd) (events : EventSet) :
    let book := if events = ∅ then (w.touch fd).events.erase fd
      else (w.touch fd).events.insert fd events
    EventBook.recorded book = Function.update w.events.recorded fd events ∧
      EventBook.Clean book := by
  obtain ⟨-, -, hother⟩ := w.touch_frame fd
  have hlookup : ∀ fd' ≠ fd, AList.lookup fd' (if events = ∅ then (w.touch fd).events.erase fd
      else (w.touch fd).events.insert fd events) = w.events.lookup fd' := by
    intro fd' hne
    split_ifs
    · rw [AList.lookup_erase_ne hne, hother fd' hne]
    · rw [AList.lookup_insert_ne hne, hother fd' hne]
  constructor
  · funext fd'
    by_cases heq : fd' = fd
    · subst heq
      rw [Function.update_self]
      unfold EventBook.recorded
      split_ifs with hempty
      · simp [hempty]
      · simp
    · rw [Function.update_of_ne heq]
      unfold EventBook.recorded
      rw [hlookup fd' heq]
  · intro fd'
    by_cases heq : fd' = fd
    · subst heq
      split_ifs with hempty
      · simp
      · simpa using hempty
    · rw [hlookup fd' heq]
      exact h fd'

theorem changed_registerEvent {w : KqueueBook} (h : w.events.Clean) (fd : Fd) {events : EventSet}
    (hne : events ≠ ∅) :
    Changed w (w.registerEvent fd events) fd events (w.kernel ∪ ({fd} : Finset Fd) ×ˢ events)
      ((events.card : Int) - filterCount (w.events.recorded fd)) := by
  obtain ⟨hkernel, hmax, -⟩ := w.touch_frame fd
  have hput := touch_put h fd events
  rw [if_neg hne] at hput
  unfold registerEvent
  rw [if_neg hne]
  exact ⟨hput.1, hput.2, by rw [hkernel], by rw [hmax]; rfl⟩

theorem changed_deregisterEvent {w w' : KqueueBook} (h : w.events.Clean) {fd : Fd}
    {events : EventSet} (hne : events ≠ ∅) (hs : w.deregisterEvent fd events = some w') :
    ({fd} : Finset Fd) ×ˢ events ⊆ w.kernel ∧
      Changed w w' fd (w.events.recorded fd \ events)
        (w.kernel \ ({fd} : Finset Fd) ×ˢ events)
        ((events.card : Int) - filterCount (w.events.recorded fd)) := by
  obtain ⟨hkernel, hmax, -⟩ := w.touch_frame fd
  have hput := touch_put h fd (w.events.recorded fd \ events)
  unfold deregisterEvent at hs
  rw [if_neg hne] at hs
  by_cases hsub : ({fd} : Finset Fd) ×ˢ events ⊆ (w.touch fd).kernel
  · rw [if_pos hsub] at hs
    obtain rfl := Option.some.inj hs
    rw [hkernel] at hsub
    exact ⟨hsub, hput.1, hput.2, by rw [hkernel], by rw [hmax]; rfl⟩
  · rw [if_neg hsub] at hs
    exact absurd hs nofun

/-- The set that is recorded before the removal. -/
def kept (c : ModEvent) (events : EventSet) : EventSet := if c.add = ∅ then events else c.add

/-- What a call adds to `max_events_` where this set was recorded. -/
def diff (c : ModEvent) (events : EventSet) : Int :=
  (if c.add = ∅ then 0 else (c.add.card : Int) - filterCount events) +
    if c.remove = ∅ then 0 else (c.remove.card : Int) - filterCount (kept c events)

theorem changed_modEvent {w w' : KqueueBook} (h : w.events.Clean) {c : ModEvent}
    (hs : w.modEvent c = some w') :
    Changed w w' c.fd (kept c (w.events.recorded c.fd) \ c.remove)
      ((w.kernel ∪ ({c.fd} : Finset Fd) ×ˢ c.add) \ ({c.fd} : Finset Fd) ×ˢ c.remove)
      (diff c (w.events.recorded c.fd)) := by
  obtain ⟨v, hv, hchanged⟩ : ∃ v, v = (if c.add = ∅ then w else w.registerEvent c.fd c.add) ∧
      Changed w v c.fd (kept c (w.events.recorded c.fd))
        (w.kernel ∪ ({c.fd} : Finset Fd) ×ˢ c.add)
        (if c.add = ∅ then 0
          else (c.add.card : Int) - filterCount (w.events.recorded c.fd)) := by
    refine ⟨_, rfl, ?_⟩
    unfold kept
    by_cases ha : c.add = ∅
    · simp only [if_pos ha]
      refine ⟨(Function.update_eq_self _ _).symm, h, ?_, (Int.add_zero _).symm⟩
      rw [ha, Finset.product_empty, Finset.union_empty]
    · simp only [if_neg ha]
      exact changed_registerEvent h c.fd ha
  unfold modEvent at hs
  rw [← hv] at hs
  by_cases hr : c.remove = ∅
  · rw [if_pos hr] at hs
    obtain rfl := Option.some.inj hs
    unfold diff
    rw [if_pos hr, hr, Finset.product_empty, Finset.sdiff_empty, Finset.sdiff_empty, Int.add_zero]
    exact hchanged
  · rw [if_neg hr] at hs
    obtain ⟨-, hlast⟩ := changed_deregisterEvent hchanged.clean hr hs
    have hself : v.events.recorded c.fd = kept c (w.events.recorded c.fd) := by
      rw [hchanged.recorded, Function.update_self]
    rw [hself] at hlast
    refine ⟨?_, hlast.clean, ?_, ?_⟩
    · rw [hlast.recorded, hchanged.recorded, Function.update_idem]
    · rw [hlast.kernel, hchanged.kernel]
    · rw [hlast.maxEvents, hchanged.maxEvents, diff, if_neg hr, Int.add_assoc]

/-- The kernel keeps the union and the difference of the sets. -/
theorem watched_modEvent {w w' : KqueueBook} (h : w.events.Clean) {c : ModEvent}
    (hs : w.modEvent c = some w') :
    w'.watched = Function.update w.watched c.fd (c.apply (w.watched c.fd)) := by
  funext fd
  ext e
  rw [mem_watched, (changed_modEvent h hs).kernel]
  by_cases hfd : fd = c.fd
  · subst hfd
    simp [ModEvent.apply, mem_watched]
  · simp [hfd, Ne.symm hfd, mem_watched]

theorem card_modEvent {w w' : KqueueBook} (h : w.events.Clean) {c : ModEvent}
    (hs : w.modEvent c = some w') :
    (w'.kernel.card : Int) =
      w.kernel.card + ((c.apply (w.watched c.fd)).card - (w.watched c.fd).card) := by
  have hother : (w'.kernel.filter fun p => p.1 ≠ c.fd) = w.kernel.filter fun p => p.1 ≠ c.fd := by
    rw [(changed_modEvent h hs).kernel]
    ext ⟨fd, e⟩
    simp only [Finset.mem_filter, Finset.mem_sdiff, Finset.mem_union, Finset.mem_product,
      Finset.mem_singleton]
    constructor
    · rintro ⟨⟨hmem | hmem, -⟩, hne⟩
      · exact ⟨hmem, hne⟩
      · exact absurd hmem.1 hne
    · rintro ⟨hmem, hne⟩
      exact ⟨⟨Or.inl hmem, fun hr => hne hr.1⟩, hne⟩
  rw [card_kernel w' c.fd, card_kernel w c.fd, hother, watched_modEvent h hs, Function.update_self]
  push_cast
  omega

/-- A filter that is deleted is registered, or the call registers it. -/
theorem remove_subset {w w' : KqueueBook} (h : w.events.Clean) {c : ModEvent}
    (hs : w.modEvent c = some w') : c.remove ⊆ w.watched c.fd ∪ c.add := by
  obtain ⟨v, hv, hkernel, hclean⟩ : ∃ v,
      v = (if c.add = ∅ then w else w.registerEvent c.fd c.add) ∧
        v.kernel = w.kernel ∪ ({c.fd} : Finset Fd) ×ˢ c.add ∧ v.events.Clean := by
    refine ⟨_, rfl, ?_⟩
    by_cases ha : c.add = ∅
    · rw [if_pos ha, ha, Finset.product_empty, Finset.union_empty]
      exact ⟨rfl, h⟩
    · rw [if_neg ha]
      have hchanged := changed_registerEvent h c.fd ha
      exact ⟨hchanged.kernel, hchanged.clean⟩
  unfold modEvent at hs
  rw [← hv] at hs
  intro e he
  rw [if_neg (Finset.ne_empty_of_mem he)] at hs
  obtain ⟨hsub, -⟩ := changed_deregisterEvent hclean (Finset.ne_empty_of_mem he) hs
  have hmem : (c.fd, e) ∈ v.kernel := hsub (by simp [he])
  rw [hkernel, Finset.mem_union] at hmem
  rw [Finset.mem_union, mem_watched]
  exact hmem.imp_right fun hadd => (Finset.mem_product.1 hadd).2

/-- The recorded set and the masks for which `max_events_` follows the number of filters.  Nothing
is removed, and nothing is added to `{write}`.  Nothing is added, and one event of a set with
`write` is removed.  Or the set is not `{write}` and, beside the error event, one of read and write
is removed that are both added, or write where it alone is added to the empty set or read to both;
or the error event is added to `{read}` and both are removed. -/
def Counted (events add remove : EventSet) : Prop :=
  if remove = ∅ then add = ∅ ∨ events ≠ {.write}
  else if add = ∅ then .write ∈ events ∧ remove.card = 1
  else events ≠ {.write} ∧
    (add.erase .error = {.read, .write} ∧ (remove.erase .error).card = 1 ∨
      remove.erase .error = {.write} ∧
        (events = ∅ ∧ add.erase .error = {.write} ∨
          events = {.read, .write} ∧ add.erase .error = {.read}) ∨
      events = {.read} ∧ add = {.error} ∧ remove = {.read, .error})

instance (events add remove : EventSet) : Decidable (Counted events add remove) := by
  unfold Counted
  infer_instance

theorem counted_iff : ∀ events add remove : EventSet, .error ∉ events → remove ⊆ events ∪ add →
    .error ∉ (events ∪ add) \ remove → (add ≠ ∅ → events \ remove ⊆ add) →
      (Counted events add remove ↔ diff ⟨0, add, remove⟩ events =
        (((events ∪ add) \ remove).card : Int) - events.card) := by
  decide +kernel

end KqueueBook

namespace Backends

/-- The condition on a call. -/
structure Fits (interrupter : Fd) (s : Backends) (c : ModEvent) : Prop where
  /-- the descriptors have a bit in an `fd_set` -/
  size : interrupter < FD_SETSIZE ∧ (c.add ≠ ∅ ∨ c.remove ≠ ∅ → c.fd < FD_SETSIZE)
  /-- `select` is not given the third set -/
  error : .error ∉ c.apply (s.interest c.fd)
  /-- `register_event` stores what is added in the place of what was recorded -/
  kept : c.add ≠ ∅ → s.interest c.fd \ c.remove ⊆ c.add
  /-- the counts that `register_event` and `deregister_event` take from the masks are right -/
  counted : KqueueBook.Counted (s.interest c.fd) c.add c.remove
  /-- an event port without descriptors has no room -/
  some : ∃ fd ≠ interrupter,
    Function.update s.interest c.fd (c.apply (s.interest c.fd)) fd ≠ ∅

/-- What every call keeps: the books that are right on all runs, and what the kernel watches. -/
structure Always (interrupter : Fd) (s : Backends) : Prop where
  select : s.select.recorded = s.interest
  bounded : s.select.Bounded
  poll : s.poll.recorded = s.interest
  clean : s.poll.Clean
  epoll : s.epoll.events.recorded = s.interest
  epollMirrors : s.epoll.Mirrors
  evport : s.evport.events.recorded = s.portInterest interrupter
  evportMirrors : s.evport.Mirrors
  watched : s.kqueue.watched = s.interest
  kqueueClean : s.kqueue.events.Clean
  woken : s.interest interrupter = {.read}

/-- The invariant. -/
structure Kept (interrupter : Fd) (s : Backends) : Prop extends Always interrupter s where
  defined : s.select.undefined = false ↔ interrupter < FD_SETSIZE
  error : ∀ fd, .error ∉ s.interest fd
  kqueue : s.kqueue.events.recorded = s.interest
  count : s.kqueue.maxEvents = s.kqueue.kernel.card

variable {interrupter : Fd} {s t : Backends} {c : ModEvent}

theorem recorded_empty : EventBook.recorded ∅ = fun _ => ∅ :=
  funext fun _ => by simp [EventBook.recorded]

theorem always_fresh (interrupter : Fd) : Always interrupter (fresh interrupter) := by
  have hclean : EventBook.Clean ∅ := fun _ => by simp
  have hselect : ({} : SelectBook).recorded = fun _ => ∅ :=
    funext fun _ => by simp [SelectBook.recorded]
  have hk := KqueueBook.changed_registerEvent (w := {}) hclean interrupter
    (Finset.singleton_ne_empty SocketEvent.read)
  unfold fresh
  generalize hc : (⟨interrupter, {.read}, ∅⟩ : ModEvent) = c
  have hfd : c.fd = interrupter := by rw [← hc]
  have happly : c.apply ∅ = {.read} := by simp [← hc, ModEvent.apply]
  constructor <;> dsimp only
  · rw [SelectBook.recorded_modEvent, hselect, happly, hfd]
  · apply SelectBook.Bounded.modEvent
    intro fd hne
    exact absurd (congrFun hselect fd) hne
  · rw [EventBook.recorded_pollfdMod, recorded_empty, happly, hfd]
  · exact hclean.pollfdMod c
  · rw [PortBook.recorded_modEvent]
    dsimp only
    rw [recorded_empty, happly, hfd]
  · exact PortBook.mirrors_empty.modEvent c
  · unfold portInterest
    rw [recorded_empty, Function.update_idem]
    exact (Function.update_eq_self interrupter _).symm
  · exact PortBook.mirrors_empty
  · funext fd
    ext e
    rw [KqueueBook.mem_watched, hk.kernel]
    by_cases heq : fd = interrupter
    · subst heq
      simp
    · simp [heq]
  · exact hk.clean
  · exact Function.update_self _ _ _

theorem kept_fresh (interrupter : Fd) : Kept interrupter (fresh interrupter) := by
  have hclean : EventBook.Clean ∅ := fun _ => by simp
  have hk := KqueueBook.changed_registerEvent (w := {}) hclean interrupter
    (Finset.singleton_ne_empty SocketEvent.read)
  refine ⟨always_fresh interrupter, ?_, fun fd => ?_, ?_, ?_⟩ <;> unfold fresh <;> dsimp only
  · rw [SelectBook.undefined_modEvent]
    simp
  · by_cases hfd : fd = interrupter
    · subst hfd
      simp
    · simp [hfd]
  · rw [hk.recorded]
    dsimp only
    rw [recorded_empty]
  · rw [hk.maxEvents, hk.kernel]
    dsimp only
    rw [recorded_empty, Finset.empty_union, Finset.card_product]
    rfl

/-- The calls that are made. -/
theorem step_eq_some (h : step interrupter c s = some t) : c.fd ≠ interrupter ∧
    ∃ kqueue, s.kqueue.modEvent c = some kqueue ∧
      t = { select := s.select.modEvent c
            poll := s.poll.pollfdMod c
            epoll := s.epoll.modEvent c
            evport := s.evport.modEvent c
            kqueue
            interest := Function.update s.interest c.fd (c.apply (s.interest c.fd)) } := by
  unfold step at h
  by_cases hfd : c.fd = interrupter
  · rw [if_pos hfd] at h
    exact absurd h nofun
  · rw [if_neg hfd, Option.map_eq_some_iff] at h
    obtain ⟨kqueue, hk, rfl⟩ := h
    exact ⟨hfd, kqueue, hk, rfl⟩

theorem Always.step (h : Always interrupter s) (hs : step interrupter c s = some t) :
    Always interrupter t := by
  obtain ⟨hfd, kqueue, hk, rfl⟩ := step_eq_some hs
  refine ⟨?_, h.bounded.modEvent c, ?_, h.clean.pollfdMod c, ?_, h.epollMirrors.modEvent c, ?_,
    h.evportMirrors.modEvent c, ?_, (KqueueBook.changed_modEvent h.kqueueClean hk).clean, ?_⟩
  · rw [SelectBook.recorded_modEvent, h.select]
  · rw [EventBook.recorded_pollfdMod, h.poll]
  · rw [PortBook.recorded_modEvent, h.epoll]
  · have hself : s.portInterest interrupter c.fd = s.interest c.fd :=
      Function.update_of_ne hfd _ _
    rw [PortBook.recorded_modEvent, h.evport, hself]
    exact (Function.update_comm hfd _ _ _).symm
  · rw [KqueueBook.watched_modEvent h.kqueueClean hk, h.watched]
  · exact (Function.update_of_ne (Ne.symm hfd) _ _).trans h.woken

theorem sdiff_eq_apply {events : EventSet} :
    KqueueBook.kept c events \ c.remove = c.apply events ↔
      (c.add ≠ ∅ → events \ c.remove ⊆ c.add) := by
  unfold KqueueBook.kept ModEvent.apply
  by_cases ha : c.add = ∅
  · simp [ha]
  · rw [if_neg ha, Finset.union_sdiff_distrib, eq_comm, Finset.union_eq_right]
    constructor
    · intro h _ e he
      exact (Finset.mem_sdiff.1 (h he)).1
    · intro h e he
      exact Finset.mem_sdiff.2 ⟨h ha he, (Finset.mem_sdiff.1 he).2⟩

/-- After a call the back ends agree exactly when the call meets the condition. -/
theorem agree_step_iff (h : Kept interrupter s) (hs : step interrupter c s = some t) :
    Agree interrupter t ↔ Fits interrupter s c := by
  have ha := h.toAlways.step hs
  obtain ⟨hfd, kqueue, hk, rfl⟩ := step_eq_some hs
  have hchanged := KqueueBook.changed_modEvent h.kqueueClean hk
  have hcard := KqueueBook.card_modEvent h.kqueueClean hk
  rw [h.kqueue] at hchanged
  rw [h.watched] at hcard
  have hsub := KqueueBook.remove_subset h.kqueueClean hk
  rw [h.watched] at hsub
  have hcounted : .error ∉ c.apply (s.interest c.fd) →
      (c.add ≠ ∅ → s.interest c.fd \ c.remove ⊆ c.add) →
        (KqueueBook.Counted (s.interest c.fd) c.add c.remove ↔
          KqueueBook.diff c (s.interest c.fd) =
            ((c.apply (s.interest c.fd)).card : Int) - (s.interest c.fd).card) :=
    KqueueBook.counted_iff _ _ _ (h.error c.fd) hsub
  have hroom := ha.evportMirrors.room_iff
  rw [ha.evport] at hroom
  -- Every book is compared at the descriptor of the call: the others keep what they had.
  have hlast : Function.update s.interest c.fd (c.apply (s.interest c.fd)) c.fd =
      c.apply (s.interest c.fd) := Function.update_self _ _ _
  constructor
  · intro hagree
    have herror : .error ∉ c.apply (s.interest c.fd) := by
      have hwatched := congrFun hagree.select.2 c.fd
      rw [ha.bounded.watched, hagree.select.1] at hwatched
      dsimp only at hwatched
      rw [hlast] at hwatched
      intro hmem
      rw [← hwatched] at hmem
      simp at hmem
    have hkept : c.add ≠ ∅ → s.interest c.fd \ c.remove ⊆ c.add := by
      have hrecorded := congrFun hagree.kqueue.1 c.fd
      dsimp only at hrecorded
      rw [hchanged.recorded, Function.update_self, hlast] at hrecorded
      exact sdiff_eq_apply.1 hrecorded
    refine ⟨?_, herror, hkept, (hcounted herror hkept).2 ?_, ?_⟩
    · rw [← h.defined]
      exact (SelectBook.undefined_modEvent _ _).1 hagree.defined
    · have hcount := hagree.count
      dsimp only at hcount
      rw [hchanged.maxEvents, hcard, h.count] at hcount
      omega
    · obtain ⟨fd, hne⟩ := hroom.1 hagree.room.2.1
      by_cases hself : fd = interrupter
      · subst hself
        exact absurd (Function.update_self _ _ _) hne
      · refine ⟨fd, hself, fun hempty => hne ?_⟩
        exact (Function.update_of_ne hself _ _).trans hempty
  · intro hfits
    have herror : ∀ fd,
        .error ∉ Function.update s.interest c.fd (c.apply (s.interest c.fd)) fd := by
      intro fd
      by_cases hself : fd = c.fd
      · subst hself
        rw [hlast]
        exact hfits.error
      · rw [Function.update_of_ne hself]
        exact h.error fd
    have hcount : kqueue.maxEvents = kqueue.kernel.card := by
      rw [hchanged.maxEvents, hcard, h.count, (hcounted hfits.error hfits.kept).1 hfits.counted]
    -- The interrupter stays registered, so no back end ever watches nothing.
    have hread : ∀ fd, fd = interrupter →
        Function.update s.interest c.fd (c.apply (s.interest c.fd)) fd ≠ ∅ := by
      rintro fd rfl
      have hwoken := ha.woken
      dsimp only at hwoken
      rw [hwoken]
      exact Finset.singleton_ne_empty _
    refine ⟨?_, ⟨ha.select, ?_⟩, ⟨ha.poll, ha.clean⟩, ⟨ha.epoll, ha.epollMirrors.clean, ?_⟩,
      ⟨ha.evport, ha.evportMirrors.clean, ?_⟩, ⟨?_, ha.kqueueClean, ha.watched⟩, hcount, ?_, ?_, ?_⟩
    · refine (SelectBook.undefined_modEvent _ _).2 ⟨h.defined.2 hfits.size.1, hfits.size.2⟩
    · funext fd
      rw [ha.bounded.watched, ha.select]
      rw [Finset.sdiff_singleton_eq_erase, Finset.erase_eq_of_notMem (herror fd)]
    · rw [ha.epollMirrors.kernel, ha.epoll]
    · rw [ha.evportMirrors.kernel, ha.evport]
    · dsimp only
      rw [hchanged.recorded, sdiff_eq_apply.2 hfits.kept, h.kqueue]
    · rw [ha.epollMirrors.room_iff, ha.epoll]
      exact ⟨interrupter, hread interrupter rfl⟩
    · rw [hroom]
      obtain ⟨fd, hne, hsome⟩ := hfits.some
      exact ⟨fd, (Function.update_of_ne hne _ _).trans_ne hsome⟩
    · dsimp only
      rw [hcount]
      have hmem : (interrupter, SocketEvent.read) ∈ kqueue.kernel := by
        have hwatched := ha.watched
        dsimp only at hwatched
        rw [← KqueueBook.mem_watched, hwatched]
        have hwoken := ha.woken
        dsimp only at hwoken
        rw [hwoken]
        exact Finset.mem_singleton_self _
      exact_mod_cast Finset.card_pos.2 ⟨_, hmem⟩

theorem Kept.step (h : Kept interrupter s) (hfits : Fits interrupter s c)
    (hs : step interrupter c s = some t) : Kept interrupter t := by
  have hagree := (agree_step_iff h hs).2 hfits
  have ha := h.toAlways.step hs
  refine ⟨ha, iff_of_true hagree.defined hfits.size.1, fun fd hmem => ?_, hagree.kqueue.1,
    hagree.count⟩
  rw [← hagree.select.2, ha.bounded.watched] at hmem
  simp at hmem

end Backends

end Yasio
