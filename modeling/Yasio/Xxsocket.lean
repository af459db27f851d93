import Yasio.Framing
import Yasio.Lib.Machine
import Mathlib.Logic.Equiv.Basic

/-!
# `xxsocket` and its descriptor

The descriptors of a process, the objects that hold them, and the calls that open, close and hand
them on.  The static `connect_n` with a time-out closes the descriptor that it was given when the
connection fails; the object that gave it keeps its copy.
-/

namespace Yasio

/-- A descriptor number.  `serial` counts the descriptors that the system has handed out, and tells
those apart that had the same number; no call reads it. -/
structure Descriptor where
  number : ℕ
  serial : ℕ
  deriving DecidableEq, Repr

/-- Who may hold a descriptor: an `xxsocket`, or the caller of `release_handle`. -/
inductive Holder
  | object (i : ℕ)
  | caller (k : ℕ)
  deriving DecidableEq, Repr

/-- The descriptors that are held, the numbers that are in use and for which descriptor, how many
descriptors the system has handed out, and those for which `closesocket` was called. -/
structure SocketTable where
  held : Holder → Option Descriptor := fun _ => none
  live : ℕ → Option ℕ := fun _ => none
  fresh : ℕ := 0
  closes : List ℕ := []

/-! ## `connect_n` -/

/-- What the system answers in `connect_n`: the error of `::connect`, the error of the last
`::select` or how many descriptors are ready, whether ours is, and the error word of the socket. -/
structure ConnectAnswers where
  connect : Option Int
  select : Except Int ℕ
  isset : Bool
  sockopt : Option Int

/-- `xxsocket::select`: what it returns, and the error number. -/
def ConnectAnswers.selectReturns (a : ConnectAnswers) : Int × Int :=
  match a.select with
  | .error error => if error = EINTR then (0, ETIMEDOUT) else (-1, error)
  | .ok n => (n, ETIMEDOUT)

/-- The static `connect_n` with a time-out: what it returns, and whether it calls `closesocket`. -/
def ConnectAnswers.connectN (a : ConnectAnswers) : Int × Bool :=
  -- `::closesocket(s); /* just in case */`
  let done (error : Int) : Int × Bool := if error ≠ 0 then (-1, true) else (0, false)
  match a.connect with
  | none => done 0
  | some error =>
    if error ≠ EINPROGRESS ∧ error ≠ EWOULDBLOCK then (-1, false)
    else if a.selectReturns.1 ≤ 0 then done a.selectReturns.2
    else if a.isset then
      match a.sockopt with
      | none => (-1, false)
      | some error => done error
    else done error

/-- What the system answers in `pconnect_n`: the number of a new socket, if there is one. -/
structure ConnectAttempt where
  socket : Option ℕ
  connect : ConnectAnswers

/-! ## The calls -/

namespace SocketTable

open Function (update)

/-- `::closesocket` -/
def closesocket (s : SocketTable) (d : Descriptor) : SocketTable :=
  { s with live := update s.live d.number none, closes := d.serial :: s.closes }

def isOpen (s : SocketTable) (h : Holder) : Bool := (s.held h).isSome

def close (s : SocketTable) (h : Holder) : SocketTable :=
  match s.held h with
  | some d => { s.closesocket d with held := update s.held h none }
  | none => s

/-- `open`, and `popen`.  A number that is in use is no answer of the system. -/
def openFd (s : SocketTable) (h : Holder) (socket : Option ℕ) : Option SocketTable :=
  match s.held h, socket with
  | none, some n =>
    if s.live n = none then
      some { s with
        held := update s.held h (some ⟨n, s.fresh⟩)
        live := update s.live n (some s.fresh)
        fresh := s.fresh + 1 }
    else none
  | _, _ => some s

def reopen (s : SocketTable) (h : Holder) (socket : Option ℕ) : Option SocketTable :=
  (s.close h).openFd h socket

/-- `connect_n` of the object -/
def connectN (s : SocketTable) (h : Holder) (a : ConnectAnswers) : Int × SocketTable :=
  (a.connectN.1,
    match s.held h with
    | some d => if a.connectN.2 then s.closesocket d else s
    | none => s)

def pconnectN (s : SocketTable) (h : Holder) (a : ConnectAttempt) : Option (Int × SocketTable) := do
  let s ← s.reopen h a.socket
  return if s.isOpen h then s.connectN h a.connect else (-1, s)

/-- `xpconnect_n`, and `pconnect_n` of a host name: an attempt for each address until one connects.
-/
def xpconnectN (h : Holder) : List ConnectAttempt → SocketTable → Option (Int × SocketTable)
  | [], s => some (-1, s)
  | a :: as, s => do
    let r ← s.pconnectN h a
    if r.1 = 0 then return r else xpconnectN h as r.2

/-- `swap`, which both move operations are: a new object holds nothing before. -/
def swap (s : SocketTable) (h k : Holder) : SocketTable :=
  { s with held := s.held ∘ Equiv.swap h k }

end SocketTable

/-- A call on objects, or what the caller does with a handle that it has.  `reopen` is all that
`pconnect`, and `pconnect_n` without a time-out, do to descriptors, and `close` all that the
destructor does. -/
inductive SocketAction
  | openFd (i : ℕ) (socket : Option ℕ)
  | reopen (i : ℕ) (socket : Option ℕ)
  | connectN (i : ℕ) (a : ConnectAnswers)
  | pconnectN (i : ℕ) (a : ConnectAttempt)
  | xpconnectN (i : ℕ) (as : List ConnectAttempt)
  | close (i : ℕ)
  | swap (i j : ℕ)
  | releaseHandle (i k : ℕ)
  | closeHandle (k : ℕ)

namespace SocketTable

/-- `release_handle` gives the handle to a caller who has none at this place. -/
def step : SocketAction → SocketTable → Option SocketTable
  | .openFd i socket, s => s.openFd (.object i) socket
  | .reopen i socket, s => s.reopen (.object i) socket
  | .connectN i a, s => some (s.connectN (.object i) a).2
  | .pconnectN i a, s => (s.pconnectN (.object i) a).map Prod.snd
  | .xpconnectN i as, s => (xpconnectN (.object i) as s).map Prod.snd
  | .close i, s => some (s.close (.object i))
  | .swap i j, s => some (s.swap (.object i) (.object j))
  | .releaseHandle i k, s =>
    if s.held (.caller k) = none then some (s.swap (.object i) (.caller k)) else none
  | .closeHandle k, s => some (s.close (.caller k))

end SocketTable

/-! ## When `connect_n` closes -/

namespace ConnectAnswers

variable (a : ConnectAnswers)

/-- The connection is on its way after `::connect`. -/
def inProgress : Bool := a.connect == some EINPROGRESS || a.connect == some EWOULDBLOCK

/-- The connection was on its way, and then the time was over, `::select` failed, our descriptor was
not ready, or the socket had an error. -/
def givesUp : Bool :=
  a.inProgress && match a.select with
    | .error error => error != 0
    | .ok 0 => true
    | .ok _ => !a.isset || a.sockopt.any (· != 0)

/-- The connection stood at once, or it was on its way and the socket has no error. -/
def connects : Bool :=
  a.connect == none || a.inProgress && match a.select with
    | .error error => error == 0
    | .ok 0 => false
    | .ok _ => a.isset && a.sockopt == some 0

/-- The end of a connection that was on its way. -/
theorem connectN_of_inProgress {error : Int} (hconnect : a.connect = some error)
    (hprogress : error = EINPROGRESS ∨ error = EWOULDBLOCK) :
    a.connectN = (if a.connects then 0 else -1, a.givesUp) := by
  have hne : error ≠ 0 := by
    rintro rfl
    exact absurd hprogress (by decide)
  have hEINTR : EINTR ≠ 0 := by decide
  have htimeout : ETIMEDOUT ≠ 0 := by decide
  have hbranch : ¬ (error ≠ EINPROGRESS ∧ error ≠ EWOULDBLOCK) := by
    rwa [← not_or, not_not]
  have hin : a.inProgress = true := by
    unfold inProgress
    rw [hconnect]
    simpa using hprogress
  have hnone : (a.connect == none) = false := by rw [hconnect]; rfl
  unfold connectN connects givesUp selectReturns
  rw [hin, hnone, hconnect]
  dsimp only
  rw [if_neg hbranch]
  cases a.select with
  | error e =>
    by_cases hintr : e = EINTR
    · rw [hintr]
      simp [htimeout, hEINTR]
    · by_cases hzero : e = 0 <;> simp [hintr, hzero, hEINTR.symm]
  | ok n =>
    cases n with
    | zero => simp [htimeout]
    | succ n =>
      have hpos : ¬ ((n + 1 : ℕ) : Int) ≤ 0 := by omega
      dsimp only
      rw [if_neg hpos]
      cases a.isset with
      | false => simp [hne]
      | true =>
        cases a.sockopt with
        | none => rfl
        | some e => by_cases hzero : e = 0 <;> simp [hzero]

/-- What `connect_n` returns, and whether it closes. -/
theorem connectN_eq : a.connectN = (if a.connects then 0 else -1, a.givesUp) := by
  cases hconnect : a.connect with
  | none => simp [connectN, connects, givesUp, inProgress, hconnect]
  | some error =>
    by_cases hprogress : error = EINPROGRESS ∨ error = EWOULDBLOCK
    · exact a.connectN_of_inProgress hconnect hprogress
    · have hfailed := not_or.1 hprogress
      simp [connectN, connects, givesUp, inProgress, hconnect, hfailed.1, hfailed.2]

end ConnectAnswers

/-- The attempt gets a socket, and `connect_n` closes it. -/
def ConnectAttempt.givesUp (a : ConnectAttempt) : Bool := a.socket.isSome && a.connect.givesUp

def ConnectAttempt.connects (a : ConnectAttempt) : Bool := a.socket.isSome && a.connect.connects

/-- The attempts that are made: up to the first that connects. -/
def tried : List ConnectAttempt → List ConnectAttempt
  | [] => []
  | a :: as => if a.connects then [a] else a :: tried as

/-- No `connect_n` on a descriptor closes it. -/
def SocketAction.Keeps (s : SocketTable) : SocketAction → Prop
  | connectN i a => s.isOpen (.object i) → a.givesUp = false
  | pconnectN _ a => a.givesUp = false
  | xpconnectN _ as => ∀ a ∈ tried as, a.givesUp = false
  | _ => True

namespace SocketTable

open Function (update)

variable {s t : SocketTable} {h k : Holder} {d : Descriptor} {socket : Option ℕ}

/-! ## Ownership -/

/-- No descriptor is closed twice, those that are held are open, and no two holders have the same
one. -/
structure Owned (s : SocketTable) : Prop where
  once : s.closes.Nodup
  live : ∀ h d, s.held h = some d → s.live d.number = some d.serial
  alone : ∀ h k d, s.held h = some d → s.held k = some d → h = k

/-- An object is open exactly when the descriptor that it holds is. -/
theorem Owned.isOpen_iff (hs : s.Owned) :
    s.isOpen h = true ↔ ∃ d, s.held h = some d ∧ s.live d.number = some d.serial := by
  unfold isOpen
  rw [Option.isSome_iff_exists]
  exact exists_congr fun d => ⟨fun hd => ⟨hd, hs.live h d hd⟩, fun hd => hd.1⟩

/-- Besides, the open descriptors are handed out, not closed, and have one number each. -/
structure Kept (s : SocketTable) : Prop extends Owned s where
  unclosed : ∀ n serial, s.live n = some serial → serial < s.fresh ∧ serial ∉ s.closes
  closed_lt : ∀ serial ∈ s.closes, serial < s.fresh
  number : ∀ n m serial, s.live n = some serial → s.live m = some serial → n = m

theorem kept_empty : ({} : SocketTable).Kept where
  once := List.nodup_nil
  live := nofun
  alone := nofun
  unclosed := nofun
  closed_lt := nofun
  number := nofun

theorem Kept.swap (hs : s.Kept) (h k : Holder) : (s.swap h k).Kept where
  once := hs.once
  live := fun _ => hs.live _
  alone := fun _ _ d hd hd' => (Equiv.swap h k).injective (hs.alone _ _ d hd hd')
  unclosed := hs.unclosed
  closed_lt := hs.closed_lt
  number := hs.number

/-- Where the cell of a function that was emptied is not looked at. -/
theorem of_update_none {β : Type} {γ : Type} [DecidableEq β] {f : β → Option γ} {a b : β} {c : γ}
    (h : update f a none b = some c) : b ≠ a ∧ f b = some c := by
  have hne : b ≠ a := by
    rintro rfl
    rw [Function.update_self] at h
    cases h
  exact ⟨hne, by rwa [Function.update_of_ne hne] at h⟩

theorem Kept.close (hs : s.Kept) (h : Holder) : (s.close h).Kept := by
  unfold SocketTable.close
  cases hd : s.held h with
  | none => exact hs
  | some d =>
    have hlive := hs.live h d hd
    exact
      { once := List.nodup_cons.2 ⟨(hs.unclosed _ _ hlive).2, hs.once⟩
        live := fun k d' hk => by
          obtain ⟨hkh, hd'⟩ := of_update_none hk
          have hlive' := hs.live k d' hd'
          -- A descriptor with this number would be the one that is closed.
          have hne : d'.number ≠ d.number := by
            intro hnumber
            rw [hnumber, hlive] at hlive'
            obtain rfl : d' = d := by
              cases d'
              cases d
              simp only [Descriptor.mk.injEq]
              exact ⟨hnumber, (Option.some.inj hlive').symm⟩
            exact hkh (hs.alone k h d' hd' hd)
          exact (Function.update_of_ne hne _ _).trans hlive'
        alone := fun k l d' hk hl =>
          hs.alone k l d' (of_update_none hk).2 (of_update_none hl).2
        unclosed := fun n serial hn => by
          obtain ⟨hne, hopen⟩ := of_update_none hn
          obtain ⟨hlt, hclosed⟩ := hs.unclosed n serial hopen
          refine ⟨hlt, fun hmem => ?_⟩
          obtain rfl | hmem := List.mem_cons.1 hmem
          · exact hne (hs.number n d.number d.serial hopen hlive)
          · exact hclosed hmem
        closed_lt := fun serial hmem => by
          obtain rfl | hmem := List.mem_cons.1 hmem
          · exact (hs.unclosed _ _ hlive).1
          · exact hs.closed_lt serial hmem
        number := fun n m serial hn hm =>
          hs.number n m serial (of_update_none hn).2 (of_update_none hm).2 }

/-- What a new socket leaves. -/
theorem openFd_cases (hopen : s.openFd h socket = some t) :
    t = s ∧ (socket.isSome → s.isOpen h) ∨
      ∃ n, socket = some n ∧ s.live n = none ∧
        t = { s with
          held := update s.held h (some ⟨n, s.fresh⟩)
          live := update s.live n (some s.fresh)
          fresh := s.fresh + 1 } := by
  unfold SocketTable.openFd at hopen
  split at hopen
  · next n hheld =>
    split at hopen
    · next hfree => exact .inr ⟨n, rfl, hfree, (Option.some.inj hopen).symm⟩
    · cases hopen
  · next hother =>
    refine .inl ⟨(Option.some.inj hopen).symm, ?_⟩
    intro hsome
    obtain ⟨n, hn⟩ := Option.isSome_iff_exists.1 hsome
    unfold isOpen
    cases hheld : s.held h with
    | none => exact absurd hn (hother n hheld)
    | some d => rfl

theorem Kept.openFd (hs : s.Kept) (hopen : s.openFd h socket = some t) : t.Kept := by
  obtain ⟨rfl, -⟩ | ⟨n, -, hfree, rfl⟩ := openFd_cases hopen
  · exact hs
  -- The serial of the new descriptor is new too.
  have hlive : ∀ m serial, update s.live n (some s.fresh) m = some serial →
      m = n ∧ serial = s.fresh ∨ s.live m = some serial ∧ serial < s.fresh := by
    intro m serial hm
    by_cases hmn : m = n
    · rw [hmn, Function.update_self] at hm
      exact .inl ⟨hmn, (Option.some.inj hm).symm⟩
    · rw [Function.update_of_ne hmn] at hm
      exact .inr ⟨hm, (hs.unclosed m serial hm).1⟩
  have hheld : ∀ k d, update s.held h (some ⟨n, s.fresh⟩) k = some d →
      k = h ∧ d = ⟨n, s.fresh⟩ ∨ s.held k = some d ∧ d.serial < s.fresh := by
    intro k d hk
    by_cases hkh : k = h
    · rw [hkh, Function.update_self] at hk
      exact .inl ⟨hkh, (Option.some.inj hk).symm⟩
    · rw [Function.update_of_ne hkh] at hk
      exact .inr ⟨hk, (hs.unclosed _ _ (hs.live k d hk)).1⟩
  exact
    { once := hs.once
      live := fun k d hk => by
        obtain ⟨-, rfl⟩ | ⟨hk, -⟩ := hheld k d hk
        · exact Function.update_self ..
        · have hd := hs.live k d hk
          have hne : d.number ≠ n := by
            rintro rfl
            cases hfree.symm.trans hd
          exact (Function.update_of_ne hne _ _).trans hd
      alone := fun k l d hk hl => by
        obtain ⟨hkh, rfl⟩ | ⟨hk, hlt⟩ := hheld k d hk <;>
          obtain ⟨hlh, hd⟩ | ⟨hl, hlt'⟩ := hheld l _ hl
        · exact hkh.trans hlh.symm
        · exact absurd hlt' (lt_irrefl _)
        · rw [hd] at hlt
          exact absurd hlt (lt_irrefl _)
        · exact hs.alone k l d hk hl
      unclosed := fun m serial hm => by
        obtain ⟨-, rfl⟩ | ⟨hm, hlt⟩ := hlive m serial hm
        · exact ⟨Nat.lt_succ_self _, fun hmem => lt_irrefl _ (hs.closed_lt _ hmem)⟩
        · exact ⟨Nat.lt_succ_of_lt hlt, (hs.unclosed m serial hm).2⟩
      closed_lt := fun serial hmem => Nat.lt_succ_of_lt (hs.closed_lt serial hmem)
      number := fun m m' serial hm hm' => by
        obtain ⟨hmn, rfl⟩ | ⟨hm, hlt⟩ := hlive m serial hm <;>
          obtain ⟨hmn', hserial⟩ | ⟨hm', hlt'⟩ := hlive m' _ hm'
        · exact hmn.trans hmn'.symm
        · exact absurd hlt' (lt_irrefl _)
        · exact absurd hserial (Nat.ne_of_lt hlt)
        · exact hs.number m m' serial hm hm' }

/-! ## Descriptors that are closed twice -/

/-- A descriptor was closed twice, or the one that is held here is closed. -/
def Spoilt (s : SocketTable) (h : Holder) : Prop :=
  ¬ s.closes.Nodup ∨ ∃ d, s.held h = some d ∧ d.serial ∈ s.closes ∧ s.live d.number = none

theorem Spoilt.not_owned (hs : s.Spoilt h) : ¬ s.Owned := by
  intro howned
  obtain htwice | ⟨d, hd, -, hnone⟩ := hs
  · exact htwice howned.once
  · cases hnone.symm.trans (howned.live h d hd)

theorem connectN_returns (s : SocketTable) (h : Holder) (a : ConnectAnswers) :
    (s.connectN h a).1 = if a.connects then 0 else -1 := congrArg Prod.fst a.connectN_eq

/-- `connect_n` leaves everything as it was unless it closes. -/
theorem connectN_of_not_givesUp {a : ConnectAnswers} (ha : s.isOpen h → a.givesUp = false) :
    (s.connectN h a).2 = s := by
  unfold SocketTable.connectN
  rw [a.connectN_eq]
  cases hd : s.held h with
  | none => rfl
  | some d =>
    have hopen : s.isOpen h = true := by rw [isOpen, hd]; rfl
    dsimp only
    rw [ha hopen]
    rfl

theorem spoilt_connectN {a : ConnectAnswers} (hopen : s.isOpen h = true) (ha : a.givesUp = true) :
    (s.connectN h a).2.Spoilt h := by
  obtain ⟨d, hd⟩ := Option.isSome_iff_exists.1 hopen
  unfold SocketTable.connectN
  rw [a.connectN_eq, hd, ha]
  exact .inr ⟨d, hd, List.mem_cons_self, Function.update_self ..⟩

/-- What was closed twice stays so. -/
theorem suffix_connectN (s : SocketTable) (h : Holder) (a : ConnectAnswers) :
    s.closes <:+ (s.connectN h a).2.closes := by
  unfold SocketTable.connectN
  cases s.held h with
  | none => exact List.suffix_refl _
  | some d =>
    dsimp only
    split
    · exact List.suffix_cons _ _
    · exact List.suffix_refl _

theorem closes_openFd (hopen : s.openFd h socket = some t) : t.closes = s.closes := by
  obtain ⟨rfl, -⟩ | ⟨n, -, -, rfl⟩ := openFd_cases hopen
  · rfl
  · rfl

/-- Closing once more. -/
theorem Spoilt.close (hs : s.Spoilt h) : ¬ (s.close h).closes.Nodup := by
  unfold SocketTable.close
  obtain htwice | ⟨d, hd, hmem, -⟩ := hs
  · cases s.held h with
    | none => exact htwice
    | some d => exact fun hnodup => htwice (List.nodup_cons.1 hnodup).2
  · rw [hd]
    exact fun hnodup => (List.nodup_cons.1 hnodup).1 hmem

theorem held_close (s : SocketTable) (h : Holder) : (s.close h).held h = none := by
  unfold SocketTable.close
  cases hd : s.held h with
  | none => exact hd
  | some d => exact Function.update_self ..

theorem isOpen_reopen (hopen : s.reopen h socket = some t) : t.isOpen h = socket.isSome := by
  unfold SocketTable.reopen SocketTable.openFd at hopen
  rw [held_close] at hopen
  cases socket with
  | none =>
    obtain rfl := Option.some.inj hopen
    rw [isOpen, held_close]
    rfl
  | some n =>
    dsimp only at hopen
    split at hopen
    · obtain rfl := Option.some.inj hopen
      unfold isOpen
      dsimp only
      rw [Function.update_self]
      rfl
    · cases hopen

section

variable {a : ConnectAttempt} {as : List ConnectAttempt} {r : Int × SocketTable}

/-- An attempt that gets a socket connects it. -/
theorem pconnectN_cases (hr : s.pconnectN h a = some r) :
    ∃ u, s.reopen h a.socket = some u ∧ u.isOpen h = a.socket.isSome ∧
      r = if a.socket.isSome then u.connectN h a.connect else (-1, u) := by
  obtain ⟨u, hu, hr⟩ := Option.bind_eq_some_iff.1 hr
  have hopen := isOpen_reopen hu
  refine ⟨u, hu, hopen, ?_⟩
  rw [← hopen]
  exact (Option.some.inj hr).symm

theorem pconnectN_returns (hr : s.pconnectN h a = some r) : r.1 = 0 ↔ a.connects = true := by
  obtain ⟨u, -, -, rfl⟩ := pconnectN_cases hr
  unfold ConnectAttempt.connects
  cases a.socket.isSome with
  | false => simp
  | true =>
    rw [if_pos rfl, connectN_returns, Bool.true_and]
    cases a.connect.connects <;> simp

theorem Kept.pconnectN (hs : s.Kept) (hr : s.pconnectN h a = some r) (ha : a.givesUp = false) :
    r.2.Kept := by
  obtain ⟨u, hu, hopen, rfl⟩ := pconnectN_cases hr
  have hkept : u.Kept := (hs.close h).openFd hu
  split
  · next hsome =>
    rw [connectN_of_not_givesUp]
    · exact hkept
    · rw [ConnectAttempt.givesUp, hsome, Bool.true_and] at ha
      exact fun _ => ha
  · exact hkept

theorem spoilt_pconnectN (hr : s.pconnectN h a = some r) (ha : a.givesUp = true) :
    r.2.Spoilt h := by
  obtain ⟨u, -, hopen, rfl⟩ := pconnectN_cases hr
  obtain ⟨hsome, hgive⟩ := Bool.and_eq_true_iff.1 ha
  rw [if_pos hsome]
  exact spoilt_connectN (hopen.trans hsome) hgive

/-- The next attempt closes the descriptor that the one before has closed. -/
theorem Spoilt.pconnectN (hs : s.Spoilt h) (hr : s.pconnectN h a = some r) : r.2.Spoilt h := by
  obtain ⟨u, hu, -, rfl⟩ := pconnectN_cases hr
  have htwice : ¬ u.closes.Nodup := by
    rw [closes_openFd hu]
    exact hs.close
  split
  · exact .inl fun hnodup => htwice ((suffix_connectN u h a.connect).sublist.nodup hnodup)
  · exact .inl htwice

theorem xpconnectN_cons (hr : xpconnectN h (a :: as) s = some r) :
    ∃ q, s.pconnectN h a = some q ∧
      (a.connects = true ∧ r = q ∨ a.connects = false ∧ xpconnectN h as q.2 = some r) := by
  obtain ⟨q, hq, hr⟩ := Option.bind_eq_some_iff.1 hr
  refine ⟨q, hq, ?_⟩
  have hreturns := pconnectN_returns hq
  split at hr
  · next hzero => exact .inl ⟨hreturns.1 hzero, (Option.some.inj hr).symm⟩
  · next hne => exact .inr ⟨by rwa [← Bool.not_eq_true, ← hreturns], hr⟩

theorem Spoilt.xpconnectN (hs : s.Spoilt h) (hr : xpconnectN h as s = some r) : r.2.Spoilt h := by
  induction as generalizing s with
  | nil =>
    obtain rfl := Option.some.inj hr
    exact hs
  | cons a as ih =>
    obtain ⟨q, hq, ⟨-, rfl⟩ | ⟨-, hr⟩⟩ := xpconnectN_cons hr
    · exact hs.pconnectN hq
    · exact ih (hs.pconnectN hq) hr

/-- The loop over the addresses. -/
theorem Kept.xpconnectN (hs : s.Kept) (hr : xpconnectN h as s = some r) :
    ((∀ a ∈ tried as, a.givesUp = false) → r.2.Kept) ∧
      (r.2.Owned → ∀ a ∈ tried as, a.givesUp = false) := by
  induction as generalizing s with
  | nil =>
    obtain rfl := Option.some.inj hr
    exact ⟨fun _ => hs, fun _ => nofun⟩
  | cons a as ih =>
    obtain ⟨q, hq, hcases⟩ := xpconnectN_cons hr
    cases ha : a.givesUp with
    | true =>
      -- The attempts that follow close the descriptor again and cannot mend this.
      have hspoilt : r.2.Spoilt h := by
        have hq := spoilt_pconnectN hq ha
        obtain ⟨-, rfl⟩ | ⟨-, hr⟩ := hcases
        · exact hq
        · exact hq.xpconnectN hr
      have hmem : a ∈ tried (a :: as) := by
        unfold tried
        split <;> exact List.mem_cons_self
      constructor
      · intro hall
        cases ha.symm.trans (hall a hmem)
      · exact fun howned => absurd howned hspoilt.not_owned
    | false =>
      have hkept := hs.pconnectN hq ha
      unfold tried
      obtain ⟨hconnects, rfl⟩ | ⟨hconnects, hr⟩ := hcases
      · rw [hconnects, if_pos rfl]
        refine ⟨fun _ => hkept, fun _ b hb => ?_⟩
        rwa [List.mem_singleton.1 hb]
      · rw [hconnects, if_neg Bool.false_ne_true]
        simp only [List.forall_mem_cons, ha, true_and]
        exact ih hkept hr

end

/-! ## Every call -/

theorem Kept.step {a : SocketAction} (hs : s.Kept) (hstep : step a s = some t) :
    (a.Keeps s → t.Kept) ∧ (t.Owned → a.Keeps s) := by
  cases a with
  | openFd i socket => exact ⟨fun _ => hs.openFd hstep, fun _ => trivial⟩
  | reopen i socket => exact ⟨fun _ => (hs.close _).openFd hstep, fun _ => trivial⟩
  | close i =>
    obtain rfl := Option.some.inj hstep
    exact ⟨fun _ => hs.close _, fun _ => trivial⟩
  | closeHandle k =>
    obtain rfl := Option.some.inj hstep
    exact ⟨fun _ => hs.close _, fun _ => trivial⟩
  | swap i j =>
    obtain rfl := Option.some.inj hstep
    exact ⟨fun _ => hs.swap _ _, fun _ => trivial⟩
  | releaseHandle i k =>
    by_cases hfree : s.held (.caller k) = none
    · rw [SocketTable.step, if_pos hfree] at hstep
      obtain rfl := Option.some.inj hstep
      exact ⟨fun _ => hs.swap _ _, fun _ => trivial⟩
    · rw [SocketTable.step, if_neg hfree] at hstep
      cases hstep
  | connectN i a =>
    obtain rfl := Option.some.inj hstep
    constructor
    · intro hkeeps
      rwa [connectN_of_not_givesUp hkeeps]
    · intro howned hopen
      by_contra hgive
      exact (spoilt_connectN hopen (Bool.not_eq_false _ ▸ hgive)).not_owned howned
  | pconnectN i a =>
    obtain ⟨r, hr, rfl⟩ := Option.map_eq_some_iff.1 hstep
    constructor
    · exact hs.pconnectN hr
    · intro howned
      by_contra hgive
      exact (spoilt_pconnectN hr (Bool.not_eq_false _ ▸ hgive)).not_owned howned
  | xpconnectN i as =>
    obtain ⟨r, hr, rfl⟩ := Option.map_eq_some_iff.1 hstep
    exact hs.xpconnectN hr

/-- Along every run, the objects own their descriptors exactly as long as no `connect_n` closes the
descriptor that it was given. -/
theorem owned_iff (as : List SocketAction) (s : SocketTable)
    (hrun : Machine.run step as {} = some s) :
    (∀ bs, bs <+: as → ∀ t, Machine.run step bs {} = some t → t.Owned) ↔
      Machine.Meets step (fun s a => a.Keeps s) as {} :=
  Machine.forall_prefix_iff_meets_of_run (fun _ hs => hs.toOwned)
    (fun _ _ _ hs hstep => hs.step hstep) kept_empty hrun

/-- A socket that connects after a while is exchanged with one whose first address refuses, and both
are closed: one by its object, one by a caller that has taken its handle. -/
def exchanged : List SocketAction :=
  [.openFd 0 (some 3), .connectN 0 ⟨some EINPROGRESS, .ok 1, true, some 0⟩,
    -- `ECONNREFUSED`
    .xpconnectN 1 [⟨some 4, ⟨some 111, .ok 0, false, none⟩⟩,
      ⟨some 4, ⟨none, .ok 0, false, none⟩⟩],
    .swap 0 1, .close 0, .releaseHandle 1 0, .reopen 1 (some 4), .closeHandle 0]

theorem owned_iff_exchanged : ∃ s, Machine.run step exchanged {} = some s ∧
    ((∀ bs, bs <+: exchanged → ∀ t, Machine.run step bs {} = some t → t.Owned) ↔
      Machine.Meets step (fun s a => a.Keeps s) exchanged {}) ∧
      Machine.Meets step (fun s a => a.Keeps s) exchanged {} :=
  ⟨_, rfl, owned_iff exchanged _ rfl, trivial, fun _ => rfl,
    List.forall_mem_cons.2 ⟨rfl, List.forall_mem_singleton.2 rfl⟩, trivial, trivial, trivial,
    trivial, trivial, trivial⟩

/-- `connect_n` times out and closes the number, which the next object gets; when the first object
closes it again, it closes the socket of the next. -/
theorem not_owned_reused :
    ¬ ∀ (as : List SocketAction) (s : SocketTable), Machine.run step as {} = some s → s.Owned := by
  intro hall
  have howned := hall [.openFd 0 (some 3), .connectN 0 ⟨some EINPROGRESS, .ok 0, false, none⟩,
    .openFd 1 (some 3), .close 0] _ rfl
  cases howned.live (.object 1) ⟨3, 1⟩ rfl

end SocketTable

end Yasio
