import Yasio.Service.State
import Yasio.Lib.Machine

/-!
# The requests of `open`, step by step

`open` tests the state of the channel, sets `YOPM_OPEN` and inserts the channel into
`channel_ops_`; `process_channels` and the cleanup write the same members without a lock.  Here the
service thread takes a step for each of its writes, and a defer callback runs inside `fire_event`.
What `do_resolve`, the sockets and the watcher answer is arbitrary.
-/

namespace Yasio

open Function (update)

/-- A call of `open` under way. -/
structure OpenCall where
  channel : ℕ
  /-- made by a callback on the service thread -/
  inside : Bool := false
  stage : OpenStage := .kinded
  /-- its request has been taken up since it set `YOPM_OPEN` -/
  taken : Bool := false
  deriving DecidableEq, Repr

/-- The call has set `YOPM_OPEN` on this channel, has not returned, and nothing has taken its
request up. -/
def OpenCall.waits (c : OpenCall) (i : ℕ) : Bool :=
  c.channel = i && c.stage = .masked && !c.taken

/-- A call of `close(index)` under way; `cleared` when it has cleared `YOPM_OPEN`. -/
structure CloseCall where
  channel : ℕ
  cleared : Bool := false
  deriving DecidableEq, Repr

/-- What `connect` or its completion comes to. -/
inductive ConnectResult
  | waiting
  | failed
  | done
  deriving DecidableEq, Repr

/-- What the outside answers to the service thread. -/
structure RequestAnswers where
  /-- `do_resolve` returns 0 -/
  resolved : Bool := false
  /-- what `do_resolve` writes to `error_` otherwise -/
  resolveError : Option Int := none
  /-- `ctx->socket_->is_open()` in `do_connect` -/
  sockOpen : Bool := false
  connect : ConnectResult := .failed
  completion : ConnectResult := .waiting
  /-- the calls of `do_accept` succeed -/
  listens : Bool := true
  /-- a build with `YASIO_ENABLE_PASSIVE_EVENT` fires here for `cleanup_channel`, `do_accept` -/
  closeEvent : Bool := false
  openEvent : Bool := false
  /-- `do_accept_completion` calls `handle_connect_succeed` -/
  accepts : Bool := false
  /-- its other events -/
  events : ℕ := 0

/-- What the service thread has to do for a channel. -/
inductive RequestInstr
  | setError (error : Int)
  | setState (state : IoState)
  /-- `opmask_ = 0` -/
  | clearMask
  /-- `yasio__clearbits(ctx->opmask_, YOPM_OPEN)` of `process_channels` -/
  | takeUp
  | clearClose
  /-- `fire_event` or `forward_packet` -/
  | event
  /-- `handle_connect_succeed` -/
  | succeed
  -- the tests of `process_channels`, in the order of the source
  | testKind
  | testOpen
  | testState
  | testError
  | testFinish
  | testMask
  | testOpened
  -- the end of a turn of its loop
  | erase
  | next
  deriving DecidableEq, Repr

namespace RequestInstr

variable (a : RequestAnswers)

/-- `cleanup_io` on a channel. -/
def cleanupIo (clear_mask : Bool) : List RequestInstr :=
  [setError 0, setState .closed] ++ if clear_mask then [clearMask] else []

/-- `cleanup_channel` -/
def cleanupChannel (clear_mask : Bool) : List RequestInstr :=
  cleanupIo clear_mask ++ if a.closeEvent then [event] else []

/-- `handle_connect_failed` -/
def handleConnectFailed : List RequestInstr := cleanupChannel a true ++ [event]

/-- `do_connect` -/
def doConnect : List RequestInstr :=
  (if a.sockOpen then cleanupIo true else []) ++ setState .connecting ::
    match a.connect with
    | .waiting => [setError EINPROGRESS]
    | .failed => handleConnectFailed a
    | .done => [succeed]

/-- `do_connect_completion` -/
def doConnectCompletion : List RequestInstr :=
  match a.completion with
  | .waiting => []
  | .failed => handleConnectFailed a
  | .done => [succeed]

/-- `do_accept` -/
def doAccept : List RequestInstr :=
  cleanupChannel a true ++ setState (if a.listens then .opened else .closed) ::
    if a.openEvent then [event] else []

/-- `do_accept_completion` -/
def doAcceptCompletion : List RequestInstr :=
  (if a.accepts then [succeed] else []) ++ List.replicate a.events event

end RequestInstr

/-- Where the service thread is: it has the mutex of `channel_ops_` in the loop of
`process_channels`, at its head or in a turn, with the iterator at this index. -/
inductive RequestPlace
  | outside
  | head (n : ℕ)
  | turn (n : ℕ)
  deriving DecidableEq, Repr

/-- The members that `open`, `close` and the service thread share, and the calls under way. -/
structure OpenRequests where
  kind : ℕ → ℕ := fun _ => 0
  chan : ℕ → IoBase := fun _ => {}
  channelOps : List ℕ := []
  /-- `channel_ops_.capacity()` -/
  capacity : ℕ := 0
  opens : List OpenCall := []
  closes : List CloseCall := []
  place : RequestPlace := .outside
  /-- the channel that the service thread works on, and what is left to do -/
  ctx : ℕ := 0
  code : List RequestInstr := []
  inCallback : Bool := false
  /-- an insertion has invalidated the iterator of `process_channels` -/
  iterLost : Bool := false
  /-- `open` has returned true, and since then there was no `close` and no take-up -/
  accepted : ℕ → Bool := fun _ => false

inductive RequestAction
  -- the parts of `open`; `inside` when a callback on the service thread calls it
  | openKind (i kind : ℕ) (inside : Bool)
  | openTest (n : ℕ)
  | openMask (n : ℕ)
  | openInsert (n capacity : ℕ)
  -- the parts of `close(index)`, which `stop` calls for every channel
  | closeTest (i : ℕ)
  | closeClear (n : ℕ)
  | closeMark (n : ℕ) (sockOpen : Bool)
  -- a resolver thread that fails
  | resolveFailed (i : ℕ)
  -- the service thread
  | processChannels
  | iterate
  | run (a : RequestAnswers)
  | endCallback
  | handleClose (i : ℕ) (opened : Bool) (a : RequestAnswers)
  | connectTimeout (i : ℕ) (a : RequestAnswers)
  | fireEvent

namespace OpenRequests

variable (s : OpenRequests)

def setChan (i : ℕ) (base : IoBase) : OpenRequests := { s with chan := update s.chan i base }

def opening (n : ℕ) : OpenCall := s.opens.getD n ⟨0, false, .kinded, false⟩

def closing (n : ℕ) : ℕ := (s.closes.getD n ⟨0, false⟩).channel

/-- The request that was made of the channel is taken up. -/
def take (i : ℕ) : OpenRequests :=
  { s with
    accepted := update s.accepted i false
    opens := s.opens.map fun c => if c.waits i then { c with taken := true } else c }

/-! ## Calls of the user -/

/-- The state test of `open_internal`. -/
def openTest (n : ℕ) : OpenRequests :=
  let c := s.opening n
  { s with
    opens :=
      if (s.chan c.channel).state = .connecting ∨ (s.chan c.channel).state = .resolving then
        s.opens.eraseIdx n
      else s.opens.set n { c with stage := .tested } }

/-- The writes of the mask in `open_internal`. -/
def openMask (n : ℕ) : OpenRequests :=
  let c := s.opening n
  { s.setChan c.channel { s.chan c.channel with opClose := false, opOpen := true } with
    opens := s.opens.set n { c with stage := .masked } }

/-- The locked insertion in `open_internal`, which then returns true.  A vector without spare
capacity moves to a block of at least this capacity. -/
def openInsert (n capacity : ℕ) : OpenRequests :=
  let c := s.opening n
  let grows := c.channel ∉ s.channelOps ∧ s.capacity ≤ s.channelOps.length
  { s with
    channelOps :=
      if c.channel ∈ s.channelOps then s.channelOps else s.channelOps ++ [c.channel]
    capacity := if grows then max capacity (s.channelOps.length + 1) else s.capacity
    iterLost := s.iterLost || (grows && s.place ≠ .outside)
    opens := s.opens.eraseIdx n
    accepted := update s.accepted c.channel (s.accepted c.channel || !c.taken) }

/-- The test of `close(index)`: with `YOPM_CLOSE` set it returns at once. -/
def closeTest (i : ℕ) : OpenRequests :=
  if (s.chan i).opClose then { s with accepted := update s.accepted i false }
  else { s with closes := s.closes ++ [⟨i, false⟩] }

/-- `yasio__clearbits(channel->opmask_, YOPM_OPEN)` of `close(index)`. -/
def closeClear (n : ℕ) : OpenRequests :=
  let i := s.closing n
  { s.setChan i { s.chan i with opOpen := false } with
    closes := s.closes.set n ⟨i, true⟩
    accepted := update s.accepted i false }

/-- The rest of `close(index)`. -/
def closeMark (n : ℕ) (sockOpen : Bool) : OpenRequests :=
  let i := s.closing n
  { s.setChan i { s.chan i with opClose := (s.chan i).opClose || sockOpen } with
    closes := s.closes.eraseIdx n }

/-! ## The service thread -/

/-- The head of the loop of `process_channels`. -/
def iterate : OpenRequests :=
  match s.place with
  | .head n =>
    match s.channelOps[n]? with
    | some i => { s with place := .turn n, ctx := i, code := [.testKind] }
    | none => { s with place := .outside }
  | _ => s

/-- The end of a turn. -/
def endTurn (erased : Bool) : OpenRequests :=
  match s.place with
  | .turn n =>
    if erased then { s with place := .head n, channelOps := s.channelOps.eraseIdx n }
    else { s with place := .head (n + 1) }
  | _ => s

def push (code : List RequestInstr) : OpenRequests := { s with code := code ++ s.code }

open RequestInstr in
/-- One instruction. -/
def exec (a : RequestAnswers) (instr : RequestInstr) : OpenRequests :=
  let i := s.ctx
  let ctx := s.chan i
  match instr with
  | setError error => s.setChan i { ctx with error }
  | setState state => s.setChan i { ctx with state }
  | clearMask => s.setChan i { ctx with opOpen := false, opClose := false }
  | takeUp => (s.setChan i { ctx with opOpen := false }).take i
  | clearClose => s.setChan i { ctx with opClose := false }
  | event => { s with inCallback := true }
  | succeed =>
    s.push <| setError 0 ::
      ((if testbits (s.kind i) Ycm.client then [setState .opened] else []) ++
        -- With SSL the event follows the handshake.
        if testbits (s.kind i) Ycm.ssl then [] else [event])
  | testKind =>
    s.push <|
      if testbits (s.kind i) Ycm.client then [testOpen, testState, testFinish]
      else if testbits (s.kind i) Ycm.server then [testMask, testOpened]
      else [erase]
  | testOpen => s.push (if ctx.opOpen then [takeUp, setState .resolving] else [])
  | testState =>
    s.push <|
      match ctx.state with
      | .resolving =>
        if a.resolved then doConnect a else a.resolveError.toList.map setError ++ [testError]
      | .connecting => doConnectCompletion a
      | _ => []
  | testError => s.push (if ctx.error ≠ EINPROGRESS then handleConnectFailed a else [])
  | testFinish => s.push [if ctx.error ≠ EINPROGRESS then erase else next]
  -- A server's request is taken up by `do_accept`, which clears the mask later.
  | testMask =>
    if ctx.opOpen then (s.take i).push (doAccept a)
    else s.push (if ctx.opClose then cleanupChannel a true else [])
  | testOpened =>
    s.push (if ctx.state = .opened then doAcceptCompletion a ++ [next] else [erase])
  | erase => s.endTurn true
  | next => s.endTurn false

/-- The service thread goes on with what is left to do. -/
def runNext (a : RequestAnswers) : OpenRequests :=
  match s.code with
  | [] => s
  | instr :: code => { s with code }.exec a instr

open RequestInstr in
/-- `handle_close` of a transport of the channel. -/
def handleClose (i : ℕ) (opened : Bool) (a : RequestAnswers) : OpenRequests :=
  { s with
    ctx := i
    code := (if opened then [event] else []) ++
      -- An `open` that was asked for meanwhile stays asked for.
      if testbits (s.kind i) Ycm.client then clearClose :: cleanupChannel a false else [] }

/-- The callback of the connect timer. -/
def connectTimeout (i : ℕ) (a : RequestAnswers) : OpenRequests :=
  { s with
    ctx := i
    code := if (s.chan i).state ≠ .opened then RequestInstr.handleConnectFailed a else [] }

/-- The service thread is between two of the parts of a frame. -/
def between : Bool := s.place = .outside && s.code = [] && !s.inCallback

def enabled : RequestAction → Bool
  | .openKind _ kind inside =>
    validKind kind && (!inside || s.inCallback && !s.opens.any OpenCall.inside)
  | .openTest n => n < s.opens.length && (s.opening n).stage = .kinded
  | .openMask n => n < s.opens.length && (s.opening n).stage = .tested
  -- The mutex is recursive.
  | .openInsert n _ =>
    n < s.opens.length && (s.opening n).stage = .masked &&
      ((s.opening n).inside || s.place = .outside)
  | .closeTest _ | .resolveFailed _ => true
  | .closeClear n => n < s.closes.length && !(s.closes.getD n ⟨0, true⟩).cleared
  | .closeMark n _ => n < s.closes.length && (s.closes.getD n ⟨0, false⟩).cleared
  | .processChannels => s.between && s.channelOps ≠ []
  | .iterate => match s.place with | .head _ => s.code = [] && !s.inCallback | _ => false
  | .run _ => s.code ≠ [] && !s.inCallback
  | .endCallback => s.inCallback && !s.opens.any OpenCall.inside
  | .handleClose _ _ _ | .connectTimeout _ _ | .fireEvent => s.between

def effect : RequestAction → OpenRequests
  | .openKind i kind inside =>
    { s with kind := update s.kind i kind, opens := s.opens ++ [{ channel := i, inside }] }
  | .openTest n => s.openTest n
  | .openMask n => s.openMask n
  | .openInsert n capacity => s.openInsert n capacity
  | .closeTest i => s.closeTest i
  | .closeClear n => s.closeClear n
  | .closeMark n sockOpen => s.closeMark n sockOpen
  | .resolveFailed i => s.setChan i { s.chan i with error := Errc.resolveHostFailed }
  | .processChannels => { s with place := .head 0 }
  | .iterate => s.iterate
  | .run a => s.runNext a
  | .endCallback => { s with inCallback := false }
  | .handleClose i opened a => s.handleClose i opened a
  | .connectTimeout i a => s.connectTimeout i a
  | .fireEvent => { s with code := [.event] }

/-- One step; `none` when it cannot be taken. -/
def step (a : RequestAction) (s : OpenRequests) : Option OpenRequests :=
  if s.enabled a then some (s.effect a) else none

theorem step_eq_some {s t : OpenRequests} {a : RequestAction} :
    step a s = some t ↔ s.enabled a = true ∧ s.effect a = t := by
  simp [step]

/-! ## No accepted request is lost -/

/-- A channel with an accepted request has `YOPM_OPEN` set and is in `channel_ops_`, and the
iterator of `process_channels` is a valid one. -/
structure Kept (s : OpenRequests) : Prop where
  asked : ∀ i, s.accepted i = true → (s.chan i).opOpen = true
  listed : ∀ i, s.accepted i = true → i ∈ s.channelOps
  iterator : s.iterLost = false

/-- A call of `open` has set `YOPM_OPEN` on the channel and is still to insert it. -/
def Calling (s : OpenRequests) (i : ℕ) : Prop := ∃ c ∈ s.opens, c.waits i = true

instance (s : OpenRequests) (i : ℕ) : Decidable (s.Calling i) :=
  inferInstanceAs (Decidable (∃ c ∈ s.opens, _))

/-- A request was made of the channel, by a call that has returned or is under way, and is neither
taken up nor withdrawn. -/
def Pending (s : OpenRequests) (i : ℕ) : Prop := s.accepted i = true ∨ s.Calling i

instance (s : OpenRequests) (i : ℕ) : Decidable (s.Pending i) :=
  inferInstanceAs (Decidable (_ ∨ _))

/-- The mask of a channel is cleared while no request is pending, a channel leaves `channel_ops_`
without an accepted request, `close` does not come between two steps of `open`, and an insertion
that `process_channels` is not prepared for finds spare capacity. -/
def Unhindered (s : OpenRequests) : RequestAction → Prop
  | .run _ =>
    (s.code.head? = some .clearMask → ¬ s.Pending s.ctx) ∧
      (s.code.head? = some .erase → s.accepted s.ctx = false)
  | .closeClear n => ¬ s.Calling (s.closing n)
  | .openInsert n _ =>
    s.place = .outside ∨ (s.opening n).channel ∈ s.channelOps ∨
      s.channelOps.length < s.capacity
  | _ => True

instance (s : OpenRequests) (a : RequestAction) : Decidable (s.Unhindered a) := by
  unfold Unhindered
  induction a using RequestAction.casesOn <;> infer_instance

/-- The invariant: also the requests of calls under way have left their mark, and the iterator of a
turn is at the channel that the turn is for. -/
structure Sound (s : OpenRequests) : Prop where
  marked : ∀ i, s.Pending i → (s.chan i).opOpen = true
  listed : ∀ i, s.accepted i = true → i ∈ s.channelOps
  iterator : s.iterLost = false
  turn : ∀ n, s.place = .turn n → s.channelOps[n]? = some s.ctx

variable {s t : OpenRequests} {i n : ℕ} {a : RequestAnswers}

theorem Sound.kept (h : s.Sound) : s.Kept where
  asked i hi := h.marked i (.inl hi)
  listed := h.listed
  iterator := h.iterator

/-! ### What the parts of a step keep -/

theorem Sound.setChan {base : IoBase} (h : s.Sound)
    (hbase : s.Pending i → (s.chan i).opOpen = true → base.opOpen = true) :
    (s.setChan i base).Sound where
  marked j hj := by
    change (update s.chan i base j).opOpen = true
    rcases eq_or_ne j i with rfl | hne
    · rw [Function.update_self]
      exact hbase hj (h.marked j hj)
    · rw [Function.update_of_ne hne]
      exact h.marked j hj
  listed := h.listed
  iterator := h.iterator
  turn := h.turn

theorem Sound.push {code : List RequestInstr} (h : s.Sound) : (s.push code).Sound :=
  ⟨h.marked, h.listed, h.iterator, h.turn⟩

theorem accepted_of_update_false {j : ℕ} (hj : update s.accepted i false j = true) :
    j ≠ i ∧ s.accepted j = true := by
  rcases eq_or_ne j i with rfl | hne
  · rw [Function.update_self] at hj
    cases hj
  · exact ⟨hne, by rwa [Function.update_of_ne hne] at hj⟩

theorem pending_take {j : ℕ} (hj : (s.take i).Pending j) : j ≠ i ∧ s.Pending j := by
  have hwaits : ∀ c : OpenCall, (if c.waits i then { c with taken := true } else c).waits j = true →
      j ≠ i ∧ c.waits j = true := by
    intro c hc
    split at hc
    · simp [OpenCall.waits] at hc
    · next hi =>
      refine ⟨?_, hc⟩
      rintro rfl
      exact hi hc
  rcases hj with hj | ⟨c, hc, hj⟩
  · obtain ⟨hne, hj⟩ := accepted_of_update_false hj
    exact ⟨hne, .inl hj⟩
  · obtain ⟨c, hmem, rfl⟩ := List.mem_map.1 hc
    obtain ⟨hne, hwait⟩ := hwaits c hj
    exact ⟨hne, .inr ⟨c, hmem, hwait⟩⟩

theorem Sound.take (h : s.Sound) : (s.take i).Sound where
  marked j hj := h.marked j (pending_take hj).2
  listed j hj := h.listed j (accepted_of_update_false hj).2
  iterator := h.iterator
  turn := h.turn

/-- Where calls are only taken from the list or set back, no request comes up. -/
theorem Pending.of_opens {opens : List OpenCall} {j : ℕ}
    (hopens : ∀ c ∈ opens, c.waits j = true → c ∈ s.opens)
    (hj : Pending { s with opens } j) : s.Pending j := by
  rcases hj with hj | ⟨c, hc, hwait⟩
  · exact .inl hj
  · exact .inr ⟨c, hopens c hc hwait, hwait⟩

theorem Sound.withOpens {opens : List OpenCall} (h : s.Sound)
    (hopens : ∀ j, ∀ c ∈ opens, c.waits j = true → c ∈ s.opens) :
    Sound { s with opens } where
  marked j hj := h.marked j (Pending.of_opens (hopens j) hj)
  listed := h.listed
  iterator := h.iterator
  turn := h.turn

/-! ### Calls of the user -/

theorem opening_mem (hn : n < s.opens.length) : s.opening n ∈ s.opens := by
  rw [opening, List.getD_eq_getElem?_getD, List.getElem?_eq_getElem hn, Option.getD_some]
  exact List.getElem_mem hn

theorem Sound.openTest (h : s.Sound) : (s.openTest n).Sound := by
  apply h.withOpens
  intro j c hc hwait
  split at hc
  · exact List.mem_of_mem_eraseIdx hc
  · rcases List.mem_or_eq_of_mem_set hc with hc | rfl
    · exact hc
    · simp [OpenCall.waits] at hwait

theorem Sound.openMask (h : s.Sound) : (s.openMask n).Sound where
  marked j hj := by
    change (update s.chan (s.opening n).channel _ j).opOpen = true
    rcases eq_or_ne j (s.opening n).channel with rfl | hne
    · rw [Function.update_self]
    · rw [Function.update_of_ne hne]
      apply h.marked j
      refine Pending.of_opens (fun c hc hwait => ?_) hj
      rcases List.mem_or_eq_of_mem_set hc with hc | rfl
      · exact hc
      · simp only [OpenCall.waits, Bool.and_eq_true, decide_eq_true_eq] at hwait
        exact absurd hwait.1.1.symm hne
  listed := h.listed
  iterator := h.iterator
  turn := h.turn

/-- The request that a call has accepted when it returns was pending before. -/
theorem pending_openInsert {capacity j : ℕ} (hn : n < s.opens.length)
    (hstage : (s.opening n).stage = .masked) (hj : (s.openInsert n capacity).Pending j) :
    s.Pending j := by
  rcases hj with hj | ⟨c, hc, hwait⟩
  · change update s.accepted (s.opening n).channel _ j = true at hj
    rcases eq_or_ne j (s.opening n).channel with rfl | hne
    · rw [Function.update_self, Bool.or_eq_true] at hj
      rcases hj with hj | hj
      · exact .inl hj
      · refine .inr ⟨s.opening n, opening_mem hn, ?_⟩
        simpa [OpenCall.waits, hstage] using hj
    · rw [Function.update_of_ne hne] at hj
      exact .inl hj
  · exact .inr ⟨c, List.mem_of_mem_eraseIdx hc, hwait⟩

theorem Sound.openInsert {capacity : ℕ} (h : s.Sound) (hn : n < s.opens.length)
    (hstage : (s.opening n).stage = .masked)
    (hroom : s.place = .outside ∨ (s.opening n).channel ∈ s.channelOps ∨
      s.channelOps.length < s.capacity) : (s.openInsert n capacity).Sound where
  marked j hj := h.marked j (pending_openInsert hn hstage hj)
  listed j hj := by
    change update s.accepted (s.opening n).channel _ j = true at hj
    change j ∈ if _ then _ else _
    rcases eq_or_ne j (s.opening n).channel with rfl | hne
    · split
      · assumption
      · exact List.mem_append_right _ (List.mem_singleton.2 rfl)
    · rw [Function.update_of_ne hne] at hj
      have hmem := h.listed j hj
      split
      · exact hmem
      · exact List.mem_append_left _ hmem
  iterator := by
    change (s.iterLost || (decide _ && decide _)) = false
    rw [h.iterator, Bool.false_or, Bool.and_eq_false_iff, decide_eq_false_iff_not,
      decide_eq_false_iff_not, not_not, not_and]
    rcases hroom with hplace | hmem | hlt
    · exact .inr hplace
    · exact .inl fun hnot => absurd hmem hnot
    · exact .inl fun _ => hlt.not_ge
  turn m hplace := by
    change (if _ then _ else _)[m]? = some s.ctx
    have hm := h.turn m hplace
    split
    · exact hm
    · rw [List.getElem?_append_left (List.getElem?_eq_some_iff.1 hm).1]
      exact hm

theorem Sound.closeTest (h : s.Sound) : (s.closeTest i).Sound := by
  unfold OpenRequests.closeTest
  split
  · refine ⟨fun j hj => h.marked j ?_, fun j hj => h.listed j (accepted_of_update_false hj).2,
      h.iterator, h.turn⟩
    exact hj.imp_left fun hj => (accepted_of_update_false hj).2
  · exact ⟨h.marked, h.listed, h.iterator, h.turn⟩

theorem Sound.closeClear (h : s.Sound) (hcalling : ¬ s.Calling (s.closing n)) :
    (s.closeClear n).Sound where
  marked j hj := by
    have hold : j ≠ s.closing n ∧ s.Pending j := by
      rcases hj with hj | hj
      · exact (accepted_of_update_false hj).imp_right .inl
      · exact ⟨fun heq => hcalling (heq ▸ hj), .inr hj⟩
    change (update s.chan (s.closing n) _ j).opOpen = true
    rw [Function.update_of_ne hold.1]
    exact h.marked j hold.2
  listed j hj := h.listed j (accepted_of_update_false hj).2
  iterator := h.iterator
  turn := h.turn

theorem Sound.closeMark {sockOpen : Bool} (h : s.Sound) : (s.closeMark n sockOpen).Sound := by
  have hs : (s.setChan (s.closing n)
      { s.chan (s.closing n) with
        opClose := (s.chan (s.closing n)).opClose || sockOpen }).Sound :=
    h.setChan fun _ hopen => hopen
  exact ⟨hs.marked, hs.listed, hs.iterator, hs.turn⟩

/-! ### The service thread -/

theorem Sound.iterate (h : s.Sound) : s.iterate.Sound := by
  unfold OpenRequests.iterate
  split
  · next m hplace =>
    split
    · next i hi =>
      refine ⟨h.marked, h.listed, h.iterator, fun n hn => ?_⟩
      obtain rfl : m = n := by simpa using hn
      exact hi
    · exact ⟨h.marked, h.listed, h.iterator, fun n hn => by cases hn⟩
  · exact h

theorem Sound.endTurn {erased : Bool} (h : s.Sound)
    (hctx : erased = true → s.accepted s.ctx = false) : (s.endTurn erased).Sound := by
  unfold OpenRequests.endTurn
  split
  · next m hplace =>
    split
    · next herased =>
      refine ⟨h.marked, fun j hj => ?_, h.iterator, fun n hn => by cases hn⟩
      obtain ⟨k, hk⟩ := List.mem_iff_getElem?.1 (h.listed j hj)
      refine List.mem_eraseIdx_iff_getElem?.2 ⟨k, ?_, hk⟩
      rintro rfl
      -- The turn is for the channel of the iterator, which has no request.
      obtain rfl : s.ctx = j := Option.some.inj ((h.turn k hplace).symm.trans hk)
      cases (hctx herased).symm.trans hj
    · exact ⟨h.marked, h.listed, h.iterator, fun n hn => by cases hn⟩
  · exact h

theorem Sound.exec {instr : RequestInstr} (h : s.Sound)
    (hmask : instr = .clearMask → ¬ s.Pending s.ctx)
    (herase : instr = .erase → s.accepted s.ctx = false) : (s.exec a instr).Sound := by
  cases instr with
  | setError | setState | clearClose => exact h.setChan fun _ hopen => hopen
  | clearMask => exact h.setChan fun hpending => absurd hpending (hmask rfl)
  | takeUp =>
    have htake := h.take (i := s.ctx)
    refine ⟨fun j hj => ?_, htake.listed, htake.iterator, htake.turn⟩
    change (update s.chan s.ctx _ j).opOpen = true
    obtain ⟨hne, hpending⟩ := pending_take hj
    rw [Function.update_of_ne hne]
    exact h.marked j hpending
  | event => exact ⟨h.marked, h.listed, h.iterator, h.turn⟩
  | succeed | testKind | testOpen | testState | testError | testFinish | testOpened =>
    exact h.push
  | testMask =>
    simp only [OpenRequests.exec]
    split
    · exact h.take.push
    · exact h.push
  | erase => exact h.endTurn fun _ => herase rfl
  | next => exact h.endTurn nofun

theorem Sound.runNext (h : s.Sound) (hmask : s.code.head? = some .clearMask → ¬ s.Pending s.ctx)
    (herase : s.code.head? = some .erase → s.accepted s.ctx = false) : (s.runNext a).Sound := by
  unfold OpenRequests.runNext
  split
  · exact h
  · next instr code hcode =>
    have hs : Sound { s with code } := ⟨h.marked, h.listed, h.iterator, h.turn⟩
    apply hs.exec
    · rintro rfl
      exact hmask (by rw [hcode]; rfl)
    · rintro rfl
      exact herase (by rw [hcode]; rfl)

theorem Sound.step {x : RequestAction} (h : s.Sound) (hC : s.Unhindered x)
    (hstep : step x s = some t) : t.Sound := by
  obtain ⟨hen, rfl⟩ := step_eq_some.1 hstep
  cases x with
  | openKind i kind inside =>
    refine ⟨fun j hj => h.marked j ?_, h.listed, h.iterator, h.turn⟩
    refine Pending.of_opens (fun c hc hwait => ?_) hj
    rcases List.mem_append.1 hc with hc | hc
    · exact hc
    · obtain rfl := List.mem_singleton.1 hc
      simp [OpenCall.waits] at hwait
  | openTest n => exact h.openTest
  | openMask n => exact h.openMask
  | openInsert n capacity =>
    simp only [enabled, Bool.and_eq_true, decide_eq_true_eq] at hen
    exact h.openInsert hen.1.1 hen.1.2 hC
  | closeTest i => exact h.closeTest
  | closeClear n => exact h.closeClear hC
  | closeMark n sockOpen => exact h.closeMark
  | resolveFailed i => exact h.setChan fun _ hopen => hopen
  | processChannels => exact ⟨h.marked, h.listed, h.iterator, nofun⟩
  | iterate => exact h.iterate
  | run a => exact h.runNext hC.1 hC.2
  | endCallback | fireEvent => exact ⟨h.marked, h.listed, h.iterator, h.turn⟩
  | handleClose i opened a | connectTimeout i a =>
    simp only [enabled, between, Bool.and_eq_true, decide_eq_true_eq] at hen
    refine ⟨h.marked, h.listed, h.iterator, fun n hn => ?_⟩
    cases hen.1.1.symm.trans hn

/-- Channel 0 is opened as a TCP client, its attempt fails at once, and the callback of the event
opens channel `i`. -/
def failThenOpen (i : ℕ) : List RequestAction :=
  [.openKind 0 Yck.tcpClient false, .openTest 0, .openMask 0, .openInsert 0 4, .processChannels,
    .iterate, .run {}, .run {}, .run {}, .run {},
    .run { resolveError := some Errc.noAvailableAddress }, .run {}, .run {}, .run {}, .run {},
    .run {}, .run {},
    .openKind i Yck.tcpClient true, .openTest 0, .openMask 0, .openInsert 0 8, .endCallback,
    .run {}, .run {}]

end OpenRequests

end Yasio
