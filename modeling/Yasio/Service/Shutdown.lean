import Yasio.Service.LoopEnd

/-!
# A stopped service

`do_stop` raises its flag, asks every channel to close and waits for the worker, which leaves its
loop when no transport lives.  The channels are then as the loop has left them: a client that is
connecting has no transport, and nothing in the loop closes it.
-/

namespace Yasio

open Function (update)

open Sockets

namespace Service

variable {inetPton : Host → Option Ip} {s t : Service} {i : ℕ} {b : Block}

/-! ## A stopped service -/

/-- Nothing runs, and nothing is left to be taken up. -/
structure Stopped (s : Service) : Prop where
  transports : s.transports = []
  transportMap : s.transportMap = []
  timerQueue : s.timerQueue = []
  nsched : s.nsched = 0
  schedFreq : s.schedFreq = maxWaitUsec
  stopFlag : s.stopFlag = false
  watched : s.watcher.events = []
  channels : ∀ i < s.channelCount,
    (s.chan i).state = .closed ∧ s.sock i = none ∧ (s.chan i).opOpen = false

theorem stopped_fresh (channelCount : ℕ) (options : Options) (uparams : ℕ → UnpackParams) :
    (Service.fresh channelCount options uparams).Stopped :=
  ⟨rfl, rfl, rfl, rfl, rfl, rfl, rfl, fun _ _ => ⟨rfl, rfl, rfl⟩⟩

/-- A socket that is watched is a channel's own or belongs to a transport. -/
theorem Cared.watched_eq_nil (h : s.Cared) (hnil : s.transports = [])
    (hclosed : ∀ i < s.channelCount, (s.chan i).state = .closed) : s.watcher.events = [] := by
  apply List.eq_nil_iff_forall_not_mem.2
  intro e he
  obtain ⟨k, hk, -⟩ := h.sockets.watched e he
  by_cases hlt : k < s.channelCount
  · rw [(h.tended k hlt).closed (hclosed k hlt)] at hk
    cases hk
  · obtain ⟨b, hb, -⟩ := h.owned k (Nat.le_of_not_lt hlt) (by rw [hk]; exact nofun)
    rw [hnil] at hb
    cases hb

theorem Cared.stopped (h : s.Cared) (henabled : s.enabled .finishStop = true)
    (hclosed : ∀ i < s.channelCount, (s.chan i).state = .closed ∧ (s.chan i).opOpen = false) :
    s.finishStop.Stopped := by
  have hnil := h.toOrderly.transports_of_finishStop henabled
  have hnsched : s.nsched = 0 := by simpa [hnil] using h.pool.nsched
  have hwatched := h.watched_eq_nil hnil fun i hi => (hclosed i hi).1
  rw [h.toOrderly.finishStop_eq henabled]
  refine ⟨hnil, rfl, rfl, hnsched, h.pool.idle hnsched, rfl, hwatched, fun i hi => ?_⟩
  exact ⟨(hclosed i hi).1, (h.tended i hi).closed (hclosed i hi).1, (hclosed i hi).2⟩

/-- A channel with nothing to do has its turn: at most its masks are cleared. -/
theorem visitChannel_of_closed (inetPton : Host → Option Ip)
    (hstate : (s.chan i).state = .closed) (hsock : s.sock i = none)
    (hopen : (s.chan i).opOpen = false) (n : ℕ) (a : ChannelAnswers) :
    ∃ t, (t = s ∨ t = s.cleanupChannel i) ∧
      (s.visitChannel inetPton n i a = { t with channelOps := t.channelOps.eraseIdx n } ∨
        s.visitChannel inetPton n i a = { t with phase := .channels (n + 1) }) := by
  cases hclient : testbits (s.kind i) Ycm.client with
  | true =>
    obtain ⟨t, hturn, ht⟩ := exists_clientTurn inetPton n a hclient
    rw [takeOpen_of_not_opOpen hopen] at hturn
    have heq : t = s := by
      cases hturn with
      | idle hidle => rfl
      | pending hconnecting hready => rfl
      | waits hne hres herror | unresolved hne hres error | noSocket hne hres error
      | refused hne hres fd hfd error | starts hne hres fd hfd | connects hne hres fd hfd
      | completes hne hready | fails hne hready error => cases hstate.symm.trans hne
    refine ⟨t, .inl heq, ?_⟩
    rcases ht with ⟨-, ht⟩ | ⟨-, ht⟩
    · exact .inl ht
    · exact .inr ht
  | false =>
    obtain ⟨t, hturn, ht⟩ := exists_serverTurn inetPton n a hclient
    refine ⟨t, ?_, ht⟩
    have hserver : ∀ {u : Service}, u.sock i = none → ServerTurn i a u t → t = u := by
      intro u hsock hserver
      have hunready : u.ready i { read := true } ≠ true := fun hready => sock_of_ready hready hsock
      cases hserver with
      | closed hne | unready hready => rfl
      | nothing hready | accepts hready fd hfd | lost hready | datagram hready b hfind
      | newPeer hready hfind fd hfd => exact absurd hready hunready
    rcases hturn with heq | ⟨s₁, hmask, hturn⟩
    · exact .inl heq
    · cases hmask with
      | none _ hclose => exact .inl (hserver hsock hturn)
      | closes _ hclose => exact .inr (hserver (Function.update_self _ _ _) hturn)
      | noSocket hopen' | unbound hopen' fd hfd | listens hopen' fd hsocket hfd =>
        cases hopen.symm.trans hopen'

theorem Stopped.cleanupChannel (h : s.Stopped) (hsock : s.sock i = none) :
    (s.cleanupChannel i).Stopped := by
  refine ⟨h.transports, h.transportMap, h.timerQueue, h.nsched, h.schedFreq, h.stopFlag, ?_, ?_⟩
  · change ((s.sock i).elim s.watcher fun fd => s.watcher.modEvent fd .none .readwrite).events = []
    rw [hsock]
    exact h.watched
  · intro j hj
    by_cases hij : j = i
    · subst hij
      simp [Service.cleanupChannel, setChan, closeSock, Sockets.closeSock, IoBase.cleanup]
    · have hchan : (s.cleanupChannel i).chan j = s.chan j := Function.update_of_ne hij _ _
      have hsock' : (s.cleanupChannel i).sock j = s.sock j := Function.update_of_ne hij _ _
      rw [hchan, hsock']
      exact h.channels j hj

end Service

/-- The steps of the thread that runs the service, with those of its dispatch. -/
def Action.ofWorker : Action → Bool
  | .start | .frame _ | .poll _ | .transport _ | .channel _ | .timer _ | .endEvents
  | .beginDispatch _ | .nextEvent | .endEvent | .endDispatch => true
  | _ => false

namespace Service

variable {inetPton : Host → Option Ip} {s t : Service} {i : ℕ}

/-- A step of the worker finds nothing to do. -/
theorem Stopped.effect (inetPton : Host → Option Ip) (h : s.Stopped)
    (hops : ∀ i ∈ s.channelOps, i < s.channelCount)
    {a : Action} (henabled : s.enabled a = true) (hworker : a.ofWorker = true) :
    (s.effect inetPton a).Stopped ∧ (s.effect inetPton a).fired = s.fired ∧
      (s.effect inetPton a).attempts = s.attempts := by
  have hsame : ∀ {t : Service}, t.toPool = s.toPool → t.timerQueue = s.timerQueue →
      t.stopFlag = s.stopFlag → t.watcher.events = s.watcher.events →
      t.channelCount = s.channelCount → t.chan = s.chan → t.sock = s.sock →
      t.fired = s.fired → t.attempts = s.attempts →
      t.Stopped ∧ t.fired = s.fired ∧ t.attempts = s.attempts := by
    intro t hpool htimers hflag hevents hcount hchan hsock hfired hattempts
    refine ⟨?_, hfired, hattempts⟩
    constructor
    · rw [hpool]
      exact h.transports
    · rw [hpool]
      exact h.transportMap
    · rw [htimers]
      exact h.timerQueue
    · rw [hpool]
      exact h.nsched
    · rw [hpool]
      exact h.schedFreq
    · rw [hflag]
      exact h.stopFlag
    · rw [hevents]
      exact h.watched
    · rw [hcount, hchan, hsock]
      exact h.channels
  cases a with
  | start | frame now | endEvents | beginDispatch count | nextEvent | endEvent | endDispatch =>
    exact hsame rfl rfl rfl rfl rfl rfl rfl rfl rfl
  | poll answer => exact hsame rfl rfl rfl rfl rfl rfl rfl rfl rfl
  | transport a =>
    obtain ⟨n, hn, ⟨-, heq⟩ | ⟨b, hb, -⟩⟩ := transport_cases inetPton henabled
    · rw [heq]
      exact hsame rfl rfl rfl rfl rfl rfl rfl rfl rfl
    · rw [h.transports] at hb
      cases hb
  | channel a =>
    obtain ⟨n, hn, ⟨-, heq⟩ | ⟨i, hi, heq⟩⟩ := channel_cases inetPton henabled
    · rw [heq]
      exact hsame rfl rfl rfl rfl rfl rfl rfl rfl rfl
    · obtain ⟨hstate, hsock, hopen⟩ := h.channels i (hops i (List.mem_of_getElem? hi))
      obtain ⟨t, ht, hvisit⟩ := visitChannel_of_closed inetPton hstate hsock hopen n a
      have hstopped : t.Stopped ∧ t.fired = s.fired ∧ t.attempts = s.attempts := by
        rcases ht with rfl | rfl
        · exact ⟨h, rfl, rfl⟩
        · exact ⟨h.cleanupChannel hsock, rfl, rfl⟩
      rw [heq]
      obtain ⟨⟨hlive, hmap, htimers, hsched, hfreq, hflag, hwatched, hchannels⟩, hrest⟩ := hstopped
      rcases hvisit with hvisit | hvisit
      · rw [hvisit]
        exact ⟨⟨hlive, hmap, htimers, hsched, hfreq, hflag, hwatched, hchannels⟩, hrest⟩
      · rw [hvisit]
        exact ⟨⟨hlive, hmap, htimers, hsched, hfreq, hflag, hwatched, hchannels⟩, hrest⟩
  | timer again =>
    obtain ⟨n, hn, heq⟩ := timer_cases inetPton henabled
    have hturn := s.exists_timerTurn n again
    rw [heq]
    generalize s.processTimer n again = t at hturn
    cases hturn with
    | ends timers htimers =>
      refine hsame rfl ?_ rfl rfl rfl rfl rfl rfl rfl
      rcases htimers with rfl | rfl
      · rfl
      · rw [h.timerQueue]
        change List.insertionSort _ s.timerQueue = []
        rw [h.timerQueue]
        rfl
    | userDone m hlast | userAgain m hlast time | late i hlast hexpired hstate
    | timeout i hlast hexpired hstate =>
      rw [h.timerQueue] at hlast
      cases hlast
  | _ => cases hworker

/-- A service with nothing to do, as one that was just constructed, stays so until it is called. -/
theorem Stopped.run (h : s.Stopped) (hs : s.Placed) {as : List Action}
    (hworker : ∀ a ∈ as, a.ofWorker = true) (hrun : Machine.run (step inetPton) as s = some t) :
    t.Stopped ∧ t.fired = s.fired ∧ t.attempts = s.attempts := by
  induction as generalizing s with
  | nil =>
    obtain rfl : s = t := by simpa using hrun
    exact ⟨h, rfl, rfl⟩
  | cons a as ih =>
    obtain ⟨u, hu, hrun⟩ := Machine.run_cons.1 hrun
    obtain ⟨henabled, rfl⟩ := step_eq_some.1 hu
    obtain ⟨hstopped, hfired, hattempts⟩ :=
      h.effect inetPton hs.ops henabled (hworker a List.mem_cons_self)
    obtain ⟨ht, hfired', hattempts'⟩ := ih hstopped (hs.effect henabled)
      (fun a' ha' => hworker a' (List.mem_cons_of_mem a ha')) hrun
    exact ⟨ht, hfired'.trans hfired, hattempts'.trans hattempts⟩

end Service

/-! ## A thread that stops the service -/

/-- How far `do_stop` has come in a thread: it has raised the flag, or it is at this channel of its
loop. -/
inductive StopStage
  | out
  | raised
  | closing (n : ℕ)
  deriving DecidableEq, Repr

/-- A service and a thread that stops it. -/
structure Stopping where
  service : Service
  stage : StopStage := .out

inductive StopAction
  | service (a : Action)
  -- the parts of `do_stop` before `handle_stop`
  | raise
  | test
  | close

namespace Stopping

/-- The parts of `stop` are steps of their own, and `handle_stop` comes after the loop. -/
def admits (g : Stopping) : Action → Bool
  | .stop => false
  | .join | .finishStop => g.stage = .out
  | _ => true

def step (inetPton : Host → Option Ip) (x : StopAction) (g : Stopping) : Option Stopping :=
  let s := g.service
  match x with
  | .service a =>
    if g.admits a then (Yasio.step inetPton a s).map fun t => { g with service := t } else none
  | .raise =>
    if g.stage = .out ∧ s.phase ≠ .idle ∧ ¬ s.stopFlag then
      some { service := { s with stopFlag := true, stops := s.stops + 1 }, stage := .raised }
    else none
  | .test =>
    if g.stage = .raised then some { g with stage := if s.left then .out else .closing 0 }
    else none
  | .close =>
    match g.stage with
    | .closing n =>
      if n < s.channelCount then
        some { service := s.setChan n (s.closedChan n), stage := .closing (n + 1) }
      else some { g with stage := .out }
    | _ => none

def fresh (channelCount : ℕ) (options : Options) (uparams : ℕ → UnpackParams) : Stopping where
  service := .fresh channelCount options uparams

/-- The loop of `do_stop` has not come to channel `i` yet. -/
def toClose (g : Stopping) (i : ℕ) : Bool :=
  match g.stage with
  | .closing n => n ≤ i
  | _ => false

end Stopping

/-- The channels keep their roles and kinds.  When the flag is raised, `process_channels` is still
to come to each channel that resolves, connects, listens or is asked to open; from then on it visits
none that is asked to open, and the last visit of a channel finds the connection made or failed, or
the server asked to close; no poll fails while something is left to be done; and only channels that
the loop of `do_stop` is still to come to are asked to open. -/
def ClosesInTime (g : Stopping) : StopAction → Prop
  | .raise => ∀ i < g.service.channelCount,
      g.service.Unfinished i ∨ (g.service.chan i).opOpen = true → g.service.ToVisit i
  | .service a =>
    (KindKept g.service a ∧ Undisturbed g.service a) ∧
      (g.service.stopFlag = true →
        match a with
        | .channel _ => ∀ i ∈ g.service.channelTurn, (g.service.chan i).opOpen = false ∧
            (g.service.transports ≠ [] ∨ g.service.Concludes i)
        | .poll none => g.service.transports ≠ [] ∨ ∀ i < g.service.channelCount,
            ¬ g.service.Unfinished i ∧
              ((g.service.chan i).opOpen = true → g.toClose i = true)
        | .openMask n => g.toClose (g.service.opening n).1 = true
        | _ => True)
  | _ => True

instance (g : Stopping) (x : StopAction) : Decidable (ClosesInTime g x) := by
  unfold ClosesInTime
  induction x using StopAction.casesOn
  case service a =>
    induction a using Action.casesOn
    case poll answer => cases answer <;> infer_instance
    all_goals infer_instance
  all_goals infer_instance

namespace Stopping

variable {inetPton : Host → Option Ip} {g g' : Stopping}

/-- The invariant.  While the worker is in its loop with the flag raised, it comes to all channels
that are left to be brought to an end; what is asked to open the loop of `do_stop` clears. -/
structure Ending (g : Stopping) : Prop where
  cared : g.service.Cared
  flag : g.service.left = true → g.service.stopFlag = true
  unmixed : ∀ i, g.service.Unmixed i
  unfinished : g.service.stopFlag = true → g.service.left = false →
    ∀ i < g.service.channelCount, g.service.Unfinished i → g.service.ToVisit i
  asked : g.service.stopFlag = true → g.service.left = false →
    ∀ i < g.service.channelCount, (g.service.chan i).opOpen = true →
      g.toClose i = true ∨ g.stage = .raised ∧ g.service.ToVisit i
  ended : g.service.left = true → ∀ i < g.service.channelCount,
    (g.service.chan i).state = .closed ∧ ((g.service.chan i).opOpen = true → g.toClose i = true)

/-- When the worker leaves its loop nothing is left to be visited. -/
theorem Ending.finished_of_leaves (h : g.Ending) {a : Action}
    (henabled : g.service.enabled a = true) (hleaves : g.service.leaves a = true)
    (hcond : ClosesInTime g (.service a)) :
    ∀ i < g.service.channelCount,
      ¬ g.service.Unfinished i ∧ ((g.service.chan i).opOpen = true → g.toClose i = true) := by
  have hnext : g.service.nextPhase = .exiting := by
    unfold Service.leaves at hleaves
    split at hleaves
    · exact of_decide_eq_true hleaves
    · exact of_decide_eq_true hleaves
    · cases hleaves
  obtain ⟨hflag, hnil⟩ : g.service.stopFlag = true ∧ g.service.transports = [] := by
    unfold Service.nextPhase at hnext
    split at hnext
    · next hstop => exact hstop
    · cases hnext
  unfold Service.leaves at hleaves
  split at hleaves
  · -- the end of a turn of the loop, with no transport for another one
    cases hphase : g.service.phase with
    | events dispatched =>
      have hleft : g.service.left = false := by simp [Service.left, hphase]
      have hpast : ∀ i, ¬ g.service.ToVisit i := by
        intro i hvisit
        have hne := hvisit.2
        rw [hphase] at hne
        exact hne hnil
      intro i hi
      have hnot := fun hunfinished => hpast i (h.unfinished hflag hleft i hi hunfinished)
      refine ⟨hnot, fun hopen => ?_⟩
      exact (h.asked hflag hleft i hi hopen).resolve_right fun hraised => hpast i hraised.2
    | _ => simp [Service.enabled, hphase] at henabled
  · exact (hcond.2 hflag).resolve_left (not_not.2 hnil)
  · cases hleaves

/-- The worker, or a call of another thread, before the loop is left. -/
theorem Ending.before (h : g.Ending) {a : Action} (henabled : g.service.enabled a = true)
    (hcond : ClosesInTime g (.service a)) (hflag : g.service.stopFlag = true)
    (hleft : g.service.left = false) {i : ℕ} (hi : i < g.service.channelCount) :
    ((g.service.effect inetPton a).Unfinished i → (g.service.effect inetPton a).ToVisit i) ∧
      (((g.service.effect inetPton a).chan i).opOpen = true →
        g.toClose i = true ∨ g.stage = .raised ∧ (g.service.effect inetPton a).ToVisit i) := by
  obtain ⟨⟨hkind, hundisturbed⟩, hflagged⟩ := hcond
  have hflagged := hflagged hflag
  have hcared : (g.service.effect inetPton a).Cared :=
    h.cared.effect inetPton henabled hkind hundisturbed
  have hi' : i < (g.service.effect inetPton a).channelCount := by
    rw [Service.channelCount_effect]
    exact hi
  by_cases hturn : (∃ b, a = .channel b) ∧ g.service.channelTurn = some i
  · -- its own turn
    obtain ⟨⟨b, rfl⟩, hturn⟩ := hturn
    obtain ⟨hopen, hlast⟩ := hflagged i hturn
    refine ⟨fun hunfinished => ?_, fun hopen' => ?_⟩
    · obtain ⟨n, hn, ⟨hend, -⟩ | ⟨j, hj, heq⟩⟩ := Service.channel_cases inetPton henabled
      · simp [Service.channelTurn, hn, hend] at hturn
      · obtain rfl : j = i := by simpa [Service.channelTurn, hn, hj] using hturn
        have htended := h.cared.tended j hi
        rcases hlast with hne | hconcludes
        · refine .of_transports ((hcared.tended j hi').mem_channelOps hunfinished) ?_
          rw [heq]
          exact Service.transports_ne_nil_visitChannel inetPton hne n b
        · rw [heq] at hunfinished
          exact absurd hunfinished (htended.not_unfinished_visitChannel hopen hconcludes n b)
    · rcases Service.masks_effect inetPton henabled i hopen' with ⟨-, n, hmask, -⟩ | ⟨hopen'', -⟩
      · cases hmask
      · cases hopen.symm.trans hopen''
  · have hturn : ∀ b, a = .channel b → g.service.channelTurn ≠ some i :=
      fun b hb hi => hturn ⟨⟨b, hb⟩, hi⟩
    refine ⟨fun hunfinished => ?_, fun hopen => ?_⟩
    · have hbefore := hunfinished.of_effect henabled hundisturbed hturn
      have hvisit := h.unfinished hflag hleft i hi hbefore
      exact hvisit.effect henabled hturn
    · rcases Service.masks_effect inetPton henabled i hopen with ⟨-, n, rfl, rfl⟩ | ⟨hopen', -⟩
      · exact .inl hflagged
      · refine (h.asked hflag hleft i hi hopen').imp_right fun hraised => ⟨hraised.1, ?_⟩
        exact hraised.2.effect henabled hturn

/-- A step of the service. -/
theorem Ending.service (h : g.Ending) {a : Action} (hstop : a ≠ .stop)
    (henabled : g.service.enabled a = true) (hcond : ClosesInTime g (.service a)) :
    ({ g with service := g.service.effect inetPton a } : Stopping).Ending := by
  have hcared := h.cared.effect inetPton henabled hcond.1.1 hcond.1.2
  have hunmixed : ∀ i, (g.service.effect inetPton a).Unmixed i :=
    fun i => (h.unmixed i).effect henabled
  by_cases hfinish : a = .finishStop
  · subst hfinish
    obtain ⟨io, sockets, heq⟩ := g.service.exists_clearTransports
    have hflag : (g.service.effect inetPton .finishStop).stopFlag = false := by
      dsimp only [Service.effect, Service.finishStop]
    have hphase : (g.service.effect inetPton .finishStop).phase = .idle := by
      dsimp only [Service.effect, Service.finishStop]
    have hleft : (g.service.effect inetPton .finishStop).left = false := by
      simp [Service.left, hphase]
    refine ⟨hcared, fun hout => ?_, hunmixed, fun hraised => ?_, fun hraised => ?_, fun hout => ?_⟩
    · cases hleft.symm.trans hout
    · cases hflag.symm.trans hraised
    · cases hflag.symm.trans hraised
    · cases hleft.symm.trans hout
  have hflag := Service.stopFlag_effect inetPton henabled hstop hfinish
  have hstays : g.service.left = true → (g.service.effect inetPton a).left = true :=
    Service.left_effect henabled hfinish
  have hbefore : (g.service.effect inetPton a).stopFlag = true →
      (g.service.effect inetPton a).left = false →
        g.service.stopFlag = true ∧ g.service.left = false := by
    intro hraised hleft
    refine ⟨hflag.symm.trans hraised, ?_⟩
    cases hleft' : g.service.left with
    | false => rfl
    | true => cases hleft.symm.trans (hstays hleft')
  refine ⟨hcared, fun hleft => ?_, hunmixed, fun hraised hleft i hi => ?_,
    fun hraised hleft i hi => ?_, fun hleft i hi => ?_⟩
  · rw [hflag]
    rcases Service.leaves_or_left henabled hleft with hleaves | hleft'
    · exact Service.stopFlag_of_leaves hleaves
    · exact h.flag hleft'
  · obtain ⟨hraised, hleft⟩ := hbefore hraised hleft
    rw [Service.channelCount_effect] at hi
    exact (h.before henabled hcond hraised hleft hi).1
  · obtain ⟨hraised, hleft⟩ := hbefore hraised hleft
    rw [Service.channelCount_effect] at hi
    exact (h.before henabled hcond hraised hleft hi).2
  · rw [Service.channelCount_effect] at hi
    by_cases hleft' : g.service.left = true
    · obtain ⟨hclosed, hopens⟩ := h.ended hleft' i hi
      have hturn : ∀ b, a = .channel b → g.service.channelTurn ≠ some i := by
        rintro b rfl
        obtain ⟨n, hn, -⟩ := Service.channel_cases inetPton henabled
        simp [Service.left, hn] at hleft'
      refine ⟨?_, fun hopen => ?_⟩
      · rcases Service.state_effect inetPton henabled hturn with hstate | hstate
        · exact hstate.trans hclosed
        · exact hstate
      · rcases Service.masks_effect inetPton henabled i hopen with ⟨-, n, rfl, rfl⟩ | ⟨hopen', -⟩
        · exact hcond.2 (h.flag hleft')
        · exact hopens hopen'
    · have hleaves := (Service.leaves_or_left henabled hleft).resolve_right hleft'
      obtain ⟨hfinished, hopens⟩ := h.finished_of_leaves henabled hleaves hcond i hi
      have hnil := (Service.transports_of_leaves inetPton hleaves).1
      have hclosed := h.cared.closed_of_finished hnil hi hfinished
      have hchan : (g.service.effect inetPton a).chan = g.service.chan := by
        unfold Service.leaves at hleaves
        split at hleaves
        · rfl
        · rfl
        · cases hleaves
      dsimp only
      rw [hchan]
      exact ⟨hclosed, hopens⟩

/-- The flag is raised. -/
theorem Ending.raise (h : g.Ending) (hflag : g.service.stopFlag = false)
    (hcond : ClosesInTime g .raise) :
    ({ service := { g.service with stopFlag := true, stops := g.service.stops + 1 }
       stage := .raised } : Stopping).Ending := by
  have hcared := h.cared
  have hleft : g.service.left = false := by
    cases hleft : g.service.left with
    | false => rfl
    | true => cases hflag.symm.trans (h.flag hleft)
  refine ⟨?_, fun _ => rfl, h.unmixed, fun _ _ i hi hunfinished => hcond i hi (.inl hunfinished),
    fun _ _ i hi hopen => .inr ⟨rfl, hcond i hi (.inr hopen)⟩, fun hout => ?_⟩
  · have hord : ({ g.service with stopFlag := true, stops := g.service.stops + 1 } :
        Service).Orderly := ⟨hcared.sound, hcared.exited⟩
    refine ⟨hcared.toPlaced.of_same hord .refl rfl rfl rfl rfl rfl, hcared.fits, hcared.pool,
      hcared.owned, fun i hi => ?_⟩
    exact (hcared.tended i hi).of_same rfl (fun _ => rfl) rfl id (fun _ _ _ => id) id
  · cases hleft.symm.trans hout

/-- `do_stop` tests the state of the service. -/
theorem Ending.test (h : g.Ending) (hstage : g.stage = .raised) :
    ({ g with stage := if g.service.left then .out else .closing 0 } : Stopping).Ending := by
  have hraised : ∀ i, g.toClose i = false := fun i => by simp [toClose, hstage]
  refine ⟨h.cared, h.flag, h.unmixed, h.unfinished, fun _ hleft i _ _ => .inl ?_,
    fun hleft i hi => ?_⟩
  · have hleft : g.service.left = false := hleft
    simp [toClose, hleft]
  · obtain ⟨hclosed, hopens⟩ := h.ended hleft i hi
    exact ⟨hclosed, fun hopen => by cases (hraised i).symm.trans (hopens hopen)⟩

/-- The loop of `do_stop` closes a channel. -/
theorem Ending.close (h : g.Ending) {n : ℕ} (hstage : g.stage = .closing n)
    (hn : n < g.service.channelCount) :
    ({ service := g.service.setChan n (g.service.closedChan n)
       stage := .closing (n + 1) } : Stopping).Ending := by
  have henabled : g.service.enabled (.closeChannel n) = true := decide_eq_true hn
  let g' : Stopping :=
    { service := g.service.setChan n (g.service.closedChan n), stage := .closing (n + 1) }
  have hself : g'.service.chan n = g.service.closedChan n := Function.update_self _ _ _
  have hother : ∀ i, i ≠ n → g'.service.chan i = g.service.chan i :=
    fun i hi => Function.update_of_ne hi _ _
  have hstate : ∀ i, (g'.service.chan i).state = (g.service.chan i).state := by
    intro i
    by_cases hi : i = n
    · rw [hi, hself, Service.state_closedChan]
    · rw [hother i hi]
  -- the channel itself is not asked to open any more
  have hopen : ∀ i, (g'.service.chan i).opOpen = true →
      i ≠ n ∧ (g.service.chan i).opOpen = true := by
    intro i hopen
    by_cases hi : i = n
    · rw [hi, hself] at hopen
      unfold Service.closedChan at hopen
      split at hopen
      · next hclose => cases (h.unmixed n hopen).symm.trans hclose
      · cases hopen
    · rw [hother i hi] at hopen
      exact ⟨hi, hopen⟩
  have htoClose : ∀ i, i ≠ n → g.toClose i = true → g'.toClose i = true := by
    intro i hi hclose
    simp only [toClose, hstage, decide_eq_true_eq] at hclose
    exact decide_eq_true (Nat.lt_of_le_of_ne hclose (Ne.symm hi))
  have hunfinished : ∀ i, g'.service.Unfinished i → g.service.Unfinished i := by
    intro i
    unfold Service.Unfinished
    rw [hstate i]
    exact id
  have hunmixed : ∀ i, (g.service.effect (fun _ => none) (.closeChannel n)).Unmixed i :=
    fun i => (h.unmixed i).effect henabled
  refine ⟨h.cared.effect (fun _ => none) henabled trivial trivial, h.flag, hunmixed,
    fun hflag hleft i hi => ?_, fun hflag hleft i hi hopen' => ?_,
    fun hleft i hi => ⟨?_, fun hopen' => ?_⟩⟩
  · exact fun hleft' => h.unfinished hflag hleft i hi (hunfinished i hleft')
  · obtain ⟨hne, hopen⟩ := hopen i hopen'
    rcases h.asked hflag hleft i hi hopen with hclose | ⟨hraised, -⟩
    · exact .inl (htoClose i hne hclose)
    · cases hstage.symm.trans hraised
  · exact (hstate i).trans (h.ended hleft i hi).1
  · obtain ⟨hne, hopen⟩ := hopen i hopen'
    exact htoClose i hne ((h.ended hleft i hi).2 hopen)

/-- The loop of `do_stop` is over. -/
theorem Ending.endClosing (h : g.Ending) {n : ℕ} (hstage : g.stage = .closing n)
    (hn : ¬ n < g.service.channelCount) : ({ g with stage := .out } : Stopping).Ending := by
  have hnone : ∀ i < g.service.channelCount, g.toClose i ≠ true := by
    intro i hi hclose
    simp only [toClose, hstage, decide_eq_true_eq] at hclose
    exact hn (Nat.lt_of_le_of_lt hclose hi)
  refine ⟨h.cared, h.flag, h.unmixed, h.unfinished, fun hflag hleft i hi hopen => ?_,
    fun hleft i hi => ?_⟩
  · rcases h.asked hflag hleft i hi hopen with hclose | ⟨hraised, -⟩
    · exact absurd hclose (hnone i hi)
    · cases hstage.symm.trans hraised
  · obtain ⟨hclosed, hopens⟩ := h.ended hleft i hi
    exact ⟨hclosed, fun hopen => absurd (hopens hopen) (hnone i hi)⟩

theorem Ending.step (h : g.Ending) {x : StopAction} (hcond : ClosesInTime g x)
    (hstep : step inetPton x g = some g') : g'.Ending := by
  cases x with
  | service a =>
    dsimp only [Stopping.step] at hstep
    split at hstep
    · next hadmits =>
      obtain ⟨s, hs, rfl⟩ := Option.map_eq_some_iff.1 hstep
      obtain ⟨henabled, rfl⟩ := step_eq_some.1 hs
      refine h.service ?_ henabled hcond
      rintro rfl
      cases hadmits
    · cases hstep
  | raise =>
    dsimp only [Stopping.step] at hstep
    split at hstep
    · next hraise =>
      obtain rfl := Option.some.inj hstep
      exact h.raise (by simpa using hraise.2.2) hcond
    · cases hstep
  | test =>
    dsimp only [Stopping.step] at hstep
    split at hstep
    · next hstage =>
      obtain rfl := Option.some.inj hstep
      exact h.test hstage
    · cases hstep
  | close =>
    dsimp only [Stopping.step] at hstep
    split at hstep
    · next n hstage =>
      split at hstep
      · next hn =>
        obtain rfl := Option.some.inj hstep
        exact h.close hstage hn
      · next hn =>
        obtain rfl := Option.some.inj hstep
        exact h.endClosing hstage hn
    · cases hstep

theorem ending_fresh (channelCount : ℕ) (options : Options) (uparams : ℕ → UnpackParams) :
    (fresh channelCount options uparams).Ending :=
  ⟨Service.cared_fresh channelCount options uparams, nofun, nofun, nofun, nofun, nofun⟩

/-- `do_stop` on a service with one channel, up to the wait for the worker. -/
def stopOne : List StopAction := [.raise, .test, .close, .close]

/-- Channel 0 is connected and channel 1 listens when the flag is raised in the poll; the loop of
`do_stop` is through before the worker visits the channels. -/
def stopConnected : List StopAction :=
  (connectFirst ++
      ([.openKind 1 Yck.tcpServer, .openTest 0, .openMask 0, .openInsert 0, .frame 2,
        .poll (some fun _ => {}), .transport {}, .transport {}, .channel { socket := .ok 6 },
        .channel {}, .timer none, .endEvents, .frame 3] : List Action)).map .service ++
    [.raise, .test, .close, .service (.poll (some fun _ => {})), .service (.transport {}), .close,
      .close] ++
    [.transport {}, .channel {}, .channel {}, .timer none, .endEvents, .join, .nextEvent,
      .endEvent, .nextEvent, .endEvent, .endDispatch].map .service

/-- Channel 0 is still connecting when the service is stopped. -/
def stopConnecting : List StopAction :=
  [.start, .setHost 0 ['a'], .setPort 0 80, .openKind 0 Yck.tcpClient, .openTest 0, .openMask 0,
      .openInsert 0, .frame 1, .poll (some fun _ => {}), .transport {},
      .channel { socket := .ok 5, connect := some 115 }, .channel {}, .timer none,
      .endEvents].map .service ++ stopOne ++
    [.frame 2, .poll (some fun _ => {}), .transport {}, .channel {}, .channel {}, .timer none,
      .endEvents, .join, .finishStop].map .service

end Stopping

end Yasio
