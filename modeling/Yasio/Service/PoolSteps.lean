import Yasio.Service.ChannelTurn

/-!
# Steps of the service on the pool

Every step of the service is on the pool of transports one of five operations or none.
-/

namespace Yasio

open Function (update)

/-- What a step of the service does to the pool, when `kind` gives the kinds of the channels. -/
inductive PoolStep (kind : ℕ → ℕ) (p : Pool) : Pool → Prop
  | keep : PoolStep kind p p
  | connect (built : Built) (hkind : built.kind = kind built.ctx)
      (hcls : built.cls = .ofKind built.kind) : PoolStep kind p (p.connect built)
  | register (built : Built) (hkind : built.kind = kind built.ctx)
      (hcls : built.cls = .ofKind built.kind) (peer : Endpoint)
      (hfind : p.transportMap.find peer = none)
      (hclient : testbits built.kind Ycm.client = false) :
      PoolStep kind p ((p.connect built).register peer p.freshBlock)
  | release (n : ℕ) (b : Block) (hb : p.transports[n]? = some b) (remote : Endpoint) :
      PoolStep kind p (p.release n b (kind (p.built b).ctx) remote)
  | clear (hnil : p.transports = []) : PoolStep kind p p.clear

theorem PoolStep.sound {kind : ℕ → ℕ} {p p' : Pool} (h : PoolStep kind p p') (hp : p.Sound) :
    p'.Sound := by
  cases h with
  | keep => exact hp
  | connect built hkind hcls => exact hp.connect built
  | register built hkind hcls peer hfind hclient =>
    exact ⟨(hp.connect built).nodup, (hp.connect built).lt⟩
  | release n b hb remote => exact hp.release hb _ _
  | clear hnil => exact hp.clear

/-! ## Transports -/

theorem Touched.sock_eq {b : Block} {s s' : Service} (h : Touched b s s') : s'.sock = s.sock :=
  h.sockets (fun t => t.sock = s.sock) (fun _ _ _ _ ht => ht) rfl

theorem Touched.sockPeer_eq {b : Block} {s s' : Service} (h : Touched b s s') :
    s'.sockPeer = s.sockPeer :=
  h.sockets (fun t => t.sockPeer = s.sockPeer) (fun _ _ _ _ ht => ht) rfl

theorem Settled.remoteEndpoint_eq {b : Block} {s s' : Service} (h : Settled b s s') (tail : ℕ) :
    s'.remoteEndpoint b tail = s.remoteEndpoint b tail := by
  unfold Service.remoteEndpoint
  rw [h.udp, h.sock_eq, h.sockPeer_eq, show s'.built = s.built from congrArg Pool.built h.pool]

namespace Service

variable {s : Service} {inetPton : Host → Option Ip}

/-- The announcement of a loss, if there was one of the connection. -/
def closeEvents (s : Service) (b : Block) : List Event :=
  if (s.io b).state = .opened then [s.transportEvent b .onClose (s.io b).error] else []

/-- All that the closing of a transport changes. -/
theorem exists_dropTransport (s : Service) (n : ℕ) (b : Block) (tail : ℕ) :
    ∃ chan io sockets, s.dropTransport n b tail =
        { s.fireEvents (s.closeEvents b) with
          toPool := s.toPool.release n b (s.kind (s.built b).ctx) (s.remoteEndpoint b tail)
          chan
          io
          tx := update s.tx b {}
          toSockets := sockets } ∧
      ∀ j, j ≠ (s.built b).ctx → chan j = s.chan j := by
  unfold dropTransport handleClose
  dsimp only
  split
  · refine ⟨_, _, _, rfl, fun j hj => ?_⟩
    exact (Function.update_of_ne hj _ _).trans (Function.update_of_ne hj _ _)
  · exact ⟨s.chan, _, _, rfl, fun _ _ => rfl⟩

/-- A turn of the loop keeps the pool or releases the transport. -/
theorem toPool_visitTransport (n : ℕ) (b : Block) (a : TransportAnswers) :
    (s.visitTransport n b a).toPool = s.toPool ∨
      (s.visitTransport n b a).toPool =
        s.toPool.release n b (s.kind (s.built b).ctx)
          ((s.atRead b a).remoteEndpoint b a.tail) := by
  obtain ⟨s', hs, hend⟩ := s.exists_turnEnd (b := b) n a
  have htouched := (s.touched_atRead (b := b) a).trans hs.toTouched
  generalize s.visitTransport n b a = t at hend
  cases hend with
  | thrown => exact .inl htouched.pool
  | kept h => exact .inl htouched.pool
  | dropped =>
    right
    obtain ⟨chan, io, sockets, heq, -⟩ := s'.exists_dropTransport n b a.tail
    rw [heq, htouched.pool, hs.remoteEndpoint_eq,
      show s'.kind = s.kind from congrArg Channels.kind htouched.channels]

theorem kind_visitTransport (n : ℕ) (b : Block) (a : TransportAnswers) :
    (s.visitTransport n b a).kind = s.kind := by
  obtain ⟨s', hs, hend⟩ := s.exists_turnEnd (b := b) n a
  have htouched := (s.touched_atRead (b := b) a).trans hs.toTouched
  have hkind : s'.kind = s.kind := congrArg Channels.kind htouched.channels
  generalize s.visitTransport n b a = t at hend
  cases hend with
  | thrown => exact hkind
  | kept h => exact hkind
  | dropped =>
    obtain ⟨chan, io, sockets, heq, -⟩ := s'.exists_dropTransport n b a.tail
    rw [heq]
    exact hkind

theorem channelCount_visitTransport (n : ℕ) (b : Block) (a : TransportAnswers) :
    (s.visitTransport n b a).channelCount = s.channelCount := by
  obtain ⟨s', hs, hend⟩ := s.exists_turnEnd (b := b) n a
  have htouched := (s.touched_atRead (b := b) a).trans hs.toTouched
  have hcount : s'.channelCount = s.channelCount := congrArg Channels.channelCount htouched.channels
  generalize s.visitTransport n b a = t at hend
  cases hend with
  | thrown => exact hcount
  | kept h => exact hcount
  | dropped =>
    obtain ⟨chan, io, sockets, heq, -⟩ := s'.exists_dropTransport n b a.tail
    rw [heq]
    exact hcount

/-! ## Channels -/

/-- A turn of the loop keeps the pool, connects, or connects and registers a peer. -/
theorem toPool_visitChannel (inetPton : Host → Option Ip) (n i : ℕ) (a : ChannelAnswers) :
    (s.visitChannel inetPton n i a).toPool = s.toPool ∨
      ∃ built : Built, (built.ctx = i ∧ built.kind = s.kind i ∧ built.cls = .ofKind (s.kind i)) ∧
        ((s.visitChannel inetPton n i a).toPool = s.toPool.connect built ∨
          s.transportMap.find a.peer = none ∧ s.takesDatagram i a = true ∧
            (s.visitChannel inetPton n i a).toPool =
              (s.toPool.connect built).register a.peer s.freshBlock) := by
  obtain ⟨t, hturn, ht⟩ := s.exists_channelTurn inetPton n i a
  have htpool : (s.visitChannel inetPton n i a).toPool = t.toPool := by
    rcases ht with ht | ht <;> rw [ht]
  rw [htpool]
  exact hturn.pool

theorem kind_visitChannel {n i : ℕ} {a : ChannelAnswers} :
    (s.visitChannel inetPton n i a).kind = s.kind := by
  obtain ⟨t, hturn, ht⟩ := s.exists_channelTurn inetPton n i a
  rw [← hturn.frame.kind]
  rcases ht with ht | ht <;> rw [ht]

/-! ## The other steps -/

/-- `clear_transports` is one more operation on the pool; the rest of it is on the transports. -/
theorem exists_clearTransports :
    ∃ io sockets, s.clearTransports =
      { s with toPool := s.toPool.clear, io, toSockets := sockets } := by
  have h : ∀ (l : List Block) (t : Service), ∃ io sockets,
      l.foldl (fun s b => { s.cleanupTransport b with tpool := b :: s.tpool }) t =
        { t with tpool := l.reverse ++ t.tpool, io, toSockets := sockets } := by
    intro l
    induction l with
    | nil => exact fun t => ⟨t.io, t.toSockets, rfl⟩
    | cons b l ih =>
      intro t
      obtain ⟨io, sockets, heq⟩ := ih { t.cleanupTransport b with tpool := b :: t.tpool }
      refine ⟨io, sockets, ?_⟩
      rw [List.foldl_cons, heq, List.reverse_cons, List.append_assoc]
      rfl
  obtain ⟨io, sockets, heq⟩ := h s.transports { s with transportMap := [] }
  refine ⟨io, sockets, ?_⟩
  unfold clearTransports
  rw [heq]
  rfl

/-- A turn of the loop of `process_timers` moves the timers, and may fail a connect. -/
theorem exists_processTimer (inetPton : Host → Option Ip) (n : ℕ) (again : Option ℕ) :
    ∃ i t phase, Quiet inetPton i s t ∧
      (phase = s.phase ∨ phase = .timers (n + 1) ∨ phase = .events false) ∧
        s.processTimer n again = { t with phase } := by
  have htimers : ∀ timers : Timers, Quiet inetPton 0 s { s with toTimers := timers } :=
    fun timers => .single (.timers s timers)
  have hend : ∃ t, Quiet inetPton 0 s t ∧
      s.endTimers n = { t with phase := .events false } := by
    unfold endTimers
    split
    · exact ⟨_, htimers s.sortTimers.toTimers, rfl⟩
    · exact ⟨_, .refl, rfl⟩
  obtain ⟨t', ht', heq⟩ := hend
  unfold processTimer fireTimer
  dsimp only
  split
  · split
    · split
      · next i _ _ =>
        split
        · let s₁ : Service := { s with timerQueue := s.timerQueue.dropLast }
          have hquiet : Quiet inetPton i s (s₁.handleConnectFailed i ETIMEDOUT) :=
            .trans (.single (.timers s s₁.toTimers)) (quiet_handleConnectFailed _)
          exact ⟨i, _, s.phase, hquiet.tail (.note _ s.armed
            (s.timeouts ++ [⟨i, (s.chan i).state, s.gen i, s.expireTime (.connect i),
              s.currentTime⟩])), .inl rfl, rfl⟩
        · exact ⟨i, { s with timerQueue := s.timerQueue.dropLast }, s.phase,
            .single (.timers s _), .inl rfl, rfl⟩
      · next m _ _ =>
        split
        · exact ⟨0, { s with timerQueue := s.timerQueue.dropLast }, s.phase, htimers _,
            .inl rfl, rfl⟩
        · next time =>
          exact ⟨0,
            { s with
              timerQueue := s.timerQueue.dropLast ++ [.user m]
              expireTime := update s.expireTime (.user m) time },
            .timers (n + 1), htimers _, .inr (.inl rfl), rfl⟩
    · exact ⟨0, t', _, ht', .inr (.inr rfl), heq⟩
  · exact ⟨0, t', _, ht', .inr (.inr rfl), heq⟩

theorem toPool_udpConnect (b : Block) (ok : Bool) : (s.udpConnect b ok).toPool = s.toPool := by
  obtain ⟨udp, sockPeer, heq, -⟩ := s.exists_udpConnect b ok
  rw [heq]

theorem kind_udpConnect (b : Block) (ok : Bool) : (s.udpConnect b ok).kind = s.kind := by
  obtain ⟨udp, sockPeer, heq, -⟩ := s.exists_udpConnect b ok
  rw [heq]

/-- Taking the queue over leaves the order of the events. -/
theorem deal_beginDispatch (count : ℕ) :
    (s.beginDispatch count).deal ++ (s.beginDispatch count).queue = s.deal ++ s.queue := by
  unfold beginDispatch
  dsimp only
  split
  · next hdeal => rw [hdeal, List.append_nil, List.nil_append]
  · rfl

/-- The beginning of a dispatch is all that `handle_stop` does first. -/
theorem exists_join (s : Service) :
    ∃ events : Events, s.join = { s with toEvents := events, phase := .stopping } ∧
      events.deal ++ events.queue = s.deal ++ s.queue ∧ events.handling = s.handling := by
  unfold join
  split
  · exact ⟨s.toEvents, rfl, rfl, rfl⟩
  · exact ⟨(s.beginDispatch (2 ^ 31 - 1)).toEvents, rfl, deal_beginDispatch _, rfl⟩

/-- The steps that leave the pool alone. -/
theorem toPool_effect (inetPton : Host → Option Ip) (a : Action) :
    match a with
    | .transport _ | .channel _ | .finishStop => True
    | _ => (s.effect inetPton a).toPool = s.toPool := by
  cases a with
  | transport a => trivial
  | channel a => trivial
  | finishStop => trivial
  | timer again =>
    dsimp only [effect]
    split
    · obtain ⟨i, t, phase, ht, -, heq⟩ := s.exists_processTimer inetPton _ again
      rw [heq]
      exact ht.frame.pool
    · rfl
  | answer n result => cases result <;> rfl
  | udpConnect b ok => exact toPool_udpConnect b ok
  | cancelTimer n =>
    obtain ⟨timers, heq⟩ := s.exists_cancelTimer (.user n)
    dsimp only [effect]
    rw [heq]
  | join =>
    obtain ⟨events, heq, -⟩ := s.exists_join
    dsimp only [effect]
    rw [heq]
  | _ => rfl

/-! ### The three loops of a frame -/

theorem transport_cases (inetPton : Host → Option Ip) {a : TransportAnswers}
    (h : s.enabled (.transport a) = true) :
    ∃ n, s.phase = .transports n ∧
      (s.transports[n]? = none ∧ s.effect inetPton (.transport a) = s.endTransports ∨
        ∃ b, s.transports[n]? = some b ∧
          s.effect inetPton (.transport a) = s.visitTransport n b a) := by
  unfold enabled at h
  dsimp only at h
  split at h
  · next n hn =>
    refine ⟨n, hn, ?_⟩
    simp only [effect, hn]
    cases s.transports[n]? with
    | none => exact .inl ⟨rfl, rfl⟩
    | some b => exact .inr ⟨b, rfl, rfl⟩
  · cases h

theorem channel_cases (inetPton : Host → Option Ip) {a : ChannelAnswers}
    (h : s.enabled (.channel a) = true) :
    ∃ n, s.phase = .channels n ∧
      (s.channelOps[n]? = none ∧ s.effect inetPton (.channel a) = { s with phase := .timers 0 } ∨
        ∃ i, s.channelOps[n]? = some i ∧
          s.effect inetPton (.channel a) = s.visitChannel inetPton n i a) := by
  unfold enabled opsLocked at h
  dsimp only at h
  split at h
  · next n hn =>
    refine ⟨n, hn, ?_⟩
    simp only [effect, hn]
    cases s.channelOps[n]? with
    | none => exact .inl ⟨rfl, rfl⟩
    | some i => exact .inr ⟨i, rfl, rfl⟩
  · cases h

theorem timer_cases (inetPton : Host → Option Ip) {again : Option ℕ}
    (h : s.enabled (.timer again) = true) :
    ∃ n, s.phase = .timers n ∧ s.effect inetPton (.timer again) = s.processTimer n again := by
  unfold enabled at h
  dsimp only at h
  split at h
  · next n hn => exact ⟨n, hn, by simp only [effect, hn]⟩
  · cases h

/-- The transport whose turn it is in `process_transports`. -/
def transportTurn (s : Service) : Option (ℕ × Block) :=
  match s.phase with
  | .transports n => s.transports[n]?.map fun b => (n, b)
  | _ => none

/-- The channel whose turn it is in `process_channels`. -/
def channelTurn (s : Service) : Option ℕ :=
  match s.phase with
  | .channels n => s.channelOps[n]?
  | _ => none

theorem mem_transportTurn {n : ℕ} {b : Block} (hn : s.phase = .transports n)
    (hb : s.transports[n]? = some b) : (n, b) ∈ s.transportTurn := by
  simp [transportTurn, hn, hb]

theorem mem_channelTurn {n i : ℕ} (hn : s.phase = .channels n)
    (hi : s.channelOps[n]? = some i) : i ∈ s.channelTurn := by
  simp [channelTurn, hn, hi]

theorem drop_eraseIdx (ops : List ℕ) (n : ℕ) : (ops.eraseIdx n).drop n = ops.drop (n + 1) := by
  induction n generalizing ops with
  | zero => cases ops <;> rfl
  | succ n ih =>
    cases ops with
    | nil => rfl
    | cons j ops => exact ih ops

theorem state_closedChan (s : Service) (j : ℕ) : (s.closedChan j).state = (s.chan j).state := by
  unfold closedChan
  split <;> rfl

theorem state_setChan {s : Service} {j : ℕ} {base : IoBase} (h : base.state = (s.chan j).state)
    (i : ℕ) : ((s.setChan j base).chan i).state = (s.chan i).state := by
  change (update s.chan j base i).state = _
  by_cases hi : i = j
  · subst hi
    rw [Function.update_self, h]
  · rw [Function.update_of_ne hi]

theorem state_openMask (s : Service) (n i : ℕ) :
    ((s.openMask n).chan i).state = (s.chan i).state := by
  change ((s.setChan (s.opening n).1 _).chan i).state = _
  apply state_setChan
  rfl

theorem state_storeAnswer (s : Service) (n : ℕ) (result : Except ℕ (List Endpoint × ℕ)) (i : ℕ) :
    ((s.storeAnswer n result).chan i).state = (s.chan i).state := by
  cases result with
  | ok answer => rfl
  | error error =>
    change ((s.setChan (s.query n).channel _).chan i).state = _
    apply state_setChan
    rfl

theorem state_stop (s : Service) (i : ℕ) : (s.stop.chan i).state = (s.chan i).state := by
  change (if s.stopFlag ∨ s.phase = .exiting ∨ s.phase = .stopping ∨ s.channelCount ≤ i
    then s.chan i else s.closedChan i).state = _
  split
  · rfl
  · exact s.state_closedChan i

theorem error_closedChan (s : Service) (j : ℕ) : (s.closedChan j).error = (s.chan j).error := by
  unfold closedChan
  split <;> rfl

/-- The turn of the transport `b` closes it. -/
def closes (s : Service) (n : ℕ) (b : Block) (a : TransportAnswers) : Bool :=
  (s.visitTransport n b a).transports ≠ s.transports

theorem closes_dropTransport {t : Service} {n : ℕ} {b : Block} {a : TransportAnswers}
    (hb : s.transports[n]? = some b)
    (htransports : t.transports = s.transports)
    (hvisit : s.visitTransport n b a = t.dropTransport n b a.tail) : s.closes n b a = true := by
  have hn := (List.getElem?_eq_some_iff.1 hb).1
  unfold closes
  rw [hvisit]
  refine decide_eq_true fun heq => ?_
  have hlen := congrArg List.length heq
  change (t.transports.eraseIdx n).length = _ at hlen
  rw [htransports, List.length_eraseIdx_of_lt hn] at hlen
  omega

/-- The service thread has left its loop, and the service is not idle yet. -/
def left (s : Service) : Bool := s.phase = .exiting || s.phase = .stopping

/-- A stopping service leaves its loop when no transport lives. -/
def Exited (s : Service) : Prop := s.left = true → s.transports = []

theorem phase_visitTransport (n : ℕ) (b : Block) (a : TransportAnswers) :
    (s.visitTransport n b a).phase = .terminated ∨
      (s.visitTransport n b a).phase = .transports (n + 1) ∨
        (s.visitTransport n b a).phase = s.phase := by
  obtain ⟨s', hs, hend⟩ := s.exists_turnEnd (b := b) n a
  have hphase : s'.phase = s.phase := by
    rw [show s'.phase = s'.toLoop.phase from rfl,
      ((s.touched_atRead (b := b) a).trans hs.toTouched).loop]
  generalize s.visitTransport n b a = t at hend
  cases hend with
  | thrown => exact .inl rfl
  | kept h => exact .inr (.inl rfl)
  | dropped =>
    right; right
    obtain ⟨chan, io, sockets, heq, -⟩ := s'.exists_dropTransport n b a.tail
    rw [heq]
    exact hphase

theorem phase_visitChannel (n i : ℕ) (a : ChannelAnswers) :
    (s.visitChannel inetPton n i a).phase = s.phase ∨
      (s.visitChannel inetPton n i a).phase = .channels (n + 1) := by
  obtain ⟨t, hturn, ht⟩ := s.exists_channelTurn inetPton n i a
  rcases ht with ht | ht
  · left
    rw [ht, ← hturn.frame.phase]
  · right
    rw [ht]

theorem left_of_phase {phase : Phase} (h : s.phase = phase) :
    s.left = (phase = .exiting || phase = .stopping) := by
  rw [left, h]

/-- The worker leaves its loop with the step. -/
def leaves (s : Service) : Action → Bool
  | .endEvents | .poll none => s.nextPhase = .exiting
  | _ => false

/-- Only the test at the end of a turn leads out of the loop. -/
theorem leaves_or_left {a : Action} (henabled : s.enabled a = true)
    (hleft : (s.effect inetPton a).left = true) : s.leaves a = true ∨ s.left = true := by
  -- A step that goes on to another phase of the loop has not left it.
  have hnever : ∀ {t : Service} {phase : Phase}, t.phase = phase → phase ≠ .exiting →
      phase ≠ .stopping → t.left = true → s.leaves a = true ∨ s.left = true := by
    intro t phase hphase hne hne' hleft
    rw [left_of_phase hphase] at hleft
    simp [hne, hne'] at hleft
  -- The test itself.
  have hnext : ∀ {t : Service}, t.phase = s.nextPhase → t.left = true → s.nextPhase = .exiting := by
    intro t hphase hleft
    rw [left_of_phase hphase] at hleft
    unfold nextPhase at hleft ⊢
    split at hleft
    · next hstop => exact if_pos hstop
    · cases hleft
  cases a with
  | start => exact hnever (t := { s with phase := .top }) rfl nofun nofun hleft
  | frame now =>
    have hphase : (s.beginFrame now).phase =
        if 0 < s.getTimeout now then .polling else .transports 0 := rfl
    split at hphase
    · exact hnever hphase nofun nofun hleft
    · exact hnever hphase nofun nofun hleft
  | poll answer =>
    cases answer with
    | some answer => exact hnever (t := s.poll (some answer)) rfl nofun nofun hleft
    | none => exact .inl (decide_eq_true (hnext (t := s.poll none) rfl hleft))
  | transport a =>
    obtain ⟨n, hn, ⟨-, heq⟩ | ⟨b, -, heq⟩⟩ := transport_cases inetPton henabled
    · rw [heq] at hleft
      have hphase : s.endTransports.phase = if s.channelOps = [] then .timers 0 else .channels 0 :=
        rfl
      split at hphase
      · exact hnever hphase nofun nofun hleft
      · exact hnever hphase nofun nofun hleft
    · rw [heq] at hleft
      rcases s.phase_visitTransport n b a with h | h | h
      · exact hnever h nofun nofun hleft
      · exact hnever h nofun nofun hleft
      · exact hnever (h.trans hn) nofun nofun hleft
  | channel a =>
    obtain ⟨n, hn, ⟨-, heq⟩ | ⟨i, -, heq⟩⟩ := channel_cases inetPton henabled
    · rw [heq] at hleft
      exact hnever (t := { s with phase := .timers 0 }) rfl nofun nofun hleft
    · rw [heq] at hleft
      rcases s.phase_visitChannel n i a with h | h
      · exact hnever (h.trans hn) nofun nofun hleft
      · exact hnever h nofun nofun hleft
  | timer again =>
    obtain ⟨n, hn, heq⟩ := timer_cases inetPton henabled
    obtain ⟨i, t, phase, -, hp, heq'⟩ := s.exists_processTimer inetPton n again
    rw [heq, heq'] at hleft
    rcases hp with hp | hp | hp
    · exact hnever (t := { t with phase }) (hp.trans hn) nofun nofun hleft
    · exact hnever (t := { t with phase }) hp nofun nofun hleft
    · exact hnever (t := { t with phase }) hp nofun nofun hleft
  | endEvents => exact .inl (decide_eq_true (hnext (t := s.endEvents) rfl hleft))
  | finishStop => exact hnever (t := s.finishStop) rfl nofun nofun hleft
  | beginDispatch count =>
    have hphase : (s.beginDispatch count).phase =
        if s.phase = .events false then .events true else s.phase := rfl
    split at hphase
    · exact hnever hphase nofun nofun hleft
    · change (s.beginDispatch count).left = true at hleft
      rw [left_of_phase hphase] at hleft
      exact .inr hleft
  | join =>
    have hphase : s.phase = .exiting ∧ s.budget = none := by simpa [enabled] using henabled
    exact .inr (by simp [left, hphase.1])
  | answer n result => cases result <;> exact .inr hleft
  | udpConnect b ok =>
    obtain ⟨udp, sockPeer, heq, -⟩ := s.exists_udpConnect b ok
    dsimp only [Service.effect] at hleft
    rw [heq] at hleft
    exact .inr hleft
  | cancelTimer n =>
    obtain ⟨timers, heq⟩ := s.exists_cancelTimer (.user n)
    dsimp only [Service.effect] at hleft
    rw [heq] at hleft
    exact .inr hleft
  | _ => exact .inr hleft

theorem transports_of_leaves (inetPton : Host → Option Ip) {a : Action} (h : s.leaves a = true) :
    s.transports = [] ∧ (s.effect inetPton a).toPool = s.toPool := by
  have hnext : s.nextPhase = .exiting → s.transports = [] := by
    unfold nextPhase
    split
    · next hstop => exact fun _ => hstop.2
    · exact nofun
  unfold leaves at h
  split at h
  · exact ⟨hnext (of_decide_eq_true h), rfl⟩
  · exact ⟨hnext (of_decide_eq_true h), rfl⟩
  · cases h

theorem Exited.effect (h : s.Exited) {a : Action} (henabled : s.enabled a = true) :
    (s.effect inetPton a).Exited := by
  intro hleft
  rcases leaves_or_left henabled hleft with hleaves | hleft'
  · obtain ⟨hnil, hpool⟩ := transports_of_leaves inetPton hleaves
    rw [hpool]
    exact hnil
  · have hnil := h hleft'
    have hpool := s.toPool_effect inetPton a
    cases a with
    | transport a =>
      obtain ⟨n, hn, -⟩ := transport_cases inetPton henabled
      rw [left_of_phase hn] at hleft'
      cases hleft'
    | channel a =>
      obtain ⟨n, hn, -⟩ := channel_cases inetPton henabled
      rw [left_of_phase hn] at hleft'
      cases hleft'
    | finishStop => cases hleft
    | _ => exact (congrArg Pool.transports hpool).trans hnil

/-- What any step does to the pool. -/
theorem poolStep_effect (hexited : s.Exited) {a : Action} (henabled : s.enabled a = true) :
    PoolStep s.kind s.toPool (s.effect inetPton a).toPool := by
  have hother := s.toPool_effect inetPton a
  cases a with
  | transport a =>
    obtain ⟨n, -, ⟨-, heq⟩ | ⟨b, hb, heq⟩⟩ := transport_cases inetPton henabled
    · exact heq ▸ .keep
    · rw [heq]
      rcases s.toPool_visitTransport n b a with h | h
      · exact h ▸ .keep
      · exact h ▸ .release n b hb _
  | channel a =>
    obtain ⟨n, -, ⟨-, heq⟩ | ⟨i, -, heq⟩⟩ := channel_cases inetPton henabled
    · exact heq ▸ .keep
    · rw [heq]
      rcases s.toPool_visitChannel inetPton n i a with
        hp | ⟨built, ⟨hctx, hkind, hcls⟩, hp | ⟨hfind, htakes, hp⟩⟩
      · exact hp ▸ .keep
      · exact hp ▸ .connect built (by rw [hkind, hctx]) (by rw [hcls, hkind])
      · exact hp ▸ .register built (by rw [hkind, hctx]) (by rw [hcls, hkind]) a.peer hfind
          (by rw [hkind, (takesDatagram_iff.1 htakes).1])
  | finishStop =>
    obtain ⟨io, sockets, heq⟩ := s.exists_clearTransports
    dsimp only [effect, finishStop]
    rw [heq]
    have hleft : s.phase = .stopping ∧ s.budget = none := by simpa [enabled] using henabled
    exact .clear (hexited (by simp [left, hleft.1]))
  | _ => exact (show _ = s.toPool from hother) ▸ .keep

variable (inetPton s) in
/-- Only `open` changes the kind of a channel. -/
theorem kind_effect (a : Action) :
    (s.effect inetPton a).kind =
      match a with
      | .openKind i kind => update s.kind i kind
      | _ => s.kind := by
  cases a with
  | transport a =>
    dsimp only [effect]
    split
    · next n _ =>
      cases s.transports[n]? with
      | none => rfl
      | some b => exact kind_visitTransport n b a
    · rfl
  | channel a =>
    dsimp only [effect]
    split
    · next n _ =>
      cases s.channelOps[n]? with
      | none => rfl
      | some i => exact kind_visitChannel
    · rfl
  | finishStop =>
    obtain ⟨io, sockets, heq⟩ := s.exists_clearTransports
    dsimp only [effect, finishStop]
    rw [heq]
  | timer again =>
    dsimp only [effect]
    split
    · obtain ⟨i, t, phase, ht, -, heq⟩ := s.exists_processTimer inetPton _ again
      rw [heq]
      exact ht.frame.kind
    · rfl
  | answer n result => cases result <;> rfl
  | udpConnect b ok => exact kind_udpConnect b ok
  | cancelTimer n =>
    obtain ⟨timers, heq⟩ := s.exists_cancelTimer (.user n)
    dsimp only [effect]
    rw [heq]
  | join =>
    obtain ⟨events, heq, -⟩ := s.exists_join
    dsimp only [effect]
    rw [heq]
  | _ => rfl

/-- No step changes how many channels there are. -/
theorem channelCount_effect (inetPton : Host → Option Ip) (a : Action) :
    (s.effect inetPton a).channelCount = s.channelCount := by
  cases a with
  | transport a =>
    dsimp only [effect]
    split
    · next n _ =>
      cases s.transports[n]? with
      | none => rfl
      | some b => exact channelCount_visitTransport n b a
    · rfl
  | channel a =>
    dsimp only [effect]
    split
    · next n _ =>
      cases s.channelOps[n]? with
      | none => rfl
      | some i =>
        obtain ⟨t, hturn, ht⟩ := s.exists_channelTurn inetPton n i a
        rw [← hturn.frame.channelCount]
        change (s.visitChannel inetPton n i a).channelCount = _
        rcases ht with ht | ht <;> rw [ht]
    · rfl
  | finishStop =>
    obtain ⟨io, sockets, heq⟩ := s.exists_clearTransports
    dsimp only [effect, finishStop]
    rw [heq]
  | timer again =>
    dsimp only [effect]
    split
    · obtain ⟨i, t, phase, ht, -, heq⟩ := s.exists_processTimer inetPton _ again
      rw [heq]
      exact ht.frame.channelCount
    · rfl
  | answer n result => cases result <;> rfl
  | udpConnect b ok =>
    obtain ⟨udp, sockPeer, heq, -⟩ := s.exists_udpConnect b ok
    dsimp only [effect]
    rw [heq]
  | cancelTimer n =>
    obtain ⟨timers, heq⟩ := s.exists_cancelTimer (.user n)
    dsimp only [effect]
    rw [heq]
  | join =>
    obtain ⟨events, heq, -⟩ := s.exists_join
    dsimp only [effect]
    rw [heq]
  | _ => rfl

end Service

/-- What every reachable state satisfies: the blocks are all different, and none of them lives
once the loop is left. -/
structure Service.Orderly (s : Service) : Prop where
  sound : s.toPool.Sound
  exited : s.Exited

theorem Service.Orderly.effect {inetPton : Host → Option Ip} {s : Service} (h : s.Orderly)
    {a : Action} (henabled : s.enabled a = true) : (s.effect inetPton a).Orderly :=
  ⟨(poolStep_effect h.exited henabled).sound h.sound, h.exited.effect henabled⟩

theorem Service.orderly_fresh (channelCount : ℕ) (options : Options)
    (uparams : ℕ → UnpackParams) : (Service.fresh channelCount options uparams).Orderly :=
  ⟨⟨List.nodup_nil, nofun⟩, fun _ => rfl⟩

end Yasio
