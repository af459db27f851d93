import Yasio.Service.ChannelStates
import Yasio.Service.Unserved

/-!
# What the loop has still to do

A client that resolves or connects and a server that listens need one more turn of
`process_channels` to be closed.  Which channels have it ahead when a service is stopped, which turn
brings them to an end, and what the other steps do to their states and masks.
-/

namespace Yasio

open Function (update)

namespace Service

variable {inetPton : Host → Option Ip} {s t : Service} {i : ℕ}

/-! ## The channels that are left -/

/-- A client that resolves or connects, or a server that listens. -/
def Unfinished (s : Service) (i : ℕ) : Prop :=
  (s.chan i).state = .resolving ∨ (s.chan i).state = .connecting ∨
    (s.chan i).state = .opened ∧ testbits (s.kind i) Ycm.client = false

instance (s : Service) (i : ℕ) : Decidable (s.Unfinished i) :=
  inferInstanceAs (Decidable (_ ∨ _ ∨ _))

/-- In such a phase `process_channels` has the channel ahead: in this turn of the loop, or in the
next one, for which a transport lives. -/
def HasAhead (s : Service) (i : ℕ) : Phase → Prop
  | .channels n => i ∈ s.channelOps.drop n ∨ s.transports ≠ []
  | .timers _ | .events _ => s.transports ≠ []
  | _ => True

instance (s : Service) (i : ℕ) (phase : Phase) : Decidable (s.HasAhead i phase) := by
  cases phase <;> unfold HasAhead <;> infer_instance

/-- `process_channels` comes to the channel before the worker can leave its loop. -/
def ToVisit (s : Service) (i : ℕ) : Prop := i ∈ s.channelOps ∧ s.HasAhead i s.phase

instance (s : Service) (i : ℕ) : Decidable (s.ToVisit i) := inferInstanceAs (Decidable (_ ∧ _))

/-- The turn of the channel finds the connection made or failed, or the server asked to close. -/
def Concludes (s : Service) (i : ℕ) : Prop :=
  (s.chan i).state ≠ .resolving ∧
    ((s.chan i).state = .connecting → s.ready i connectReady = true) ∧
      ((s.chan i).state = .opened → testbits (s.kind i) Ycm.client = false →
        (s.chan i).opClose = true)

instance (s : Service) (i : ℕ) : Decidable (s.Concludes i) :=
  inferInstanceAs (Decidable (_ ∧ _ ∧ _))

/-- Nothing asks the channel to open and to close. -/
def Unmixed (s : Service) (i : ℕ) : Prop :=
  (s.chan i).opOpen = true → (s.chan i).opClose = false

theorem ToVisit.of_phase {t : Service} {phase : Phase} (hphase : t.phase = phase)
    (hops : i ∈ t.channelOps)
    (hout : match phase with
      | .channels _ | .timers _ | .events _ => False
      | _ => True) : t.ToVisit i := by
  refine ⟨hops, ?_⟩
  rw [hphase]
  cases phase with
  | channels n | timers n | events dispatched => exact hout.elim
  | _ => trivial

theorem ToVisit.of_transports {t : Service} (hops : i ∈ t.channelOps) (hne : t.transports ≠ []) :
    t.ToVisit i := by
  refine ⟨hops, ?_⟩
  generalize t.phase = phase
  cases phase with
  | channels n => exact .inr hne
  | timers n | events dispatched => exact hne
  | _ => trivial

/-- A step that leaves the phase, the list and the transports. -/
theorem ToVisit.of_same (h : s.ToVisit i) {t : Service} (hops : t.channelOps = s.channelOps)
    (hphase : t.phase = s.phase) (htransports : t.transports = s.transports) : t.ToVisit i := by
  unfold ToVisit HasAhead
  rw [hops, hphase, htransports]
  exact h

theorem transports_ne_nil_visitChannel (inetPton : Host → Option Ip) (hne : s.transports ≠ [])
    (n : ℕ) (a : ChannelAnswers) : (s.visitChannel inetPton n i a).transports ≠ [] := by
  rcases joined_visitChannel (s := s) inetPton n a with ⟨hpool, -⟩ | ⟨built, -, hjoined⟩
  · rw [hpool]
    exact hne
  · rw [hjoined.transports]
    exact List.append_ne_nil_of_right_ne_nil _ (List.cons_ne_nil _ _)

/-! ## What a step does to them -/

/-- All that the worker has still to visit stays so until it is visited. -/
theorem ToVisit.effect (h : s.ToVisit i) {a : Action} (henabled : s.enabled a = true)
    (hturn : ∀ b, a = .channel b → s.channelTurn ≠ some i) : (s.effect inetPton a).ToVisit i := by
  obtain ⟨hmem, hvisit⟩ := h
  have h : s.ToVisit i := ⟨hmem, hvisit⟩
  cases a with
  | start => exact .of_phase (t := { s with phase := .top }) rfl hmem trivial
  | frame now =>
    have hphase : (s.beginFrame now).phase =
        if 0 < s.getTimeout now then .polling else .transports 0 := rfl
    split at hphase
    · exact .of_phase hphase hmem trivial
    · exact .of_phase hphase hmem trivial
  | poll answer =>
    cases answer with
    | some answer => exact .of_phase (t := s.poll (some answer)) rfl hmem trivial
    | none =>
      have hphase : (s.poll none).phase = s.nextPhase := rfl
      unfold nextPhase at hphase
      split at hphase
      · exact .of_phase hphase hmem trivial
      · exact .of_phase hphase hmem trivial
  | transport a =>
    obtain ⟨n, hn, ⟨-, heq⟩ | ⟨b, -, heq⟩⟩ := transport_cases inetPton henabled
    · have hphase : s.endTransports.phase = .channels 0 := if_neg (List.ne_nil_of_mem hmem)
      rw [heq]
      unfold ToVisit
      rw [hphase]
      exact ⟨hmem, .inl hmem⟩
    · rw [heq]
      have hops : i ∈ (s.visitTransport n b a).channelOps :=
        (s.chan_visitTransport_or n b a i).1 ▸ hmem
      rcases s.phase_visitTransport n b a with hphase | hphase | hphase
      · exact .of_phase hphase hops trivial
      · exact .of_phase hphase hops trivial
      · exact .of_phase (hphase.trans hn) hops trivial
  | channel a =>
    obtain ⟨n, hn, ⟨hend, heq⟩ | ⟨j, hj, heq⟩⟩ := channel_cases inetPton henabled
    · rw [hn] at hvisit
      rw [heq]
      refine ⟨hmem, hvisit.resolve_left ?_⟩
      rw [List.drop_eq_nil_of_le (List.getElem?_eq_none_iff.1 hend)]
      exact List.not_mem_nil
    · have hij : i ≠ j := by
        rintro rfl
        exact hturn a rfl (mem_channelTurn hn hj)
      obtain ⟨-, hops, hplace⟩ := places_visitChannel inetPton a hn hj hij
      rw [hn] at hvisit
      rw [heq]
      rcases hvisit with hdrop | hne
      · obtain ⟨m, hm, hdrop'⟩ := hplace hdrop
        refine ⟨hops hmem, ?_⟩
        rw [hm]
        exact .inl hdrop'
      · exact .of_transports (hops hmem) (transports_ne_nil_visitChannel inetPton hne n a)
  | timer again =>
    obtain ⟨n, hn, heq⟩ := timer_cases inetPton henabled
    rw [hn] at hvisit
    have hturn := s.exists_timerTurn n again
    rw [heq]
    refine .of_transports ((chan_timerTurn_or hturn i).1 ▸ hmem) ?_
    generalize s.processTimer n again = t at hturn
    cases hturn with
    | ends | userDone | userAgain | late | timeout => exact hvisit
  | endEvents =>
    refine .of_transports (t := s.endEvents) hmem ?_
    cases hphase : s.phase with
    | events dispatched =>
      rw [hphase] at hvisit
      exact hvisit
    | _ => simp [enabled, hphase] at henabled
  | beginDispatch count =>
    by_cases hphase : s.phase = .events false
    · rw [hphase] at hvisit
      exact .of_transports (t := s.beginDispatch count) hmem hvisit
    · exact h.of_same (t := s.beginDispatch count) rfl (if_neg hphase) rfl
  | openInsert n =>
    have hlocked : s.opsLocked = false := by
      simp only [enabled, Bool.and_eq_true, Bool.not_eq_true'] at henabled
      exact henabled.2
    refine ⟨?_, ?_⟩
    · change i ∈ if (s.opening n).1 ∈ s.channelOps then s.channelOps
        else s.channelOps ++ [(s.opening n).1]
      split
      · exact hmem
      · exact List.mem_append_left _ hmem
    · change match s.phase with
        | .channels m => i ∈ (if (s.opening n).1 ∈ s.channelOps then s.channelOps
            else s.channelOps ++ [(s.opening n).1]).drop m ∨ s.transports ≠ []
        | .timers _ | .events _ => s.transports ≠ []
        | _ => True
      unfold opsLocked at hlocked
      generalize s.phase = phase at hvisit hlocked
      cases phase with
      | channels m => cases hlocked
      | _ => exact hvisit
  | answer n result => cases result <;> exact h.of_same rfl rfl rfl
  | udpConnect b ok =>
    obtain ⟨udp, sockPeer, heq, -⟩ := s.exists_udpConnect b ok
    dsimp only [Service.effect]
    rw [heq]
    exact h.of_same rfl rfl rfl
  | cancelTimer n =>
    obtain ⟨timers, heq⟩ := s.exists_cancelTimer (.user n)
    dsimp only [Service.effect]
    rw [heq]
    exact h.of_same rfl rfl rfl
  | join =>
    obtain ⟨events, heq, -⟩ := s.exists_join
    dsimp only [Service.effect]
    rw [heq]
    exact .of_phase rfl hmem trivial
  | finishStop =>
    obtain ⟨io, sockets, heq⟩ := s.exists_clearTransports
    dsimp only [Service.effect, Service.finishStop]
    rw [heq]
    exact .of_phase rfl hmem trivial
  | _ => exact h.of_same rfl rfl rfl

/-- Outside of its own turn a channel is at most closed. -/
theorem state_effect (inetPton : Host → Option Ip) {a : Action} (henabled : s.enabled a = true)
    (hturn : ∀ b, a = .channel b → s.channelTurn ≠ some i) :
    ((s.effect inetPton a).chan i).state = (s.chan i).state ∨
      ((s.effect inetPton a).chan i).state = .closed := by
  have hsame : ∀ {t : Service}, t.chan = s.chan →
      (t.chan i).state = (s.chan i).state ∨ (t.chan i).state = .closed :=
    fun hchan => .inl (by rw [hchan])
  cases a with
  | transport a =>
    obtain ⟨n, hn, ⟨-, heq⟩ | ⟨b, -, heq⟩⟩ := transport_cases inetPton henabled
    · rw [heq]
      exact hsame rfl
    · rw [heq]
      exact (s.chan_visitTransport_or n b a i).2.imp_left (congrArg IoBase.state)
  | channel a =>
    obtain ⟨n, hn, ⟨-, heq⟩ | ⟨j, hj, heq⟩⟩ := channel_cases inetPton henabled
    · rw [heq]
      exact hsame rfl
    · have hij : i ≠ j := by
        rintro rfl
        exact hturn a rfl (mem_channelTurn hn hj)
      rw [heq]
      exact .inl (congrArg IoBase.state (places_visitChannel inetPton a hn hj hij).1)
  | timer again =>
    obtain ⟨n, hn, heq⟩ := timer_cases inetPton henabled
    rw [heq]
    exact (chan_timerTurn_or (s.exists_timerTurn n again) i).2.imp_left (congrArg IoBase.state)
  | answer n result =>
    cases result with
    | ok answer => exact hsame rfl
    | error e =>
      by_cases hi : i = (s.query n).channel
      · subst hi
        exact .inl (by simp [Service.effect, storeAnswer, setChan])
      · exact .inl (congrArg IoBase.state (Function.update_of_ne hi _ _))
  | openMask n =>
    by_cases hi : i = (s.opening n).1
    · subst hi
      exact .inl (by simp [Service.effect, openMask, setChan])
    · exact .inl (congrArg IoBase.state (Function.update_of_ne hi _ _))
  | closeChannel j =>
    by_cases hij : i = j
    · subst hij
      exact .inl (by simp [Service.effect, setChan, state_closedChan])
    · exact .inl (congrArg IoBase.state (Function.update_of_ne hij _ _))
  | udpConnect b ok =>
    obtain ⟨udp, sockPeer, heq, -⟩ := s.exists_udpConnect b ok
    dsimp only [Service.effect]
    rw [heq]
    exact hsame rfl
  | cancelTimer n =>
    obtain ⟨timers, heq⟩ := s.exists_cancelTimer (.user n)
    dsimp only [Service.effect]
    rw [heq]
    exact hsame rfl
  | stop =>
    left
    dsimp only [Service.effect, Service.stop]
    split
    · rfl
    · exact state_closedChan s i
  | join =>
    obtain ⟨events, heq, -⟩ := s.exists_join
    dsimp only [Service.effect]
    rw [heq]
    exact hsame rfl
  | finishStop =>
    obtain ⟨io, sockets, heq⟩ := s.exists_clearTransports
    dsimp only [Service.effect, Service.finishStop]
    rw [heq]
    exact hsame rfl
  | _ => exact hsame rfl

/-- `YOPM_OPEN` is set by `open` alone, which clears `YOPM_CLOSE`; no other step sets `YOPM_CLOSE`
and leaves `YOPM_OPEN`. -/
theorem masks_effect (inetPton : Host → Option Ip) {a : Action} (henabled : s.enabled a = true)
    (i : ℕ) (hopen : ((s.effect inetPton a).chan i).opOpen = true) :
    ((s.effect inetPton a).chan i).opClose = false ∧ (∃ n, a = .openMask n ∧ (s.opening n).1 = i) ∨
      (s.chan i).opOpen = true ∧
        (((s.effect inetPton a).chan i).opClose = true → (s.chan i).opClose = true) := by
  have hless : ∀ {t : Service}, Unmasks i s t → (t.chan i).opOpen = true →
      (t.chan i).opClose = false ∧ (∃ n, a = .openMask n ∧ (s.opening n).1 = i) ∨
        (s.chan i).opOpen = true ∧ ((t.chan i).opClose = true → (s.chan i).opClose = true) :=
    fun hmasks hopen => .inr ⟨hmasks.1 hopen, hmasks.2⟩
  have hsame : ∀ {t : Service}, t.chan i = s.chan i → Unmasks i s t :=
    fun hchan => unmasks_of_chan (congrArg IoBase.opOpen hchan) (congrArg IoBase.opClose hchan)
  cases a with
  | transport a =>
    obtain ⟨n, hn, ⟨-, heq⟩ | ⟨b, -, heq⟩⟩ := transport_cases inetPton henabled
    · rw [heq] at hopen ⊢
      exact hless (hsame rfl) hopen
    · rw [heq] at hopen ⊢
      refine hless ?_ hopen
      obtain ⟨s', hs, -, heq' | heq' | ⟨heq', -⟩⟩ := s.visitTransport_cases n b a
      · rw [heq']
        exact hsame (congrFun (congrArg Channels.chan hs.channels) i)
      · have hchan : s'.chan i = s.chan i := congrFun (congrArg Channels.chan hs.channels) i
        rw [heq']
        exact (hsame hchan).trans (s'.masks_dropTransport n b a.tail i)
      · rw [heq']
        exact hsame (congrFun (congrArg Channels.chan hs.channels) i)
  | channel a =>
    obtain ⟨n, hn, ⟨-, heq⟩ | ⟨j, hj, heq⟩⟩ := channel_cases inetPton henabled
    · rw [heq] at hopen ⊢
      exact hless (hsame rfl) hopen
    · rw [heq] at hopen ⊢
      refine hless ?_ hopen
      by_cases hij : i = j
      · subst hij
        exact (s.masks_visitChannel inetPton n i a).1
      · exact hsame (places_visitChannel inetPton a hn hj hij).1
  | timer again =>
    obtain ⟨n, hn, heq⟩ := timer_cases inetPton henabled
    rw [heq] at hopen ⊢
    refine hless ?_ hopen
    have hturn := s.exists_timerTurn n again
    generalize s.processTimer n again = t at hturn
    cases hturn with
    | ends | userDone | userAgain | late => exact hsame rfl
    | timeout j hlast hexpired hstate =>
      by_cases hij : i = j
      · subst hij
        exact unmasks_cleanupChannel { s with timerQueue := s.timerQueue.dropLast } i true
      · exact hsame (Function.update_of_ne hij _ _)
  | answer n result =>
    refine hless ?_ hopen
    cases result with
    | ok answer => exact hsame rfl
    | error e =>
      by_cases hi : i = (s.query n).channel
      · subst hi
        exact unmasks_setChan (s := s) { s.chan _ with error := Errc.resolveHostFailed } rfl rfl
      · exact hsame (Function.update_of_ne hi _ _)
  | openMask n =>
    by_cases hi : i = (s.opening n).1
    · subst hi
      exact .inl ⟨by simp [Service.effect, openMask, setChan], n, rfl, rfl⟩
    · exact hless (hsame (Function.update_of_ne hi _ _)) hopen
  | closeChannel j =>
    by_cases hij : i = j
    · subst hij
      simp only [Service.effect, setChan, Function.update_self, closedChan] at hopen ⊢
      split at hopen
      · next hclose => exact .inr ⟨hopen, fun _ => hclose⟩
      · cases hopen
    · exact hless (hsame (Function.update_of_ne hij _ _)) hopen
  | udpConnect b ok =>
    obtain ⟨udp, sockPeer, heq, -⟩ := s.exists_udpConnect b ok
    dsimp only [Service.effect] at hopen ⊢
    rw [heq] at hopen ⊢
    exact hless (hsame rfl) hopen
  | cancelTimer n =>
    obtain ⟨timers, heq⟩ := s.exists_cancelTimer (.user n)
    dsimp only [Service.effect] at hopen ⊢
    rw [heq] at hopen ⊢
    exact hless (hsame rfl) hopen
  | stop =>
    dsimp only [Service.effect, Service.stop] at hopen ⊢
    split at hopen
    · next hstopped =>
      rw [if_pos hstopped]
      exact .inr ⟨hopen, id⟩
    · next hstopped =>
      rw [if_neg hstopped]
      unfold closedChan at hopen ⊢
      split at hopen
      · next hclose => exact .inr ⟨hopen, fun _ => hclose⟩
      · cases hopen
  | join =>
    obtain ⟨events, heq, -⟩ := s.exists_join
    dsimp only [Service.effect] at hopen ⊢
    rw [heq] at hopen ⊢
    exact hless (hsame rfl) hopen
  | finishStop =>
    obtain ⟨io, sockets, heq⟩ := s.exists_clearTransports
    dsimp only [Service.effect, Service.finishStop] at hopen ⊢
    rw [heq] at hopen ⊢
    exact hless (hsame rfl) hopen
  | _ => exact hless (hsame rfl) hopen

theorem Unmixed.effect (h : s.Unmixed i) {a : Action} (henabled : s.enabled a = true) :
    (s.effect inetPton a).Unmixed i := by
  intro hopen
  rcases masks_effect inetPton henabled i hopen with ⟨hclose, -⟩ | ⟨hopen', hclose⟩
  · exact hclose
  · cases hclose' : ((s.effect inetPton a).chan i).opClose with
    | false => rfl
    | true => cases (h hopen').symm.trans (hclose hclose')

/-- The flag is raised and taken back by the parts of `stop` alone. -/
theorem stopFlag_effect (inetPton : Host → Option Ip) {a : Action} (henabled : s.enabled a = true)
    (hstop : a ≠ .stop) (hfinish : a ≠ .finishStop) :
    (s.effect inetPton a).stopFlag = s.stopFlag := by
  cases a with
  | transport a =>
    obtain ⟨n, hn, ⟨-, heq⟩ | ⟨b, -, heq⟩⟩ := transport_cases inetPton henabled
    · rw [heq]
      rfl
    · obtain ⟨s', hs, -, hvisit⟩ := s.visitTransport_cases n b a
      have hflag : s'.stopFlag = s.stopFlag := by
        rw [show s'.stopFlag = s'.toLoop.stopFlag from rfl, hs.loop]
      rw [heq]
      rcases hvisit with hvisit | hvisit | ⟨hvisit, -⟩
      · rw [hvisit]
        exact hflag
      · rw [hvisit]
        exact (congrArg Loop.stopFlag (s'.loop_dropTransport n b a.tail)).trans hflag
      · rw [hvisit]
        exact hflag
  | channel a =>
    obtain ⟨n, hn, ⟨-, heq⟩ | ⟨j, hj, heq⟩⟩ := channel_cases inetPton henabled
    · rw [heq]
    · obtain ⟨t, hturn, ht⟩ := s.exists_channelTurn inetPton n j a
      rw [heq]
      rcases ht with ht | ht
      · rw [ht]
        exact hturn.frame.stopFlag
      · rw [ht]
        exact hturn.frame.stopFlag
  | timer again =>
    obtain ⟨n, hn, heq⟩ := timer_cases inetPton henabled
    have hturn := s.exists_timerTurn n again
    rw [heq]
    generalize s.processTimer n again = t at hturn
    cases hturn with
    | ends | userDone | userAgain | late | timeout => rfl
  | answer n result => cases result <;> rfl
  | udpConnect b ok =>
    obtain ⟨udp, sockPeer, heq, -⟩ := s.exists_udpConnect b ok
    dsimp only [Service.effect]
    rw [heq]
  | cancelTimer n =>
    obtain ⟨timers, heq⟩ := s.exists_cancelTimer (.user n)
    dsimp only [Service.effect]
    rw [heq]
  | join =>
    obtain ⟨events, heq, -⟩ := s.exists_join
    dsimp only [Service.effect]
    rw [heq]
  | stop => exact absurd rfl hstop
  | finishStop => exact absurd rfl hfinish
  | _ => rfl

/-! ## The turn of the channel -/

/-- What the turn of a server leaves of a channel that nothing asks to open: closed, unless it
listens and nothing asks it to close. -/
theorem state_visitServer (inetPton : Host → Option Ip)
    (hclient : testbits (s.kind i) Ycm.client = false)
    (hserver : testbits (s.kind i) Ycm.server = true) (hopen : (s.chan i).opOpen = false)
    (hclose : (s.chan i).state ≠ .closed → (s.chan i).opClose = true) (n : ℕ) (a : ChannelAnswers) :
    ((s.visitChannel inetPton n i a).chan i).state = .closed := by
  let u := s.takeMasks i a
  have hmasked : MaskTurn i a s u := maskTurn_takeMasks
  have hclient' : testbits (u.kind i) Ycm.client = false := by
    rw [kind_maskTurn hmasked]
    exact hclient
  have hclosed : (u.chan i).state = .closed := by
    generalize u = v at hmasked
    cases hmasked with
    | none _ hclose' =>
      by_contra hne
      cases hclose'.symm.trans (hclose hne)
    | closes _ _ => simp [cleanupChannel, setChan, IoBase.cleanup]
    | noSocket hopen' | unbound hopen' fd hfd | listens hopen' fd hsocket hfd =>
      cases hopen.symm.trans hopen'
  have hstate := state_serverTurn hclient' (serverTurn_doAcceptCompletion (a := a))
  unfold visitChannel
  dsimp only
  rw [hclient, hserver, if_neg Bool.false_ne_true, if_pos rfl]
  split
  · exact hstate.trans hclosed
  · exact hstate.trans hclosed

/-- The turn of a channel that concludes brings it to an end. -/
theorem Tended.not_unfinished_visitChannel (h : s.Tended i) (hopen : (s.chan i).opOpen = false)
    (hcond : s.Concludes i) (n : ℕ) (a : ChannelAnswers) :
    ¬ (s.visitChannel inetPton n i a).Unfinished i := by
  obtain ⟨hresolving, hconnecting, hlistening⟩ := hcond
  have hkind : (s.visitChannel inetPton n i a).kind = s.kind := kind_visitChannel
  cases hclient : testbits (s.kind i) Ycm.client with
  | true =>
    obtain ⟨t, hturn, ht⟩ := exists_clientTurn inetPton n a hclient
    rw [takeOpen_of_not_opOpen hopen] at hturn
    have hchan : (s.visitChannel inetPton n i a).chan = t.chan := by
      rcases ht with ⟨-, ht⟩ | ⟨-, ht⟩ <;> rw [ht]
    have hcancel : ∀ (u : Service) (k : TimerId), (u.cancelTimer k).chan = u.chan := by
      intro u k
      obtain ⟨timers, heq⟩ := u.exists_cancelTimer k
      rw [heq]
    have hend : (t.chan i).state ≠ .resolving ∧ (t.chan i).state ≠ .connecting := by
      cases hturn with
      | idle hstate => exact hstate
      | waits hstate hres herror | unresolved hstate hres error | noSocket hstate hres error
      | refused hstate hres fd hfd error | starts hstate hres fd hfd
      | connects hstate hres fd hfd => exact absurd hstate hresolving
      | pending hstate hready => cases hready.symm.trans (hconnecting hstate)
      | completes hstate hready =>
        have hkept : testbits (((s.ask i connectReady).modEvent i .none { write := true }).kind i)
            Ycm.client = true := hclient
        rw [hcancel, state_establish, if_pos hkept]
        exact ⟨nofun, nofun⟩
      | fails hstate hready error =>
        rw [hcancel, state_handleConnectFailed]
        exact ⟨nofun, nofun⟩
    unfold Unfinished
    rw [hchan, hkind, hclient]
    rintro (hstate | hstate | ⟨-, hfalse⟩)
    · exact hend.1 hstate
    · exact hend.2 hstate
    · cases hfalse
  | false =>
    have hclosed : ((s.visitChannel inetPton n i a).chan i).state = .closed := by
      cases hserver : testbits (s.kind i) Ycm.server with
      | false =>
        rw [chan_visitChannel_of_neither inetPton hclient hserver]
        cases hstate : (s.chan i).state with
        | closed => rfl
        | resolving => cases hclient.symm.trans (h.working (.inl hstate)).1
        | connecting => cases hclient.symm.trans (h.working (.inr hstate)).1
        | opened => cases hserver.symm.trans (h.listening hstate hclient).1
      | true =>
        refine state_visitServer inetPton hclient hserver hopen (fun hne => ?_) n a
        cases hstate : (s.chan i).state with
        | closed => exact absurd hstate hne
        | resolving => exact absurd hstate hresolving
        | connecting => cases hclient.symm.trans (h.working (.inr hstate)).1
        | opened => exact hlistening hstate hclient
    unfold Unfinished
    rw [hclosed]
    rintro (hstate | hstate | ⟨hstate, -⟩)
    · cases hstate
    · cases hstate
    · cases hstate

/-- A channel that is not brought to an end is in the list of `process_channels`. -/
theorem Tended.mem_channelOps (h : s.Tended i) (hunfinished : s.Unfinished i) :
    i ∈ s.channelOps := by
  rcases hunfinished with hstate | hstate | ⟨hstate, hclient⟩
  · exact (h.working (.inl hstate)).2
  · exact (h.working (.inr hstate)).2
  · exact (h.listening hstate hclient).2

/-- No step but the channel's own turn makes it one that is not brought to an end. -/
theorem Unfinished.of_effect {a : Action} (henabled : s.enabled a = true) (hcond : Undisturbed s a)
    (hturn : ∀ b, a = .channel b → s.channelTurn ≠ some i)
    (h : (s.effect inetPton a).Unfinished i) : s.Unfinished i := by
  have hstate : ((s.effect inetPton a).chan i).state = (s.chan i).state := by
    refine (state_effect inetPton henabled hturn).resolve_right fun hclosed => ?_
    rcases h with hstate | hstate | ⟨hstate, -⟩ <;> cases hclosed.symm.trans hstate
  unfold Unfinished at h
  rw [hstate] at h
  refine h.imp_right (Or.imp_right fun ⟨hopened, hclient⟩ => ⟨hopened, ?_⟩)
  rw [← hclient, s.kind_effect inetPton a]
  cases a with
  | openKind j kind =>
    dsimp only
    by_cases hij : i = j
    · subst hij
      rw [Function.update_self]
      exact (hcond (by rw [hopened]; exact nofun)).1.symm
    · rw [Function.update_of_ne hij]
  | _ => rfl

/-! ## The end of the loop -/

theorem stopFlag_of_leaves {a : Action} (h : s.leaves a = true) : s.stopFlag = true := by
  have hnext : s.nextPhase = .exiting → s.stopFlag = true := by
    unfold nextPhase
    split
    · next hstop => exact fun _ => hstop.1
    · exact nofun
  unfold leaves at h
  split at h
  · exact hnext (of_decide_eq_true h)
  · exact hnext (of_decide_eq_true h)
  · cases h

/-- Only the end of `handle_stop` leads back from behind the loop. -/
theorem left_effect {a : Action} (henabled : s.enabled a = true) (hfinish : a ≠ .finishStop)
    (hleft : s.left = true) : (s.effect inetPton a).left = true := by
  have hphase : ∀ {t : Service}, t.phase = s.phase → t.left = true := by
    intro t hphase
    rw [left_of_phase hphase]
    exact hleft
  have hnot : ∀ {phase : Phase}, s.phase = phase →
      (decide (phase = .exiting) || decide (phase = .stopping)) = false → False := by
    intro phase hphase hloop
    rw [left_of_phase hphase, hloop] at hleft
    cases hleft
  cases a with
  | start => exact (hnot (of_decide_eq_true henabled) rfl).elim
  | frame now => exact (hnot (of_decide_eq_true (Bool.and_eq_true_iff.1 henabled).1) rfl).elim
  | poll answer => exact (hnot (of_decide_eq_true henabled) rfl).elim
  | transport a =>
    obtain ⟨n, hn, -⟩ := transport_cases inetPton henabled
    exact (hnot hn rfl).elim
  | channel a =>
    obtain ⟨n, hn, -⟩ := channel_cases inetPton henabled
    exact (hnot hn rfl).elim
  | timer again =>
    obtain ⟨n, hn, -⟩ := timer_cases inetPton henabled
    exact (hnot hn rfl).elim
  | endEvents =>
    cases hphase : s.phase with
    | events dispatched => exact (hnot hphase rfl).elim
    | _ => simp [enabled, hphase] at henabled
  | beginDispatch count =>
    refine hphase (t := s.beginDispatch count) (if_neg ?_)
    exact fun hevents => hnot hevents rfl
  | answer n result => cases result <;> exact hphase rfl
  | udpConnect b ok =>
    obtain ⟨udp, sockPeer, heq, -⟩ := s.exists_udpConnect b ok
    dsimp only [Service.effect]
    rw [heq]
    exact hphase rfl
  | cancelTimer n =>
    obtain ⟨timers, heq⟩ := s.exists_cancelTimer (.user n)
    dsimp only [Service.effect]
    rw [heq]
    exact hphase rfl
  | join => simp [Service.effect, Service.join, left]
  | finishStop => exact absurd rfl hfinish
  | _ => exact hphase rfl

/-- When the worker leaves its loop, the channels that were brought to an end are closed. -/
theorem Cared.closed_of_finished (h : s.Cared) (hnil : s.transports = []) (hi : i < s.channelCount)
    (hfinished : ¬ s.Unfinished i) : (s.chan i).state = .closed := by
  cases hstate : (s.chan i).state with
  | closed => rfl
  | resolving => exact absurd (.inl hstate) hfinished
  | connecting => exact absurd (.inr (.inl hstate)) hfinished
  | opened =>
    cases hclient : testbits (s.kind i) Ycm.client with
    | true =>
      obtain ⟨b, hb, -⟩ := (h.tended i hi).connected hstate hclient
      rw [hnil] at hb
      cases hb
    | false => exact absurd (.inr (.inr ⟨hstate, hclient⟩)) hfinished

end Service

end Yasio
