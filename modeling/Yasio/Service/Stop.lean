import Yasio.Service.PoolSteps

/-!
# Stopping

The events that were fired and not handed to the callback yet are in the two halves of the queue,
in order.  `handle_stop` dispatches once, and only when one half is not empty.
-/

namespace Yasio

/-- The events that `dispatch` has handed to the callback. -/
def Service.handed (s : Service) : List Event := (s.seen.filter fun x => !x.direct).map Seen.event

theorem Service.handed_of_seen {s s' : Service} {xs : List Seen} (h : s'.seen = s.seen ++ xs)
    (hxs : ∀ x ∈ xs, x.direct = true) : s'.handed = s.handed := by
  have hnil : (xs.filter fun x => !x.direct) = [] := by
    apply List.filter_eq_nil_iff.2
    intro x hx
    simp [hxs x hx]
  unfold handed
  rw [h, List.filter_append, hnil, List.append_nil]

/-- What the loops of a frame do to the events: they fire some, and hand over none. -/
structure Fires (s s' : Service) : Prop where
  deal : s'.deal = s.deal
  fires : ∃ es, s'.queue = s.queue ++ es ∧ s'.fired = s.fired ++ es
  handed : s'.handed = s.handed

namespace Fires

variable {s s' s'' : Service} {b : Block} {i : ℕ} {a : ChannelAnswers}
  {inetPton : Host → Option Ip}

theorem deal_eq (h : s'.toEvents = { s.toEvents with queue := s'.queue }) : s'.deal = s.deal := by
  rw [show s'.deal = s'.toEvents.deal from rfl, h]

theorem refl (s : Service) : Fires s s := ⟨rfl, ⟨[], by simp⟩, rfl⟩

theorem trans (h : Fires s s') (h' : Fires s' s'') : Fires s s'' where
  deal := h'.deal.trans h.deal
  fires := by
    obtain ⟨es, hq, hf⟩ := h.fires
    obtain ⟨es', hq', hf'⟩ := h'.fires
    refine ⟨es ++ es', ?_, ?_⟩
    · rw [hq', hq, List.append_assoc]
    · rw [hf', hf, List.append_assoc]
  handed := h'.handed.trans h.handed

theorem of_touched (h : Touched b s s') : Fires s s' := by
  obtain ⟨es, hq, hf, -⟩ := h.fires
  obtain ⟨xs, hx, hxs⟩ := h.seen
  exact ⟨deal_eq h.events, ⟨es, hq, hf⟩, Service.handed_of_seen hx fun x hmem => (hxs x hmem).1⟩

theorem of_quiet (h : Quiet inetPton i s s') : Fires s s' := by
  obtain ⟨es, hq, hf, -⟩ := h.frame.fires
  refine ⟨deal_eq h.frame.events, ⟨es, hq, hf⟩, ?_⟩
  unfold Service.handed
  rw [h.frame.seen]

theorem of_connected (h : Connected i b s s') : Fires s s' := by
  obtain ⟨es, hq, hf, -⟩ := h.fires
  refine ⟨deal_eq h.events, ⟨es, hq, hf⟩, ?_⟩
  unfold Service.handed
  rw [show s'.seen = s'.toHistory.seen from rfl, h.history]

theorem of_received (h : Received i b s s') : Fires s s' := by
  obtain ⟨es, hq, hf, -⟩ := h.fires
  obtain ⟨xs, hx, hxs⟩ := h.seen
  exact ⟨deal_eq h.events, ⟨es, hq, hf⟩, Service.handed_of_seen hx fun x hmem => (hxs x hmem).1⟩

theorem dropTransport (s : Service) (n : ℕ) (b : Block) (tail : ℕ) :
    Fires s (s.dropTransport n b tail) := by
  obtain ⟨chan, io, sockets, heq, -⟩ := s.exists_dropTransport n b tail
  rw [heq]
  exact ⟨rfl, ⟨_, rfl, rfl⟩, rfl⟩

theorem visitTransport (s : Service) (n : ℕ) (b : Block) (a : TransportAnswers) :
    Fires s (s.visitTransport n b a) := by
  obtain ⟨s', hs, hend⟩ := s.exists_turnEnd (b := b) n a
  have htouched : Fires s s' := of_touched ((s.touched_atRead (b := b) a).trans hs.toTouched)
  generalize s.visitTransport n b a = t at hend
  cases hend with
  | thrown => exact htouched.trans ⟨rfl, ⟨[], by simp⟩, rfl⟩
  | kept hasked => exact htouched.trans ⟨rfl, ⟨[], by simp⟩, rfl⟩
  | dropped => exact htouched.trans (dropTransport s' n b a.tail)

theorem of_channelTurn {t : Service} (h : ChannelTurn inetPton i a s t) : Fires s t := by
  cases h with
  | quiet hq => exact of_quiet hq
  | connect hq ok hq' =>
    exact ((of_quiet hq).trans (of_connected (Service.connected_establish i a.interval ok))).trans
      (of_quiet hq')
  | @accept s₁ hq fd hfd hkind =>
    have hsock : Fires s₁ (s₁.newSock fd a.acceptPeer) :=
      ⟨rfl, ⟨[], by simp [Service.newSock]⟩, rfl⟩
    exact ((of_quiet hq).trans hsock).trans
      (of_connected (Service.connected_establish (i := i) _ a.interval true))
  | lost hq htakes hfind hgranted =>
    exact (of_quiet hq).trans ⟨rfl, ⟨[], by simp⟩, rfl⟩
  | @datagram s₁ hq htakes b hfind =>
    have hdeliver : Fires s₁ (s₁.deliver i a.peer b) := ⟨rfl, ⟨[], by simp [Service.deliver]⟩, rfl⟩
    exact ((of_quiet hq).trans hdeliver).trans
      (of_received (Service.received_handleInput (i := i) b _ _))
  | @newPeer s₁ hq htakes fd hfind hfd =>
    have hdeliver : ∀ t : Service, Fires t (t.deliver i a.peer s₁.freshBlock) :=
      fun t => ⟨rfl, ⟨[], by simp [Service.deliver]⟩, rfl⟩
    exact (((of_quiet hq).trans
      (of_connected (Service.connected_acceptPeer (i := i) a.peer fd a))).trans
      (hdeliver _)).trans (of_received (Service.received_handleInput (i := i) _ _ _))

theorem visitChannel (s : Service) (n i : ℕ) (a : ChannelAnswers) :
    Fires s (s.visitChannel inetPton n i a) := by
  obtain ⟨t, hturn, ht⟩ := s.exists_channelTurn inetPton n i a
  have hfires := of_channelTurn hturn
  rcases ht with ht | ht
  · rw [ht]
    exact hfires.trans ⟨rfl, ⟨[], by simp⟩, rfl⟩
  · rw [ht]
    exact hfires.trans ⟨rfl, ⟨[], by simp⟩, rfl⟩

end Fires

namespace Service

variable {s : Service} {inetPton : Host → Option Ip}

/-- The events that are waiting, in the order in which they will be handed over. -/
def waiting (s : Service) : List Event := s.deal ++ s.queue

/-- Whether the step is one of the dispatching thread, or the dispatch of `handle_stop`. -/
def dispatches : Action → Bool
  | .beginDispatch _ | .nextEvent | .endEvent | .endDispatch | .join => true
  | _ => false

/-- All the steps but those that dispatch only fire events. -/
theorem fires_effect (inetPton : Host → Option Ip) {a : Action} (henabled : s.enabled a = true)
    (ha : dispatches a = false) : Fires s (s.effect inetPton a) := by
  have hsame : ∀ {t : Service}, t.deal = s.deal → t.queue = s.queue → t.fired = s.fired →
      t.seen = s.seen → Fires s t := by
    intro t hdeal hqueue hfired hseen
    refine ⟨hdeal, ⟨[], by simp [hqueue, hfired]⟩, ?_⟩
    unfold handed
    rw [hseen]
  cases a with
  | transport a =>
    obtain ⟨n, hn, ⟨-, heq⟩ | ⟨b, -, heq⟩⟩ := transport_cases inetPton henabled
    · exact heq ▸ hsame rfl rfl rfl rfl
    · exact heq ▸ .visitTransport s n b a
  | channel a =>
    obtain ⟨n, hn, ⟨-, heq⟩ | ⟨i, -, heq⟩⟩ := channel_cases inetPton henabled
    · exact heq ▸ hsame rfl rfl rfl rfl
    · exact heq ▸ .visitChannel s n i a
  | timer again =>
    obtain ⟨n, hn, heq⟩ := timer_cases inetPton henabled
    obtain ⟨i, t, phase, ht, -, heq'⟩ := s.exists_processTimer inetPton n again
    rw [heq, heq']
    exact (Fires.of_quiet ht).trans ⟨rfl, ⟨[], by simp⟩, rfl⟩
  | answer n result => cases result <;> exact hsame rfl rfl rfl rfl
  | udpConnect b ok =>
    obtain ⟨udp, sockPeer, heq, -⟩ := s.exists_udpConnect b ok
    dsimp only [Service.effect]
    rw [heq]
    exact hsame rfl rfl rfl rfl
  | cancelTimer n =>
    obtain ⟨timers, heq⟩ := s.exists_cancelTimer (.user n)
    dsimp only [Service.effect]
    rw [heq]
    exact hsame rfl rfl rfl rfl
  | finishStop =>
    obtain ⟨io, sockets, heq⟩ := s.exists_clearTransports
    dsimp only [Service.effect, finishStop]
    rw [heq]
    exact hsame rfl rfl rfl rfl
  | beginDispatch count | nextEvent | endEvent | endDispatch | join => cases ha
  | _ => exact hsame rfl rfl rfl rfl

/-- The next event of the queue is handed over. -/
theorem handed_nextEvent {e : Event} {rest : List Event} (hdeal : s.deal = e :: rest) :
    (s.effect inetPton .nextEvent).handed = s.handed ++ [e] := by
  simp [handed, effect, hdeal]

/-- What was fired was handed over or waits. -/
def Ledger (s : Service) : Prop := s.handed ++ s.waiting = s.fired

theorem Ledger.effect (h : s.Ledger) {a : Action} (henabled : s.enabled a = true) :
    (s.effect inetPton a).Ledger := by
  cases ha : dispatches a with
  | false =>
    have hf := fires_effect inetPton henabled ha
    obtain ⟨es, hqueue, hfired⟩ := hf.fires
    unfold Ledger waiting at h ⊢
    rw [hf.handed, hf.deal, hqueue, hfired, ← h, List.append_assoc, List.append_assoc]
  | true =>
    cases a with
    | beginDispatch count =>
      have hwaiting : (s.beginDispatch count).waiting = s.waiting := deal_beginDispatch count
      exact (congrArg (s.handed ++ ·) hwaiting).trans h
    | nextEvent =>
      cases hdeal : s.deal with
      | nil => simp [enabled, hdeal] at henabled
      | cons e rest =>
        unfold Ledger waiting at h ⊢
        rw [handed_nextEvent hdeal, show (s.effect inetPton .nextEvent).deal = s.deal.tail from rfl,
          hdeal, List.tail_cons, List.append_assoc]
        rw [hdeal] at h
        exact h
    | endEvent | endDispatch => exact h
    | join =>
      obtain ⟨events, heq, hdeal, -⟩ := s.exists_join
      dsimp only [Service.effect]
      rw [heq]
      exact (congrArg (s.handed ++ ·) hdeal).trans h
    | _ => cases ha

/-- What was fired before and what was handed over before stays as it is. -/
theorem prefix_effect (inetPton : Host → Option Ip) {a : Action} (henabled : s.enabled a = true) :
    s.fired <+: (s.effect inetPton a).fired ∧ s.handed <+: (s.effect inetPton a).handed := by
  cases ha : dispatches a with
  | false =>
    have hf := fires_effect inetPton henabled ha
    obtain ⟨es, -, hfired⟩ := hf.fires
    rw [hfired, hf.handed]
    exact ⟨List.prefix_append _ _, List.prefix_rfl⟩
  | true =>
    cases a with
    | nextEvent =>
      cases hdeal : s.deal with
      | nil => simp [enabled, hdeal] at henabled
      | cons e rest =>
        rw [handed_nextEvent hdeal]
        exact ⟨List.prefix_rfl, List.prefix_append _ _⟩
    | join =>
      obtain ⟨events, heq, -⟩ := s.exists_join
      dsimp only [Service.effect]
      rw [heq]
      exact ⟨List.prefix_rfl, List.prefix_rfl⟩
    | beginDispatch count | endEvent | endDispatch => exact ⟨List.prefix_rfl, List.prefix_rfl⟩
    | _ => cases ha

/-! ## The dispatch of handle_stop -/

/-- Only `handle_stop` itself begins to stop. -/
theorem phase_ne_stopping (inetPton : Host → Option Ip) {a : Action}
    (henabled : s.enabled a = true) :
    match a with
    | .start | .frame _ | .poll _ | .transport _ | .channel _ | .timer _ | .endEvents
    | .finishStop => (s.effect inetPton a).phase ≠ .stopping
    | _ => True := by
  have hnext : s.nextPhase ≠ .stopping := by
    unfold nextPhase
    split <;> exact nofun
  cases a with
  | start | finishStop => exact nofun
  | frame now =>
    change (if 0 < s.getTimeout now then Phase.polling else .transports 0) ≠ .stopping
    split <;> exact nofun
  | poll answer =>
    change (if answer.isSome then Phase.transports 0 else s.nextPhase) ≠ .stopping
    split
    · exact nofun
    · exact hnext
  | endEvents => exact hnext
  | transport a =>
    obtain ⟨n, hn, ⟨-, heq⟩ | ⟨b, -, heq⟩⟩ := transport_cases inetPton henabled
    · rw [heq]
      change (if s.channelOps = [] then Phase.timers 0 else .channels 0) ≠ .stopping
      split <;> exact nofun
    · rw [heq]
      rcases s.phase_visitTransport n b a with h | h | h
      · rw [h]
        exact nofun
      · rw [h]
        exact nofun
      · rw [h, hn]
        exact nofun
  | channel a =>
    obtain ⟨n, hn, ⟨-, heq⟩ | ⟨i, -, heq⟩⟩ := channel_cases inetPton henabled
    · rw [heq]
      exact nofun
    · rw [heq]
      rcases s.phase_visitChannel n i a with h | h
      · rw [h, hn]
        exact nofun
      · rw [h]
        exact nofun
  | timer again =>
    obtain ⟨n, hn, heq⟩ := timer_cases inetPton henabled
    obtain ⟨i, t, phase, -, hp, heq'⟩ := s.exists_processTimer inetPton n again
    rw [heq, heq']
    rcases hp with rfl | rfl | rfl
    · rw [hn]
      exact nofun
    · exact nofun
    · exact nofun
  | _ => trivial

/-- While the thread that stops the service is behind the worker, `queue_` is empty, and `consume`
can hand over all of `deal_`. -/
def Drained (s : Service) : Prop :=
  s.phase = .stopping → s.queue = [] ∧ s.deal.length ≤ s.budget.getD 0

end Service

/-- `handle_stop` finds nothing in `deal_`, and no more in `queue_` than one `consume` takes. -/
def NothingDealt (s : Service) : Action → Prop
  | .join => s.deal = [] ∧ s.queue.length ≤ 2 ^ 31 - 1
  | _ => True

instance (s : Service) (a : Action) : Decidable (NothingDealt s a) := by
  unfold NothingDealt
  induction a using Action.casesOn <;> infer_instance

namespace Service

variable {s : Service} {inetPton : Host → Option Ip}

theorem drained_join (hdeal : s.deal = []) (hlen : s.queue.length ≤ 2 ^ 31 - 1) :
    s.join.Drained := by
  intro _
  unfold join
  split
  · next hqueue =>
    refine ⟨hqueue, ?_⟩
    change s.deal.length ≤ _
    rw [hdeal]
    exact Nat.zero_le _
  · unfold beginDispatch
    simp only [hdeal, if_true]
    exact ⟨trivial, hlen⟩

theorem Drained.effect (h : s.Drained) {a : Action} (henabled : s.enabled a = true)
    (hcond : NothingDealt s a) : (s.effect inetPton a).Drained := by
  have hphase := phase_ne_stopping inetPton henabled
  cases a with
  | start | frame now | poll answer | transport a | channel a | timer again | endEvents
  | finishStop => exact fun hstop => absurd hstop hphase
  | join => exact drained_join hcond.1 hcond.2
  | beginDispatch count =>
    have hbudget : s.budget = none := by simpa [enabled] using henabled
    intro hstop
    change (if s.phase = .events false then Phase.events true else s.phase) = .stopping at hstop
    split at hstop
    · cases hstop
    · obtain ⟨hqueue, hlen⟩ := h hstop
      have hdeal : s.deal = [] := by
        rw [hbudget] at hlen
        exact List.eq_nil_of_length_eq_zero (Nat.le_zero.1 hlen)
      simp [Service.effect, beginDispatch, hqueue, hdeal]
  | nextEvent =>
    intro hstop
    obtain ⟨hqueue, hlen⟩ := h hstop
    refine ⟨hqueue, ?_⟩
    change s.deal.tail.length ≤ (s.budget.map fun count => count - 1).getD 0
    rw [List.length_tail]
    cases hbudget : s.budget with
    | none => simp [hbudget] at hlen; simp [hlen]
    | some count => simpa [hbudget] using Nat.sub_le_sub_right (by simpa [hbudget] using hlen) 1
  | endDispatch =>
    intro hstop
    obtain ⟨hqueue, hlen⟩ := h hstop
    refine ⟨hqueue, ?_⟩
    have hend : s.budget = some 0 ∨ s.deal = [] := by
      simp only [enabled, Bool.and_eq_true, Bool.or_eq_true, decide_eq_true_eq] at henabled
      exact henabled.2
    change s.deal.length ≤ 0
    rcases hend with hend | hend
    · rw [hend] at hlen
      exact hlen
    · rw [hend]
      exact Nat.le_refl 0
  | answer n result => cases result <;> exact h
  | udpConnect b ok =>
    obtain ⟨udp, sockPeer, heq, -⟩ := s.exists_udpConnect b ok
    dsimp only [Service.effect]
    rw [heq]
    exact h
  | cancelTimer n =>
    obtain ⟨timers, heq⟩ := s.exists_cancelTimer (.user n)
    dsimp only [Service.effect]
    rw [heq]
    exact h
  | _ => exact h

theorem Drained.finishStop (inetPton : Host → Option Ip) (h : s.Drained)
    (henabled : s.enabled .finishStop = true) :
    (s.effect inetPton .finishStop).queue = [] ∧ (s.effect inetPton .finishStop).deal = [] := by
  have hphase : s.phase = .stopping ∧ s.budget = none := by simpa [enabled] using henabled
  obtain ⟨hqueue, hlen⟩ := h hphase.1
  have hdeal : s.deal = [] := by
    rw [hphase.2] at hlen
    exact List.eq_nil_of_length_eq_zero (Nat.le_zero.1 hlen)
  obtain ⟨io, sockets, heq⟩ := s.exists_clearTransports
  dsimp only [Service.effect, Service.finishStop]
  rw [heq]
  exact ⟨hqueue, hdeal⟩

/-- Once all is handed over, a run hands over only what it fires. -/
theorem handed_of_run {as : List Action} {s' : Service} (h : s.Ledger)
    (hhanded : s.handed = s.fired) (hrun : Machine.run (step inetPton) as s = some s') :
    ∃ es hs, s'.fired = s.fired ++ es ∧ s'.handed = s.handed ++ hs ∧ hs <+: es := by
  have hlater : s'.Ledger ∧ s.fired <+: s'.fired ∧ s.handed <+: s'.handed := by
    refine Machine.invariant_of_run
      (I := fun t => Ledger t ∧ s.fired <+: t.fired ∧ s.handed <+: t.handed) ?_ ?_ hrun
    · intro t a t' ht hstep
      obtain ⟨henabled, rfl⟩ := step_eq_some.1 hstep
      have hprefix := prefix_effect inetPton henabled
      exact ⟨ht.1.effect henabled, ht.2.1.trans hprefix.1, ht.2.2.trans hprefix.2⟩
    · exact ⟨h, List.prefix_rfl, List.prefix_rfl⟩
  obtain ⟨hledger, ⟨es, hes⟩, ⟨hs, hhs⟩⟩ := hlater
  refine ⟨es, hs, hes.symm, hhs.symm, s'.waiting, ?_⟩
  have hall : s'.handed ++ s'.waiting = s'.fired := hledger
  rw [← hhs, ← hes, hhanded, List.append_assoc] at hall
  exact List.append_cancel_left hall

end Service

/-- A stop hands over every event that was fired, each once and in order, and leaves both halves of
the queue empty; what is handed over later was fired later. -/
theorem handed_of_stop {inetPton : Host → Option Ip} {channelCount : ℕ} {options : Options}
    {uparams : ℕ → UnpackParams} {as : List Action} {s s' : Service}
    (hrun : Machine.run (step inetPton) as (.fresh channelCount options uparams) = some s)
    (hcond : Machine.Meets (step inetPton) NothingDealt as (.fresh channelCount options uparams))
    (hstop : step inetPton .finishStop s = some s') :
    s'.handed = s'.fired ∧ s'.queue = [] ∧ s'.deal = [] ∧
      ∀ bs s'', Machine.run (step inetPton) bs s' = some s'' →
        ∃ es hs, s''.fired = s'.fired ++ es ∧ s''.handed = s'.handed ++ hs ∧ hs <+: es := by
  have h : s.Ledger ∧ s.Drained := by
    refine Machine.invariant_of_meets (I := fun s => Service.Ledger s ∧ Service.Drained s)
      ?_ ?_ hcond hrun
    · intro s a s' hs hcond hstep
      obtain ⟨henabled, rfl⟩ := step_eq_some.1 hstep
      exact ⟨hs.1.effect henabled, hs.2.effect henabled hcond⟩
    · exact ⟨rfl, nofun⟩
  obtain ⟨henabled, rfl⟩ := step_eq_some.1 hstop
  have hledger : (s.effect inetPton .finishStop).Ledger := h.1.effect henabled
  obtain ⟨hqueue, hdeal⟩ := h.2.finishStop inetPton henabled
  have hhanded :
      (s.effect inetPton .finishStop).handed = (s.effect inetPton .finishStop).fired := by
    rw [← show _ = (s.effect inetPton .finishStop).fired from hledger]
    unfold Service.waiting
    rw [hdeal, hqueue, List.append_nil, List.append_nil]
  exact ⟨hhanded, hqueue, hdeal, fun bs s'' => Service.handed_of_run hledger hhanded⟩

/-- Channels 0 and 1 fail to connect, which fires an event for each. -/
def failTwice : List Action :=
  [.start, .openKind 0 Yck.tcpClient, .openTest 0, .openMask 0, .openInsert 0,
    .openKind 1 Yck.tcpClient, .openTest 0, .openMask 0, .openInsert 0, .frame 1,
    .poll (some fun _ => {}), .transport {}, .channel {}, .channel {}, .channel {}, .timer none,
    .endEvents]

/-- The service is stopped; its worker takes one more frame. -/
def stopWorker : List Action :=
  [.stop, .frame 2, .poll (some fun _ => {}), .transport {}, .timer none, .endEvents, .join]

theorem handed_of_stop_failTwice :
    ∃ s, Machine.run (step fun _ => none)
        (failTwice ++ stopWorker ++ [.nextEvent, .endEvent, .nextEvent, .endEvent, .endDispatch])
        (.fresh 2 { noDispatch := true } fun _ => {}) = some s ∧
      (s.enabled .finishStop = true ∧ s.fired.length = 2) ∧
        (s.effect (fun _ => none) .finishStop).handed =
          (s.effect (fun _ => none) .finishStop).fired := by
  obtain ⟨s, hrun, hs⟩ := Machine.exists_of_any (step fun _ => none)
    (failTwice ++ stopWorker ++ [.nextEvent, .endEvent, .nextEvent, .endEvent, .endDispatch])
    (.fresh 2 { noDispatch := true } fun _ => {})
    (fun s => s.enabled .finishStop = true ∧ s.fired.length = 2) (by decide +kernel)
  exact ⟨s, hrun, hs, (handed_of_stop hrun (by decide +kernel) (step_eq_some.2 ⟨hs.1, rfl⟩)).1⟩

/-- A dispatch of one event leaves the other one in `deal_`; the stop finds `queue_` empty and
hands over nothing. -/
theorem deal_after_stop :
    ∃ s, Machine.run (step fun _ => none)
        (failTwice ++ [.beginDispatch 1, .nextEvent, .endEvent, .endDispatch] ++ stopWorker ++
          [.finishStop])
        (.fresh 2 { noDispatch := true } fun _ => {}) = some s ∧
      s.phase = .idle ∧ s.handed ≠ s.fired ∧ s.deal ≠ [] :=
  Machine.exists_of_any _ _ _ _ (by decide +kernel)

end Yasio
