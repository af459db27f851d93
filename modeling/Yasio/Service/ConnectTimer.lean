import Yasio.Service.Reopen
import Yasio.Service.ServerTurn

/-!
# The connect timer

The timer of a client channel is in the queue exactly while the channel is connecting, with the
expiry that the connect set.
-/

namespace Yasio

open Function (update)

namespace Service

variable {s s' t : Service} {i j : ℕ} {a : ChannelAnswers} {inetPton : Host → Option Ip}

/-! ## The queue -/

theorem mem_sortTimers {t : TimerId} : t ∈ s.sortTimers.timerQueue ↔ t ∈ s.timerQueue :=
  (List.perm_insertionSort _ _).mem_iff

theorem nodup_sortTimers (h : s.timerQueue.Nodup) : s.sortTimers.timerQueue.Nodup :=
  (List.perm_insertionSort _ _).nodup_iff.2 h

theorem mem_scheduleTimer {t t' : TimerId} :
    t' ∈ (s.scheduleTimer t).timerQueue ↔ t' = t ∨ t' ∈ s.timerQueue := by
  unfold scheduleTimer
  rw [mem_sortTimers]
  dsimp only
  split
  · next hmem =>
    constructor
    · exact .inr
    · rintro (rfl | h)
      · exact hmem
      · exact h
  · rw [List.mem_append, List.mem_singleton, or_comm]

theorem nodup_scheduleTimer (h : s.timerQueue.Nodup) (t : TimerId) :
    (s.scheduleTimer t).timerQueue.Nodup := by
  apply nodup_sortTimers
  dsimp only
  split
  · exact h
  · next hmem => exact List.Nodup.append h (List.nodup_singleton _) (List.disjoint_singleton.2 hmem)

theorem mem_cancelTimer (h : s.timerQueue.Nodup) {t t' : TimerId} :
    t' ∈ (s.cancelTimer t).timerQueue ↔ t' ∈ s.timerQueue ∧ (s.expired t = true ∨ t' ≠ t) := by
  unfold cancelTimer removeTimer
  split
  · next hexpired => simp [hexpired]
  · next hexpired =>
    split
    · rw [mem_sortTimers]
      simp [h.mem_erase_iff, hexpired, and_comm]
    · next hmem =>
      constructor
      · exact fun h' => ⟨h', .inr fun heq => hmem (heq ▸ h')⟩
      · exact fun h' => h'.1

theorem nodup_cancelTimer (h : s.timerQueue.Nodup) (t : TimerId) :
    (s.cancelTimer t).timerQueue.Nodup := by
  unfold cancelTimer removeTimer
  split
  · exact h
  · split
    · exact nodup_sortTimers (h.erase t)
    · exact h

theorem expireTime_cancelTimer (s : Service) (t : TimerId) :
    (s.cancelTimer t).expireTime = s.expireTime := by
  unfold cancelTimer removeTimer
  split
  · rfl
  · split <;> rfl

theorem notes_cancelTimer (s : Service) (t : TimerId) :
    (s.cancelTimer t).armed = s.armed ∧ (s.cancelTimer t).timeouts = s.timeouts := by
  obtain ⟨timers, heq⟩ := s.exists_cancelTimer t
  rw [heq]
  exact ⟨rfl, rfl⟩

/-! ## Parts that leave the timers -/

/-- The timers, and what is recorded of them. -/
def clocks (s : Service) : Timers × List Armed × List Timeout := (s.toTimers, s.armed, s.timeouts)

theorem clocks_resolves (h : Resolves i s s') : s'.clocks = s.clocks := by
  obtain ⟨net, queries, options, error, rfl⟩ := h
  rfl

theorem clocks_handleConnectFailed (s : Service) (i : ℕ) (error : Int) :
    (s.handleConnectFailed i error).clocks = s.clocks := rfl

theorem clocks_unbound (s : Service) (i : ℕ) : (s.unbound i).clocks = s.clocks := by
  unfold unbound
  dsimp only
  split <;> rfl

theorem clocks_takeOpen (s : Service) (i : ℕ) : (s.takeOpen i).clocks = s.clocks := by
  unfold takeOpen
  split <;> rfl

theorem clocks_establish (s : Service) (i : ℕ) (k : SockId) (interval : ℕ) (ok : Bool) :
    (s.establish i k interval ok).clocks = s.clocks := by
  obtain ⟨udp, sockPeer, heq⟩ := s.establish_eq (i := i) rfl k interval ok
  rw [heq]
  rfl

theorem clocks_acceptPeer (hclient : testbits (s.kind i) Ycm.client = false) (peer : Endpoint)
    (fd : Fd) (a : ChannelAnswers) : (s.acceptPeer i peer fd a).clocks = s.clocks := by
  obtain ⟨chan, udp, sockPeer, transportMap, mapKey, client, -, heq⟩ :=
    acceptPeer_eq hclient peer fd a
  rw [heq]
  rfl

theorem clocks_handleInput (s : Service) (b : Block) (data : List UInt8) (error : Option ℕ) :
    (s.handleInput b data error).clocks = s.clocks := by
  unfold handleInput
  split
  · split <;> rfl
  · split <;> rfl

theorem clocks_maskTurn (h : MaskTurn i a s t) : t.clocks = s.clocks := by
  cases h <;> rfl

theorem clocks_serverTurn (hclient : testbits (s.kind i) Ycm.client = false)
    (h : ServerTurn i a s t) : t.clocks = s.clocks := by
  cases h with
  | closed hstate | unready hready | nothing hready | lost hready => rfl
  | accepts hready fd hfd => exact clocks_establish _ i s.nextSock a.interval true
  | datagram hready b hfind => exact clocks_handleInput _ b _ _
  | newPeer hready hfind fd hfd =>
    exact (clocks_handleInput _ s.freshBlock _ _).trans
      (clocks_acceptPeer (s := s.ask i { read := true }) hclient a.peer fd a)

/-- A client's turn leaves the timers, sets its own or cancels its own. -/
theorem clocks_clientTurn (h : ClientTurn i a s t) :
    t.clocks = s.clocks ∨
      (∃ u : Service, u.clocks = s.clocks ∧ t = u.awaitConnect i a) ∨
        ∃ u : Service, u.clocks = s.clocks ∧ t = u.cancelTimer (.connect i) := by
  cases h with
  | idle hstate | pending hstate hready => exact .inl rfl
  | waits hstate hres herror => exact .inl (clocks_resolves hres)
  | unresolved hstate hres error =>
    exact .inl ((clocks_handleConnectFailed _ i error).trans (clocks_resolves hres))
  | noSocket hstate hres error => exact .inl ((clocks_unbound _ i).trans (clocks_resolves hres))
  | refused hstate hres fd hfd error =>
    exact .inl ((clocks_unbound _ i).trans (clocks_resolves hres))
  | @starts hstate s₁ hres fd hfd =>
    exact .inr (.inl ⟨(s₁.unbound i).attempted i fd,
      (clocks_unbound _ i).trans (clocks_resolves hres), rfl⟩)
  | connects hstate hres fd hfd =>
    exact .inl ((clocks_establish _ i i a.interval a.dgramConnect).trans
      ((clocks_unbound _ i).trans (clocks_resolves hres)))
  | completes hstate hready =>
    let u := (s.ask i connectReady).modEvent i .none { write := true }
    exact .inr (.inr ⟨u.establish i i a.interval a.dgramConnect,
      u.clocks_establish i i a.interval a.dgramConnect, rfl⟩)
  | fails hstate hready error =>
    exact .inr (.inr ⟨(s.ask i connectReady).handleConnectFailed i error, rfl, rfl⟩)

/-! ## Steps that are not about the connect -/

/-- What everything that is not about the connect of channel `i` leaves of its timer. -/
structure Aside (i : ℕ) (s s' : Service) : Prop where
  nodup : s.timerQueue.Nodup → s'.timerQueue.Nodup
  timer : s.timerQueue.Nodup → (.connect i ∈ s'.timerQueue ↔ .connect i ∈ s.timerQueue)
  expiry : s'.expireTime (.connect i) = s.expireTime (.connect i)
  armed : ∃ xs, s'.armed = s.armed ++ xs ∧ ∀ x ∈ xs, x.channel ≠ i
  timeouts : ∃ xs, s'.timeouts = s.timeouts ++ xs ∧ ∀ x ∈ xs, x.channel ≠ i

theorem Aside.refl (i : ℕ) (s : Service) : Aside i s s :=
  ⟨id, fun _ => Iff.rfl, rfl, ⟨[], by simp⟩, ⟨[], by simp⟩⟩

theorem Aside.of_clocks (h : s'.clocks = s.clocks) : Aside i s s' := by
  have htimers : s'.toTimers = s.toTimers := congrArg Prod.fst h
  have harmed : s'.armed = s.armed := congrArg (fun c => c.2.1) h
  have htimeouts : s'.timeouts = s.timeouts := congrArg (fun c => c.2.2) h
  refine ⟨?_, ?_, ?_, ⟨[], ?_⟩, ⟨[], ?_⟩⟩
  · rw [htimers]
    exact id
  · rw [htimers]
    exact fun _ => Iff.rfl
  · rw [htimers]
  · simp [harmed]
  · simp [htimeouts]

theorem Aside.trans {s'' : Service} (h : Aside i s s') (h' : Aside i s' s'') : Aside i s s'' where
  nodup hn := h'.nodup (h.nodup hn)
  timer hn := (h'.timer (h.nodup hn)).trans (h.timer hn)
  expiry := h'.expiry.trans h.expiry
  armed := by
    obtain ⟨xs, hx, hxs⟩ := h.armed
    obtain ⟨xs', hx', hxs'⟩ := h'.armed
    refine ⟨xs ++ xs', by rw [hx', hx, List.append_assoc], ?_⟩
    intro x hmem
    exact (List.mem_append.1 hmem).elim (hxs x) (hxs' x)
  timeouts := by
    obtain ⟨xs, hx, hxs⟩ := h.timeouts
    obtain ⟨xs', hx', hxs'⟩ := h'.timeouts
    refine ⟨xs ++ xs', by rw [hx', hx, List.append_assoc], ?_⟩
    intro x hmem
    exact (List.mem_append.1 hmem).elim (hxs x) (hxs' x)

theorem Aside.cancelTimer {t : TimerId} (ht : t ≠ .connect i) : Aside i s (s.cancelTimer t) where
  nodup h := nodup_cancelTimer h t
  timer h := by simp [mem_cancelTimer h, ht.symm]
  expiry := congrFun (s.expireTime_cancelTimer t) _
  armed := ⟨[], by simp [(s.notes_cancelTimer t).1]⟩
  timeouts := ⟨[], by simp [(s.notes_cancelTimer t).2]⟩

theorem Aside.expiresAt {t : TimerId} (ht : t ≠ .connect i) (time : ℕ) :
    Aside i s (s.expiresAt t time) where
  nodup h := h
  timer _ := Iff.rfl
  expiry := Function.update_of_ne ht.symm _ _
  armed := ⟨[], by simp [Service.expiresAt]⟩
  timeouts := ⟨[], by simp [Service.expiresAt]⟩

theorem Aside.scheduleTimer {t : TimerId} (ht : t ≠ .connect i) (time : ℕ) :
    Aside i s ((s.expiresAt t time).scheduleTimer t) where
  nodup h := nodup_scheduleTimer (s := s.expiresAt t time) h t
  timer _ := by
    rw [mem_scheduleTimer]
    simp [ht.symm, Service.expiresAt]
  expiry := Function.update_of_ne ht.symm _ _
  armed := ⟨[], by simp [Service.scheduleTimer, sortTimers, Service.expiresAt]⟩
  timeouts := ⟨[], by simp [Service.scheduleTimer, sortTimers, Service.expiresAt]⟩

theorem Aside.awaitConnect (hij : j ≠ i) (a : ChannelAnswers) : Aside i s (s.awaitConnect j a) := by
  let s₁ := (s.setChan j { s.chan j with error := EINPROGRESS }).modEvent j .readwrite .none
  have h : Aside i s₁ ((s₁.expiresAt (.connect j) (a.now + s.options.connectTimeout)).scheduleTimer
      (.connect j)) := by
    apply Aside.scheduleTimer
    intro heq
    exact hij (TimerId.connect.inj heq)
  obtain ⟨xs, hx, hxs⟩ := h.armed
  refine ⟨h.nodup, h.timer, h.expiry,
    ⟨xs ++ [⟨j, s.gen j, a.now + s.options.connectTimeout⟩], ?_, ?_⟩, h.timeouts⟩
  · rw [← List.append_assoc]
    exact congrArg (· ++ [_]) hx
  · intro x hmem
    rcases List.mem_append.1 hmem with hmem | hmem
    · exact hxs x hmem
    · rw [List.mem_singleton.1 hmem]
      exact hij

theorem Aside.clientTurn (hij : j ≠ i) (h : ClientTurn j a s t) : Aside i s t := by
  rcases clocks_clientTurn h with h | ⟨u, hu, rfl⟩ | ⟨u, hu, rfl⟩
  · exact .of_clocks h
  · exact (Aside.of_clocks hu).trans (.awaitConnect hij a)
  · refine (Aside.of_clocks hu).trans (.cancelTimer ?_)
    intro heq
    exact hij (TimerId.connect.inj heq)

/-- The visit of another channel, of whatever kind. -/
theorem Aside.visitChannel (hij : j ≠ i) (n : ℕ) (a : ChannelAnswers) :
    Aside i s (s.visitChannel inetPton n j a) := by
  cases hclient : testbits (s.kind j) Ycm.client with
  | true =>
    obtain ⟨t, hturn, ht⟩ := exists_clientTurn inetPton n a hclient
    have haside : Aside i s t :=
      (Aside.of_clocks (s.clocks_takeOpen j)).trans (.clientTurn hij hturn)
    rcases ht with ⟨-, ht⟩ | ⟨-, ht⟩
    · rw [ht]
      exact haside.trans (.of_clocks rfl)
    · rw [ht]
      exact haside.trans (.of_clocks rfl)
  | false =>
    obtain ⟨t, hturn, ht⟩ := exists_serverTurn inetPton n a hclient
    have haside : Aside i s t := by
      rcases hturn with rfl | ⟨s₁, hmask, hserver⟩
      · exact .refl i t
      · refine (Aside.of_clocks (clocks_maskTurn hmask)).trans (.of_clocks ?_)
        apply clocks_serverTurn _ hserver
        rw [kind_maskTurn hmask]
        exact hclient
    rcases ht with ht | ht
    · rw [ht]
      exact haside.trans (.of_clocks rfl)
    · rw [ht]
      exact haside.trans (.of_clocks rfl)

/-! ## The invariant -/

/-- The invariant of the timer of channel `i`. -/
structure Timed (s : Service) (i : ℕ) : Prop where
  nodup : s.timerQueue.Nodup
  timer : .connect i ∈ s.timerQueue ↔ (s.chan i).state = .connecting
  armed : (s.chan i).state = .connecting → ⟨i, s.gen i, s.expireTime (.connect i)⟩ ∈ s.armed
  le : ∀ x ∈ s.armed, x.channel = i → x.gen ≤ s.gen i
  once : ∀ x ∈ s.armed, ∀ y ∈ s.armed, x.channel = i → y.channel = i → x.gen = y.gen → x = y
  timeouts : ∀ x ∈ s.timeouts, x.channel = i →
    x.state = .connecting ∧ ⟨i, x.gen, x.expiry⟩ ∈ s.armed ∧ x.expiry ≤ x.time

theorem Timed.of_aside (h : s.Timed i) (ha : Aside i s s')
    (hstate : (s'.chan i).state = .connecting ↔ (s.chan i).state = .connecting)
    (hgen : s.gen i ≤ s'.gen i) (hsame : (s.chan i).state = .connecting → s'.gen i = s.gen i) :
    s'.Timed i := by
  obtain ⟨xs, harmed, hxs⟩ := ha.armed
  obtain ⟨ys, htimeouts, hys⟩ := ha.timeouts
  have hold : ∀ x ∈ s'.armed, x.channel = i → x ∈ s.armed := by
    intro x hx hchannel
    rw [harmed] at hx
    exact (List.mem_append.1 hx).resolve_right fun hx => hxs x hx hchannel
  refine ⟨ha.nodup h.nodup, ?_, ?_, ?_, ?_, ?_⟩
  · rw [ha.timer h.nodup, h.timer, hstate]
  · intro hconnecting
    have hconnecting' := hstate.1 hconnecting
    rw [harmed, hsame hconnecting', ha.expiry]
    exact List.mem_append_left _ (h.armed hconnecting')
  · exact fun x hx hchannel => (h.le x (hold x hx hchannel) hchannel).trans hgen
  · exact fun x hx y hy hchannel hchannel' =>
      h.once x (hold x hx hchannel) y (hold y hy hchannel') hchannel hchannel'
  · intro x hx hchannel
    rw [htimeouts] at hx
    have hx := (List.mem_append.1 hx).resolve_right fun hx => hys x hx hchannel
    obtain ⟨hs, hmem, hle⟩ := h.timeouts x hx hchannel
    refine ⟨hs, ?_, hle⟩
    rw [harmed]
    exact List.mem_append_left _ hmem

/-! ## The turn of the channel -/

/-- A new attempt that has to wait sets the timer. -/
theorem Timed.awaitConnect (h : s.Timed i) {u : Service} (hclocks : u.clocks = s.clocks)
    (hgen : u.gen i = s.gen i + 1) (hstate : (u.chan i).state = .connecting)
    (a : ChannelAnswers) : (u.awaitConnect i a).Timed i := by
  have htimers : u.toTimers = s.toTimers := congrArg Prod.fst hclocks
  have hnodup : u.timerQueue.Nodup := by
    rw [htimers]
    exact h.nodup
  have harmed : (u.awaitConnect i a).armed =
      s.armed ++ [⟨i, u.gen i, a.now + u.options.connectTimeout⟩] := by
    rw [← show u.armed = s.armed from congrArg (fun c => c.2.1) hclocks]
    rfl
  have htimeouts : (u.awaitConnect i a).timeouts = s.timeouts := congrArg (fun c => c.2.2) hclocks
  have hstate' : ((u.awaitConnect i a).chan i).state = .connecting := by
    change (update u.chan i { u.chan i with error := EINPROGRESS } i).state = .connecting
    rw [Function.update_self]
    exact hstate
  have hgen' : (u.awaitConnect i a).gen i = u.gen i := rfl
  have hcases : ∀ x ∈ (u.awaitConnect i a).armed, x.channel = i →
      x ∈ s.armed ∧ x.gen < u.gen i ∨ x = ⟨i, u.gen i, a.now + u.options.connectTimeout⟩ := by
    intro x hx hchannel
    rw [harmed] at hx
    rcases List.mem_append.1 hx with hx | hx
    · left
      refine ⟨hx, ?_⟩
      rw [hgen]
      exact Nat.lt_succ_of_le (h.le x hx hchannel)
    · right
      exact List.mem_singleton.1 hx
  let u₁ := ((u.setChan i { u.chan i with error := EINPROGRESS }).modEvent i .readwrite
    .none).expiresAt (.connect i) (a.now + u.options.connectTimeout)
  refine ⟨nodup_scheduleTimer (s := u₁) hnodup (.connect i), ?_, ?_, ?_, ?_, ?_⟩
  · simp only [hstate', iff_true]
    exact mem_scheduleTimer (s := u₁).2 (.inl rfl)
  · intro _
    rw [harmed, hgen', show (u.awaitConnect i a).expireTime (.connect i) =
      a.now + u.options.connectTimeout from Function.update_self _ _ _]
    exact List.mem_append_right _ (List.mem_singleton.2 rfl)
  · intro x hx hchannel
    rcases hcases x hx hchannel with ⟨-, hlt⟩ | rfl
    · exact hlt.le
    · exact Nat.le_refl _
  · intro x hx y hy hchannel hchannel' heq
    rcases hcases x hx hchannel with ⟨hx, hlt⟩ | rfl
    · rcases hcases y hy hchannel' with ⟨hy, -⟩ | rfl
      · exact h.once x hx y hy hchannel hchannel' heq
      · exact absurd heq hlt.ne
    · rcases hcases y hy hchannel' with ⟨hy, hlt⟩ | rfl
      · exact absurd heq hlt.ne'
      · rfl
  · intro x hx hchannel
    rw [htimeouts] at hx
    obtain ⟨hs, hmem, hle⟩ := h.timeouts x hx hchannel
    refine ⟨hs, ?_, hle⟩
    rw [harmed]
    exact List.mem_append_left _ hmem

/-- The end of a connect that was waited for takes the timer from the queue, if it has not
expired. -/
theorem Timed.cancelTimer (h : s.Timed i) {u : Service} (hclocks : u.clocks = s.clocks)
    (hgen : u.gen i = s.gen i) (hexpired : u.expired (.connect i) = false)
    (hstate : (u.chan i).state ≠ .connecting) : (u.cancelTimer (.connect i)).Timed i := by
  have htimers : u.toTimers = s.toTimers := congrArg Prod.fst hclocks
  have harmed : u.armed = s.armed := congrArg (fun c => c.2.1) hclocks
  have htimeouts : u.timeouts = s.timeouts := congrArg (fun c => c.2.2) hclocks
  have hnodup : u.timerQueue.Nodup := by
    rw [htimers]
    exact h.nodup
  have hout : .connect i ∉ (u.cancelTimer (.connect i)).timerQueue := by
    rw [mem_cancelTimer hnodup]
    simp [hexpired]
  have hnotes := u.notes_cancelTimer (.connect i)
  have hq : (u.cancelTimer (.connect i)).chan = u.chan ∧
      (u.cancelTimer (.connect i)).gen = u.gen := by
    obtain ⟨timers, heq⟩ := u.exists_cancelTimer (.connect i)
    rw [heq]
    exact ⟨rfl, rfl⟩
  refine ⟨nodup_cancelTimer hnodup _, ?_, ?_, ?_, ?_, ?_⟩
  · rw [hq.1]
    exact ⟨fun hmem => absurd hmem hout, fun hs => absurd hs hstate⟩
  · rw [hq.1]
    exact fun hs => absurd hs hstate
  · rw [hnotes.1, harmed, hq.2, hgen]
    exact h.le
  · rw [hnotes.1, harmed]
    exact h.once
  · rw [hnotes.1, hnotes.2, harmed, htimeouts]
    exact h.timeouts

theorem Timed.clientTurn (h : s.Timed i) (hclient : testbits (s.kind i) Ycm.client = true)
    (hexpired : (s.chan i).state = .connecting → s.ready i connectReady = true →
      s.expired (.connect i) = false) (hturn : ClientTurn i a s t) : t.Timed i := by
  -- A failure before the attempt: no timer is armed yet, so none has to be cancelled.
  have hfailed : ∀ {u : Service} (error : Int), u.clocks = s.clocks → s.gen i ≤ u.gen i →
      (s.chan i).state = .resolving → (u.handleConnectFailed i error).Timed i := by
    intro u error hclocks hgen hstate
    refine h.of_aside (.of_clocks ((u.clocks_handleConnectFailed i error).trans hclocks)) ?_ hgen ?_
    · rw [state_handleConnectFailed, hstate]
      simp
    · rw [hstate]
      exact nofun
  cases hturn with
  | idle hstate | pending hstate hready => exact h
  | waits hstate hres herror =>
    obtain ⟨hgen, hsame⟩ := gen_resolves hres
    exact h.of_aside (.of_clocks (clocks_resolves hres)) (by rw [hsame]) (by rw [hgen])
      fun _ => by rw [hgen]
  | unresolved hstate hres error =>
    exact hfailed error (clocks_resolves hres) (by rw [(gen_resolves hres).1]) hstate
  | @noSocket hstate s₁ hres error =>
    refine hfailed error ((s₁.clocks_unbound i).trans (clocks_resolves hres)) ?_ hstate
    rw [gen_unbound, (gen_resolves hres).1]
  | @refused hstate s₁ hres fd hfd error =>
    refine hfailed error ((s₁.clocks_unbound i).trans (clocks_resolves hres)) ?_ hstate
    rw [gen_attempted, gen_unbound, (gen_resolves hres).1]
    exact Nat.le_succ _
  | @starts hstate s₁ hres fd hfd =>
    refine h.awaitConnect (u := (s₁.unbound i).attempted i fd)
      ((s₁.clocks_unbound i).trans (clocks_resolves hres)) ?_ (s₁.state_unbound i) a
    rw [gen_attempted, gen_unbound, (gen_resolves hres).1]
  -- Connected at once: the timer is never armed.
  | @connects hstate s₁ hres fd hfd =>
    let u := ((s₁.unbound i).attempted i fd).modEvent i { read := true } .none
    have hclient' : testbits (u.kind i) Ycm.client = true := by
      rw [show u.kind = s.kind from (s₁.kind_unbound i).trans (Bare.of_resolves hres).kind]
      exact hclient
    have hchan := congrFun (u.chan_establish hclient' i a.interval a.dgramConnect) i
    refine h.of_aside (.of_clocks ((u.clocks_establish i i a.interval a.dgramConnect).trans
      ((s₁.clocks_unbound i).trans (clocks_resolves hres)))) ?_ ?_ ?_
    · rw [hchan, Function.update_self, hstate]
      exact ⟨nofun, nofun⟩
    · rw [(u.gen_establish (j := i) i a.interval a.dgramConnect).1]
      change s.gen i ≤ ((s₁.unbound i).attempted i fd).gen i
      rw [gen_attempted, gen_unbound, (gen_resolves hres).1]
      exact Nat.le_succ _
    · rw [hstate]
      exact nofun
  -- The attempt ends and the timer with it; it had not expired by then.
  | completes hstate hready =>
    let u := (s.ask i connectReady).modEvent i .none { write := true }
    have hchan := congrFun (u.chan_establish hclient i a.interval a.dgramConnect) i
    have hclocks := u.clocks_establish i i a.interval a.dgramConnect
    refine h.cancelTimer (u := u.establish i i a.interval a.dgramConnect) hclocks ?_ ?_ ?_
    · exact congrFun (u.gen_establish (j := i) i a.interval a.dgramConnect).1 i
    · obtain ⟨udp, sockPeer, heq⟩ := u.establish_eq hclient i a.interval a.dgramConnect
      rw [heq]
      exact hexpired hstate hready
    · rw [hchan, Function.update_self]
      exact nofun
  | fails hstate hready error =>
    refine h.cancelTimer (u := (s.ask i connectReady).handleConnectFailed i error) rfl rfl
      (hexpired hstate hready) ?_
    rw [state_handleConnectFailed]
    exact nofun

/-! ## Steps -/

theorem state_dropTransport (s : Service) (n : ℕ) (b : Block) (tail i : ℕ) :
    ((s.dropTransport n b tail).chan i).state = (s.chan i).state ∨
      (s.built b).ctx = i ∧ ((s.dropTransport n b tail).chan i).state = .closed := by
  by_cases hi : (s.built b).ctx = i
  · unfold dropTransport handleClose
    dsimp only
    split
    · right
      refine ⟨hi, ?_⟩
      subst hi
      simp [Service.cleanupChannel, Service.setChan, IoBase.cleanup]
    · exact .inl rfl
  · left
    obtain ⟨chan, io, sockets, heq, hchan⟩ := s.exists_dropTransport n b tail
    rw [heq]
    exact congrArg IoBase.state (hchan i (Ne.symm hi))

theorem clocks_visitTransport (s : Service) (n : ℕ) (b : Block) (a : TransportAnswers) :
    (s.visitTransport n b a).clocks = s.clocks ∧
      ∀ i, ((s.visitTransport n b a).chan i).state = (s.chan i).state ∨
        (s.built b).ctx = i ∧ ((s.visitTransport n b a).chan i).state = .closed := by
  obtain ⟨s', hs', hend⟩ := s.exists_turnEnd (b := b) n a
  have ht : Touched b s s' := (s.touched_atRead (b := b) a).trans hs'.toTouched
  have hclocks : s'.clocks = s.clocks := by
    unfold clocks
    rw [ht.timers, ht.notes.1, ht.notes.2.1]
  have hchan : s'.chan = s.chan := congrArg Channels.chan ht.channels
  rw [← hchan, ← show s'.built = s.built from congrArg Pool.built ht.pool]
  generalize s.visitTransport n b a = t at hend
  cases hend with
  | thrown | kept hasked => exact ⟨hclocks, fun _ => .inl rfl⟩
  | dropped =>
    refine ⟨?_, fun i => s'.state_dropTransport n b a.tail i⟩
    obtain ⟨chan, io, sockets, heq, -⟩ := s'.exists_dropTransport n b a.tail
    rw [heq]
    exact hclocks

theorem gen_visitTransport (s : Service) (n : ℕ) (b : Block) (a : TransportAnswers) :
    (s.visitTransport n b a).gen = s.gen := by
  obtain ⟨s', hs', hend⟩ := s.exists_turnEnd (b := b) n a
  have ht : Touched b s s' := (s.touched_atRead (b := b) a).trans hs'.toTouched
  rw [← ht.gen_eq]
  generalize s.visitTransport n b a = t at hend
  cases hend with
  | thrown | kept hasked => rfl
  | dropped => exact (s'.dropTransport_frame n b a.tail).1

theorem Timed.visitTransport (h : s.Timed i) (n : ℕ) (b : Block)
    (hstate : (s.built b).ctx = i → (s.chan i).state ≠ .connecting) (a : TransportAnswers) :
    (s.visitTransport n b a).Timed i := by
  obtain ⟨hclocks, hchan⟩ := s.clocks_visitTransport n b a
  have hgen := congrFun (s.gen_visitTransport n b a) i
  refine h.of_aside (.of_clocks hclocks) ?_ (by rw [hgen]) fun _ => hgen
  rcases hchan i with hsame | ⟨hctx, hclosed⟩
  · rw [hsame]
  · rw [hclosed]
    exact ⟨nofun, fun hconnecting => absurd hconnecting (hstate hctx)⟩

theorem Timed.visitOther (h : s.Timed i) (hs : s.toPool.Sound) (hi : i < s.nextSock) (n : ℕ)
    (hij : j ≠ i) (a : ChannelAnswers) : (s.visitChannel inetPton n j a).Timed i := by
  obtain ⟨u, hturn, hu⟩ := s.exists_channelTurn inetPton n j a
  have hchan : (s.visitChannel inetPton n j a).chan i = s.chan i := by
    rw [← hturn.frame.chan i hij.symm]
    rcases hu with hu | hu <;> rw [hu]
  have hgen : (s.visitChannel inetPton n j a).gen i = s.gen i := by
    rw [← (Apart.of_channelTurn hij hi hs hturn).gen]
    rcases hu with hu | hu <;> rw [hu]
  exact h.of_aside (.visitChannel hij n a) (by rw [hchan]) hgen.ge fun _ => hgen

theorem Timed.takeOpen (h : s.Timed i)
    (hopen : (s.chan i).state = .connecting → (s.chan i).opOpen = false) :
    (s.takeOpen i).Timed i := by
  have haside : Aside i s (s.takeOpen i) := .of_clocks (s.clocks_takeOpen i)
  unfold Service.takeOpen at haside ⊢
  split
  · next hmask =>
    rw [if_pos hmask] at haside
    have hne : (s.chan i).state ≠ .connecting := by
      intro hstate
      rw [hopen hstate] at hmask
      cases hmask
    refine h.of_aside haside ?_ (Nat.le_refl _) fun _ => rfl
    change (update s.chan i _ i).state = .connecting ↔ _
    rw [Function.update_self]
    exact ⟨nofun, fun hstate => absurd hstate hne⟩
  · exact h

theorem Timed.visitSelf (h : s.Timed i) (n : ℕ) (a : ChannelAnswers)
    (hopen : (s.chan i).state = .connecting → (s.chan i).opOpen = false)
    (hexpired : (s.chan i).state = .connecting → s.ready i connectReady = true →
      s.expired (.connect i) = false)
    (hkind : testbits (s.kind i) Ycm.client = false → testbits (s.kind i) Ycm.server = false) :
    (s.visitChannel inetPton n i a).Timed i := by
  cases hclient : testbits (s.kind i) Ycm.client with
  | false =>
    rw [visitChannel_of_no_role inetPton n a hclient (hkind hclient)]
    exact h.of_aside (.of_clocks rfl) Iff.rfl (Nat.le_refl _) fun _ => rfl
  | true =>
    obtain ⟨t, hturn, ht⟩ := exists_clientTurn inetPton n a hclient
    have hclient' : testbits ((s.takeOpen i).kind i) Ycm.client = true :=
      s.kind_takeOpen i ▸ hclient
    have htimed : t.Timed i := by
      refine (h.takeOpen hopen).clientTurn hclient' (fun hstate => ?_) hturn
      have htake := takeOpen_of_connecting hstate
      rw [htake] at hstate ⊢
      exact hexpired hstate
    rcases ht with ⟨-, ht⟩ | ⟨-, ht⟩
    · rw [ht]
      exact htimed.of_aside (.of_clocks rfl) Iff.rfl (Nat.le_refl _) fun _ => rfl
    · rw [ht]
      exact htimed.of_aside (.of_clocks rfl) Iff.rfl (Nat.le_refl _) fun _ => rfl

/-- A timer that fires is taken from the queue. -/
theorem mem_dropLast (h : s.timerQueue.Nodup) {t' : TimerId}
    (hlast : s.timerQueue.getLast? = some t') (t : TimerId) :
    t ∈ s.timerQueue.dropLast ↔ t ∈ s.timerQueue ∧ t ≠ t' := by
  obtain ⟨ts, hts⟩ := List.getLast?_eq_some_iff.1 hlast
  rw [hts, List.dropLast_concat, List.mem_append, List.mem_singleton]
  have hout : t' ∉ ts := by
    rw [hts] at h
    exact List.disjoint_singleton.1 (List.disjoint_of_nodup_append h)
  constructor
  · exact fun hmem => ⟨.inl hmem, fun heq => hout (heq ▸ hmem)⟩
  · exact fun hmem => hmem.1.resolve_right hmem.2

theorem Aside.dropLast {t' : TimerId} (hlast : s.timerQueue.getLast? = some t')
    (hne : t' ≠ .connect i) : Aside i s { s with timerQueue := s.timerQueue.dropLast } :=
  { Aside.refl i s with
    nodup := fun h => h.sublist (List.dropLast_sublist _)
    timer := fun h => by simp [mem_dropLast h hlast, hne.symm] }

theorem Timed.timerTurn (h : s.Timed i) {n : ℕ} (hturn : TimerTurn n s t) : t.Timed i := by
  have haside : ∀ {u : Service}, Aside i s u → u.chan = s.chan → u.gen = s.gen → u.Timed i := by
    intro u hu hchan hgen
    exact h.of_aside hu (by rw [hchan]) (by rw [hgen]) fun _ => by rw [hgen]
  cases hturn with
  | ends timers htimers =>
    refine haside ?_ rfl rfl
    rcases htimers with rfl | rfl
    · exact .of_clocks rfl
    · exact { Aside.refl i s with nodup := nodup_sortTimers, timer := fun _ => mem_sortTimers }
  | userDone m hlast => exact haside (.dropLast hlast nofun) rfl rfl
  | userAgain m hlast time =>
    have hdrop : Aside i s { s with timerQueue := s.timerQueue.dropLast } := .dropLast hlast nofun
    refine haside { hdrop with nodup := ?_, timer := ?_, expiry := ?_ } rfl rfl
    · intro hn
      have hout : .user m ∉ s.timerQueue.dropLast := by simp [mem_dropLast hn hlast]
      exact List.Nodup.append (hdrop.nodup hn) (List.nodup_singleton _)
        (List.disjoint_singleton.2 hout)
    · intro hn
      rw [← hdrop.timer hn]
      simp
    · have hne : TimerId.connect i ≠ .user m := nofun
      change update s.expireTime (.user m) time (.connect i) = s.expireTime (.connect i)
      exact Function.update_of_ne hne time s.expireTime
  | late j hlast hexpired hstate =>
    have hne : j ≠ i := by
      rintro rfl
      have hmem := h.timer.1 (List.mem_of_getLast? hlast)
      cases hmem.symm.trans hstate
    exact haside (.dropLast hlast fun heq => hne (TimerId.connect.inj heq)) rfl rfl
  | timeout j hlast hexpired hstate =>
    by_cases hij : j = i
    · subst hij
      have hconnecting := h.timer.1 (List.mem_of_getLast? hlast)
      let s₁ : Service := { s with timerQueue := s.timerQueue.dropLast }
      have hclosed := s₁.state_handleConnectFailed j ETIMEDOUT
      refine ⟨h.nodup.sublist (List.dropLast_sublist _), ?_, ?_, h.le, h.once, ?_⟩
      · constructor
        · intro hmem
          exact absurd rfl ((mem_dropLast h.nodup hlast _).1 hmem).2
        · exact fun hc => nomatch hclosed.symm.trans hc
      · exact fun hc => nomatch hclosed.symm.trans hc
      · intro x hx hchannel
        rcases List.mem_append.1 hx with hx | hx
        · exact h.timeouts x hx hchannel
        · rw [List.mem_singleton.1 hx]
          exact ⟨hconnecting, h.armed hconnecting, of_decide_eq_true hexpired⟩
    · have hdrop : Aside i s { s with timerQueue := s.timerQueue.dropLast } :=
        .dropLast hlast fun heq => hij (TimerId.connect.inj heq)
      have hchan : (s.handleConnectFailed j ETIMEDOUT).chan i = s.chan i :=
        Function.update_of_ne (Ne.symm hij) _ _
      refine h.of_aside
        { hdrop with
          timeouts := ⟨_, rfl, fun x hx => by rw [List.mem_singleton.1 hx]; exact hij⟩ }
        ?_ (Nat.le_refl _) fun _ => rfl
      exact Iff.of_eq (congrArg (fun c : IoBase => c.state = .connecting) hchan)

/-- The invariant of the connect of channel `i`, with what it rests on. -/
structure Clocked (s : Service) (i : ℕ) : Prop extends s.Reopened i where
  timed : s.Timed i

end Service

/-- No request is taken up while channel `i` is connecting, its connect does not end after its
timer has expired, and the service does not become idle while it is connecting. -/
def TimersKept (i : ℕ) (s : Service) : Action → Prop
  | .channel _ => i ∈ s.channelTurn → (s.chan i).state = .connecting →
      (s.chan i).opOpen = false ∧
        (s.ready i connectReady = true → s.expired (.connect i) = false)
  | .finishStop => (s.chan i).state ≠ .connecting
  | _ => True

instance (i : ℕ) (s : Service) (a : Action) : Decidable (TimersKept i s a) := by
  unfold TimersKept
  induction a using Action.casesOn <;> infer_instance

namespace Service

variable {s : Service} {i : ℕ} {inetPton : Host → Option Ip}

theorem Clocked.effect (h : s.Clocked i) {a : Action} (henabled : s.enabled a = true)
    (hcond : OpensAhead i s a ∧ TimersKept i s a) (hclient : OpensClient i a) :
    (s.effect inetPton a).Clocked i := by
  refine ⟨h.toReopened.effect henabled hcond.1 hclient, ?_⟩
  have htimed := h.timed
  have hkept := hcond.2
  have hsame : ∀ {t : Service}, t.clocks = s.clocks → (t.chan i).state = (s.chan i).state →
      t.gen = s.gen → t.Timed i := by
    intro t hclocks hstate hgen
    exact htimed.of_aside (.of_clocks hclocks) (by rw [hstate]) (by rw [hgen]) fun _ => by rw [hgen]
  cases a with
  | transport a =>
    obtain ⟨n, hn, ⟨-, heq⟩ | ⟨b, hb, heq⟩⟩ := transport_cases inetPton henabled
    · exact heq ▸ hsame rfl rfl rfl
    · rw [heq]
      refine htimed.visitTransport n b (fun hctx hstate => ?_) a
      have hopened := h.isolated.opened b ⟨List.mem_of_getElem? hb, hctx⟩
      cases hopened.symm.trans hstate
  | channel a =>
    obtain ⟨n, hn, ⟨-, heq⟩ | ⟨j, hj, heq⟩⟩ := channel_cases inetPton henabled
    · exact heq ▸ hsame rfl rfl rfl
    · rw [heq]
      by_cases hij : j = i
      · subst hij
        have hturn := hkept (mem_channelTurn hn hj)
        exact htimed.visitSelf n a (fun hc => (hturn hc).1) (fun hc => (hturn hc).2)
          h.isolated.kind
      · exact htimed.visitOther h.sound h.isolated.lt n hij a
  | timer again =>
    obtain ⟨n, hn, heq⟩ := timer_cases inetPton henabled
    exact heq ▸ htimed.timerTurn (exists_timerTurn n again)
  | finishStop =>
    dsimp only [Service.effect]
    rw [h.toOrderly.finishStop_eq henabled]
    refine ⟨List.nodup_nil, ?_, htimed.armed, htimed.le, htimed.once, htimed.timeouts⟩
    exact ⟨by simp, fun hc => absurd hc hkept⟩
  | join =>
    obtain ⟨events, heq, -⟩ := s.exists_join
    dsimp only [Service.effect]
    rw [heq]
    exact hsame rfl rfl rfl
  | openMask n => exact hsame rfl (s.state_openMask n i) rfl
  | closeChannel j => exact hsame rfl (state_setChan (s.state_closedChan j) i) rfl
  | stop => exact hsame rfl (s.state_stop i) rfl
  | answer n result =>
    cases result with
    | ok result => exact hsame rfl rfl rfl
    | error error => exact hsame rfl (s.state_storeAnswer n (.error error) i) rfl
  | udpConnect b ok =>
    obtain ⟨udp, sockPeer, heq, -⟩ := s.exists_udpConnect b ok
    dsimp only [Service.effect]
    rw [heq]
    exact hsame rfl rfl rfl
  | expiresFromNow n time =>
    have hne : TimerId.user n ≠ .connect i := by simp
    exact htimed.of_aside (.expiresAt hne time) Iff.rfl (Nat.le_refl _) fun _ => rfl
  | scheduleTimer n time =>
    have hne : TimerId.user n ≠ .connect i := by simp
    exact htimed.of_aside (.scheduleTimer hne time) Iff.rfl (Nat.le_refl _) fun _ => rfl
  | cancelTimer n =>
    have haside : Aside i s (s.cancelTimer (.user n)) := .cancelTimer (by simp)
    obtain ⟨timers, heq⟩ := s.exists_cancelTimer (.user n)
    dsimp only [Service.effect]
    rw [heq] at haside ⊢
    exact htimed.of_aside haside Iff.rfl (Nat.le_refl _) fun _ => rfl
  | _ => exact hsame rfl rfl rfl

end Service

/-- While a client channel is connecting, its timer is in the queue with the expiry that this
connect set, and the timer fails it only then and no earlier. -/
theorem connectTimer_of_run {inetPton : Host → Option Ip} {channelCount : ℕ} {options : Options}
    {uparams : ℕ → UnpackParams} {as : List Action} {s : Service} {i : ℕ} (hi : i < channelCount)
    (hclient : ∀ a ∈ as, OpensClient i a)
    (hrun : Machine.run (step inetPton) as (.fresh channelCount options uparams) = some s)
    (hcond : Machine.Meets (step inetPton) (fun s a => OpensAhead i s a ∧ TimersKept i s a) as
      (.fresh channelCount options uparams)) :
    ((s.chan i).state = .connecting → .connect i ∈ s.timerQueue ∧
        ⟨i, s.gen i, s.expireTime (.connect i)⟩ ∈ s.armed) ∧
      (∀ x ∈ s.timeouts, x.channel = i →
        x.state = .connecting ∧ ⟨i, x.gen, x.expiry⟩ ∈ s.armed ∧ x.expiry ≤ x.time) ∧
      ∀ x ∈ s.armed, ∀ y ∈ s.armed, x.channel = i → y.channel = i → x.gen = y.gen → x = y := by
  have h : s.Clocked i := by
    refine Machine.invariant_of_meets (I := fun s => Service.Clocked s i) ?_ ?_
      (hcond.and_of_forall hclient) hrun
    · intro s a s' hs hcond hstep
      obtain ⟨henabled, rfl⟩ := step_eq_some.1 hstep
      exact hs.effect henabled hcond.1 hcond.2
    · refine ⟨Service.reopened_fresh hi options uparams, List.nodup_nil, ?_, nofun, nofun, nofun,
        nofun⟩
      exact ⟨nofun, nofun⟩
  refine ⟨fun hc => ⟨h.timed.timer.2 hc, h.timed.armed hc⟩, h.timed.timeouts, h.timed.once⟩

/-- A service whose channel 0 has a connect in progress, with its timer at 10000003. -/
def connectPending : List Action :=
  [.start, .setHost 0 ['a'], .setPort 0 80, .openKind 0 Yck.tcpClient, .openTest 0, .openMask 0,
    .openInsert 0, .frame 1, .poll (some fun _ => {}), .transport {},
    .channel { now := 3, socket := .ok 5, connect := some 115 }, .channel {}, .timer none,
    .endEvents]

theorem connectTimer_of_run_connectPending :
    ∃ s, Machine.run (step fun _ => some (.v4 1)) connectPending
        (.fresh 1 { noDispatch := true } fun _ => {}) = some s ∧
      ((s.chan 0).state = .connecting ∧ s.expireTime (.connect 0) = 10000003) ∧
        .connect 0 ∈ s.timerQueue ∧ ⟨0, s.gen 0, s.expireTime (.connect 0)⟩ ∈ s.armed := by
  obtain ⟨s, hrun, hs⟩ := Machine.exists_of_any (step fun _ => some (.v4 1)) connectPending
    (.fresh 1 { noDispatch := true } fun _ => {})
    (fun s => (s.chan 0).state = .connecting ∧ s.expireTime (.connect 0) = 10000003)
    (by decide +kernel)
  exact ⟨s, hrun, hs,
    (connectTimer_of_run Nat.zero_lt_one (by decide +kernel) hrun (by decide +kernel)).1 hs.1⟩

/-- The service is stopped and started again while the connect is in progress: the channel is still
connecting and no timer waits for it.  A connect on a reused descriptor that a late frame takes to
be ready fails, and its timer fails the channel once more. -/
theorem no_timer_after_stop :
    (∃ s, Machine.run (step fun _ => some (.v4 1))
        (connectPending ++
          [.stop, .frame 4, .poll (some fun _ => {}), .transport {}, .channel {}, .channel {},
            .timer none, .endEvents, .join, .finishStop, .start])
        (.fresh 1 { noDispatch := true } fun _ => {}) = some s ∧
      (s.chan 0).state = .connecting ∧ s.timerQueue = []) ∧
    ∃ s, Machine.run (step fun _ => some (.v4 1))
        (connectFirst ++
          [.openKind 0 Yck.tcpClient, .openTest 0, .openMask 0, .openInsert 0, .frame 2,
            .poll (some fun _ => { read := true, write := true }), .transport {}, .transport {},
            .channel { now := 3, socket := .ok 5, connect := some 115 }, .channel {}, .timer none,
            .endEvents, .frame 10000003, .transport {}, .channel { soError := some 111 },
            .channel {}, .timer none])
        (.fresh 1 { noDispatch := true } fun _ => {}) = some s ∧
      s.timeouts.map Timeout.state = [.closed] :=
  ⟨Machine.exists_of_any _ _ _ _ (by decide +kernel),
    Machine.exists_of_any _ _ _ _ (by decide +kernel)⟩

end Yasio
