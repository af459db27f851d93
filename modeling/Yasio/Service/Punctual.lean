import Yasio.Service.Asleep
import Yasio.Service.TimerQueue

/-!
# No timer waits for the poll

The poll may last until the earliest timer of the queue expires.  A timer that becomes the earliest
one meanwhile wakes the service thread.
-/

namespace Yasio

open Function (update)

namespace Service

variable {s t : Service} {i n : ℕ} {inetPton : Host → Option Ip} {c c' : Prop} {d d' : Int}

/-! ## The order of the queue -/

/-- The queue is sorted by descending expiry. -/
def Descending (s : Service) : Prop :=
  s.timerQueue.Pairwise fun t t' => s.expireTime t' ≤ s.expireTime t

theorem descending_sortTimers (s : Service) : s.sortTimers.Descending :=
  TimerSort.insertion.sorted s.expireTime s.timerQueue

theorem descending_scheduleTimer (s : Service) (t : TimerId) : (s.scheduleTimer t).Descending :=
  descending_sortTimers _

theorem Descending.of_timers (h : s.Descending) (htimers : t.toTimers = s.toTimers) :
    t.Descending := by
  unfold Descending
  rw [htimers]
  exact h

theorem Descending.cancelTimer (h : s.Descending) (t : TimerId) :
    (s.cancelTimer t).Descending := by
  unfold Service.cancelTimer removeTimer
  split
  · exact h
  · split
    · exact descending_sortTimers _
    · exact h

theorem Descending.dropLast (h : s.Descending) :
    ({ s with timerQueue := s.timerQueue.dropLast } : Service).Descending :=
  List.Pairwise.sublist (List.dropLast_sublist _) h

/-- The last timer is the earliest one. -/
theorem Descending.le_of_last (h : s.Descending) {last t : TimerId}
    (hlast : s.timerQueue.getLast? = some last) (ht : t ∈ s.timerQueue) :
    s.expireTime last ≤ s.expireTime t := by
  unfold Descending at h
  rw [← List.dropLast_append_getLast? last hlast] at h ht
  rcases List.mem_append.1 ht with ht | ht
  · exact (List.pairwise_append.1 h).2.2 t ht last (List.mem_singleton_self last)
  · rw [List.mem_singleton.1 ht]

theorem mem_of_cancelTimer {t t' : TimerId} (h : t' ∈ (s.cancelTimer t).timerQueue) :
    t' ∈ s.timerQueue := by
  unfold cancelTimer removeTimer at h
  split at h
  · exact h
  · split at h
    · exact List.mem_of_mem_erase (mem_sortTimers.1 h)
    · exact h

theorem Descending.clientTurn {a : ChannelAnswers} (h : s.Descending) (hturn : ClientTurn i a s t) :
    t.Descending := by
  rcases clocks_clientTurn hturn with heq | ⟨u, heq, rfl⟩ | ⟨u, heq, rfl⟩
  · exact h.of_timers (congrArg Prod.fst heq)
  · exact descending_scheduleTimer _ (.connect i)
  · exact Descending.cancelTimer (h.of_timers (congrArg Prod.fst heq)) _

theorem Descending.visitChannel (h : s.Descending) (n i : ℕ) (a : ChannelAnswers) :
    (s.visitChannel inetPton n i a).Descending := by
  cases hclient : testbits (s.kind i) Ycm.client with
  | true =>
    obtain ⟨t, hturn, ht⟩ := exists_clientTurn inetPton n a hclient
    have htake := congrArg Prod.fst (s.clocks_takeOpen i)
    have h' := (h.of_timers htake).clientTurn hturn
    rcases ht with ⟨-, ht⟩ | ⟨-, ht⟩ <;> (rw [ht]; exact h')
  | false =>
    obtain ⟨t, hturn, ht⟩ := exists_serverTurn inetPton n a hclient
    have h' : t.Descending := by
      rcases hturn with rfl | ⟨s₁, hmask, hserver⟩
      · exact h
      · have hclient' : testbits (s₁.kind i) Ycm.client = false := by
          rw [kind_maskTurn hmask]
          exact hclient
        have hclocks := (clocks_serverTurn hclient' hserver).trans (clocks_maskTurn hmask)
        exact h.of_timers (congrArg Prod.fst hclocks)
    rcases ht with ht | ht <;> (rw [ht]; exact h')

/-! ## The invariant -/

/-- The queue is sorted but for timers that have fired and wait again, and while the thread polls,
no timer is due before `d` or `c` holds. -/
structure Punctual (c : Prop) (d : Int) (s : Service) : Prop where
  sorted : (∀ n, s.phase ≠ .timers (n + 1)) → s.Descending
  due : s.phase = .polling → c ∨ ∀ t ∈ s.timerQueue, d ≤ s.expireTime t

theorem Punctual.mono (h : s.Punctual c d) (hc : c → c') : s.Punctual c' d :=
  ⟨h.sorted, fun hphase => (h.due hphase).imp_left hc⟩

theorem Punctual.of_sorted (hsorted : s.Descending) (hphase : s.phase ≠ .polling) :
    s.Punctual c d :=
  ⟨fun _ => hsorted, fun hpolling => absurd hpolling hphase⟩

theorem Punctual.of_same (h : s.Punctual c d) (hphase : t.phase = s.phase)
    (htimers : t.toTimers = s.toTimers) : t.Punctual c d := by
  refine ⟨fun hne => (h.sorted ?_).of_timers htimers, fun hpolling => ?_⟩
  · rwa [hphase] at hne
  · rw [htimers]
    exact h.due (hphase.symm.trans hpolling)

/-- What the frame asks `poll_io` for. -/
theorem add_getTimeout_le (h : s.Descending) (now : ℕ) {t : TimerId} (ht : t ∈ s.timerQueue) :
    now + s.getTimeout now ≤ s.expireTime t := by
  unfold getTimeout
  cases hlast : s.timerQueue.getLast? with
  | none => simp [List.getLast?_eq_none_iff.1 hlast] at ht
  | some last =>
    have hle := h.le_of_last hlast ht
    have hmin := min_le_right s.waitDuration ((s.expireTime last : Int) - now)
    change (now : Int) + min s.waitDuration ((s.expireTime last : Int) - now) ≤ s.expireTime t
    omega

/-- The expiry of a timer that does not wait. -/
theorem Punctual.expiresAt (h : s.Punctual c d) {t : TimerId} (ht : t ∉ s.timerQueue) (time : ℕ) :
    (s.expiresAt t time).Punctual c d := by
  have hsame : ∀ t' ∈ s.timerQueue, (s.expiresAt t time).expireTime t' = s.expireTime t' := by
    intro t' ht'
    have hne : t' ≠ t := fun heq => ht (heq ▸ ht')
    exact Function.update_of_ne hne _ _
  refine ⟨fun hne => ?_, fun hpolling => (h.due hpolling).imp_right fun hdue t' ht' => ?_⟩
  · refine (h.sorted hne).imp_of_mem fun ht₁ ht₂ hle => ?_
    rwa [hsame _ ht₁, hsame _ ht₂]
  · rw [hsame t' ht']
    exact hdue t' ht'

theorem Punctual.scheduleTimer (h : s.Punctual c d) (t : TimerId) (time : ℕ)
    (hwakes : (s.expiresAt t time).scheduleWakes t = true → c) :
    ((s.expiresAt t time).scheduleTimer t).Punctual c d := by
  let u := (s.expiresAt t time).scheduleTimer t
  have hsorted : u.Descending := descending_scheduleTimer _ t
  refine ⟨fun _ => hsorted, fun hphase => ?_⟩
  rcases h.due hphase with hc | hdue
  · exact .inl hc
  by_cases hlast : u.timerQueue.getLast? = some t
  · exact .inl (hwakes (by simpa [scheduleWakes] using hlast))
  · right
    intro t' ht'
    cases hlast' : u.timerQueue.getLast? with
    | none => simp [u, List.getLast?_eq_none_iff.1 hlast'] at ht'
    | some last =>
      -- another timer is the earliest one, and it has been in the queue before
      have hne : last ≠ t := fun heq => hlast (heq ▸ hlast')
      have hmem := List.mem_of_getLast? hlast'
      have hold : last ∈ s.timerQueue := (mem_scheduleTimer.1 hmem).resolve_left hne
      have hsame : u.expireTime last = s.expireTime last := Function.update_of_ne hne _ _
      have hle := hsorted.le_of_last hlast' ht'
      have hd := hdue last hold
      rw [← hsame] at hd
      exact hd.trans (by exact_mod_cast hle)

theorem Punctual.cancelTimer (h : s.Punctual c d) (t : TimerId) :
    (s.cancelTimer t).Punctual c d := by
  obtain ⟨timers, heq⟩ := s.exists_cancelTimer t
  have hphase : (s.cancelTimer t).phase = s.phase := by rw [heq]
  refine ⟨fun hne => (h.sorted ?_).cancelTimer t, fun hpolling => ?_⟩
  · rwa [hphase] at hne
  · refine (h.due (hphase.symm.trans hpolling)).imp_right fun hdue t' ht' => ?_
    rw [expireTime_cancelTimer]
    exact hdue t' (mem_of_cancelTimer ht')

theorem timers_visitTransport (n : ℕ) (b : Block) (a : TransportAnswers) :
    (s.visitTransport n b a).toTimers = s.toTimers := by
  obtain ⟨s', hs, hend⟩ := s.exists_turnEnd (b := b) n a
  have htimers := ((s.touched_atRead (b := b) a).trans hs.toTouched).timers
  generalize s.visitTransport n b a = t at hend
  cases hend with
  | thrown | kept h => exact htimers
  | dropped =>
    obtain ⟨chan, io, sockets, heq, -⟩ := s'.exists_dropTransport n b a.tail
    rw [heq]
    exact htimers

theorem nextPhase_ne_polling (s : Service) : s.nextPhase ≠ .polling := by
  rcases s.nextPhase_cases with h | h <;> (rw [h]; rintro ⟨⟩)

/-- The loop of `process_timers` sorts the queue once a timer has been put back. -/
theorem Punctual.processTimer (h : s.Punctual c d) (hphase : s.phase = .timers n)
    (again : Option ℕ) : (s.processTimer n again).Punctual c d := by
  have hsorted : n = 0 → s.Descending := by
    rintro rfl
    exact h.sorted fun m hm => by cases hphase.symm.trans hm
  have hend : (s.endTimers n).Punctual c d := by
    unfold endTimers
    split
    · exact .of_sorted s.descending_sortTimers (by rintro ⟨⟩)
    · next hn => exact .of_sorted (hsorted (by omega)) (by rintro ⟨⟩)
  -- the timer has been taken out, and the queue is sorted if it was
  have hdrop : ∀ {t : Service}, t.phase = s.phase →
      t.toTimers = { s.toTimers with timerQueue := s.timerQueue.dropLast } → t.Punctual c d := by
    intro t hphase' htimers
    refine ⟨fun hne => ?_, fun hpolling => ?_⟩
    · have hn : n = 0 := by
        cases n with
        | zero => rfl
        | succ m => exact absurd (hphase'.trans hphase) (hne m)
      exact ((hsorted hn).dropLast).of_timers htimers
    · cases (hphase'.trans hphase).symm.trans hpolling
  unfold Service.processTimer
  split
  · next t hlast =>
    split
    · unfold fireTimer
      dsimp only
      split
      · split <;> exact hdrop rfl rfl
      · split
        · exact hdrop rfl rfl
        · exact ⟨fun hne => absurd rfl (hne n), by rintro ⟨⟩⟩
    · exact hend
  · exact hend

/-- What a step that begins no poll makes of a sorted queue. -/
theorem Punctual.of_phase (h : s.Punctual c d) {p : Phase} (hphase : s.phase = p)
    (hp : ∀ n, p ≠ .timers (n + 1)) (htimers : t.toTimers = s.toTimers)
    (hne : t.phase ≠ .polling) : t.Punctual c' d' := by
  have hsorted : s.Descending := h.sorted fun n hn => hp n (hphase.symm.trans hn)
  exact .of_sorted (hsorted.of_timers htimers) hne

/-- A poll ends before the first timer is due. -/
theorem Punctual.beginFrame (h : s.Punctual c d) (hphase : s.phase = .top) (now : ℕ) :
    (s.beginFrame now).Punctual c' (now + s.getTimeout now) := by
  have hsorted : s.Descending := h.sorted fun n hn => by cases hphase.symm.trans hn
  exact ⟨fun _ => hsorted, fun _ => .inr fun t ht => add_getTimeout_le hsorted now ht⟩

end Service

/-- The expiry of a timer that waits is moved by `async_wait` behind `expires_from_now` only: the
latter alone neither sorts the queue nor wakes the thread. -/
def ExpiriesKept (s : Service) : Action → Prop
  | .expiresFromNow n _ => .user n ∉ s.timerQueue
  | _ => True

instance (s : Service) (a : Action) : Decidable (ExpiriesKept s a) := by
  unfold ExpiriesKept
  split <;> infer_instance

namespace Service

variable {s t : Service} {i n : ℕ} {inetPton : Host → Option Ip} {c c' : Prop} {d d' : Int}

/-- A timer that becomes the earliest one while the thread polls comes with a call that wakes. -/
theorem Punctual.effect (h : s.Punctual c d) {a : Action} (henabled : s.enabled a = true)
    (hcond : ExpiriesKept s a) (hframe : ∀ now, a ≠ .frame now) (hcall : s.callWakes a = true → c) :
    (s.effect inetPton a).Punctual c d := by
  cases a with
  | start =>
    have hphase : s.phase = .idle := by simpa [enabled] using henabled
    exact h.of_phase hphase (by simp) rfl (by rintro ⟨⟩)
  | frame now => exact absurd rfl (hframe now)
  | poll answer =>
    have hphase : s.phase = .polling := by simpa [enabled] using henabled
    refine h.of_phase hphase (by simp) rfl ?_
    cases answer with
    | none => exact s.nextPhase_ne_polling
    | some f => rintro ⟨⟩
  | transport a =>
    obtain ⟨n, hn, ⟨-, heq⟩ | ⟨b, -, heq⟩⟩ := transport_cases inetPton henabled
    · rw [heq]
      refine h.of_phase hn (by simp) rfl ?_
      change (if _ then Phase.timers 0 else .channels 0) ≠ .polling
      split <;> rintro ⟨⟩
    · rw [heq]
      refine h.of_phase hn (by simp) (timers_visitTransport n b a) ?_
      rcases s.phase_visitTransport n b a with hp | hp | hp <;> rw [hp]
      · rintro ⟨⟩
      · rintro ⟨⟩
      · rw [hn]
        rintro ⟨⟩
  | channel a =>
    obtain ⟨n, hn, ⟨-, heq⟩ | ⟨i, -, heq⟩⟩ := channel_cases inetPton henabled
    · rw [heq]
      exact h.of_phase hn (by simp) rfl (by rintro ⟨⟩)
    · have hsorted : s.Descending := h.sorted fun m hm => by cases hn.symm.trans hm
      rw [heq]
      refine .of_sorted (hsorted.visitChannel n i a) ?_
      have hcases : (s.visitChannel inetPton n i a).phase = s.phase ∨ _ :=
        s.phase_visitChannel n i a
      rcases hcases with hp | hp <;> rw [hp]
      · rw [hn]
        rintro ⟨⟩
      · rintro ⟨⟩
  | timer again =>
    obtain ⟨n, hn, heq⟩ := timer_cases inetPton henabled
    rw [heq]
    exact h.processTimer hn again
  | endEvents =>
    obtain ⟨b, hb⟩ := endEvents_cases henabled
    exact h.of_phase hb (by simp) rfl s.nextPhase_ne_polling
  | beginDispatch count =>
    by_cases hevents : s.phase = .events false
    · have ht : (s.beginDispatch count).phase = .events true := if_pos hevents
      exact h.of_phase hevents (by simp) rfl fun hp => by cases ht.symm.trans hp
    · exact h.of_same (if_neg hevents) rfl
  | answer n result => cases result <;> exact h.of_same rfl rfl
  | udpConnect b ok =>
    obtain ⟨udp, sockPeer, heq, -⟩ := s.exists_udpConnect b ok
    dsimp only [Service.effect]
    rw [heq]
    exact h.of_same rfl rfl
  | expiresFromNow n time => exact h.expiresAt hcond time
  | scheduleTimer n time => exact h.scheduleTimer (.user n) time hcall
  | cancelTimer n => exact h.cancelTimer (.user n)
  | join =>
    have hphase : s.phase = .exiting ∧ s.budget = none := by simpa [enabled] using henabled
    obtain ⟨events, heq, -⟩ := s.exists_join
    dsimp only [Service.effect]
    rw [heq]
    exact h.of_phase hphase.1 (by simp) rfl (by rintro ⟨⟩)
  | finishStop => exact .of_sorted List.Pairwise.nil (by rintro ⟨⟩)
  | _ => exact h.of_same rfl rfl

end Service

namespace Waking

variable {w w' : Waking} {x : WakingAction} {inetPton : Host → Option Ip}

/-- The invariant. -/
def Punctual (w : Waking) : Prop := w.service.Punctual w.Covered w.deadline

theorem deadline_act {a : Action} (h : Waking.step inetPton (.act a) w = some w')
    (hframe : ∀ now, a ≠ .frame now) : w'.deadline = w.deadline := by
  obtain ⟨t, -, rfl⟩ := Option.map_eq_some_iff.1 h
  cases a with
  | frame now => exact absurd rfl (hframe now)
  | _ => rfl

theorem deadline_frame {now : ℕ} (h : Waking.step inetPton (.act (.frame now)) w = some w') :
    w'.deadline = now + w.service.getTimeout now := by
  obtain ⟨t, -, rfl⟩ := Option.map_eq_some_iff.1 h
  rfl

theorem Punctual.act {a : Action} (h : w.Punctual) (hcond : ExpiriesKept w.service a)
    (hstep : Waking.step inetPton (.act a) w = some w') : w'.Punctual := by
  obtain ⟨henabled, hservice, hcall, -⟩ := step_act hstep
  unfold Waking.Punctual
  by_cases hframe : ∃ now, a = .frame now
  · obtain ⟨now, rfl⟩ := hframe
    have hphase : w.service.phase = .top ∧ w.service.currentTime ≤ now := by
      simpa [Service.enabled] using henabled
    rw [hservice, deadline_frame hstep]
    exact Service.Punctual.beginFrame h hphase.1 now
  have hframe : ∀ now, a ≠ .frame now := fun now heq => hframe ⟨now, heq⟩
  by_cases hpoll : ∃ f, a = .poll (some f)
  · -- the poll is over, and takes the cover away
    obtain ⟨f, rfl⟩ := hpoll
    have hphase : w.service.phase = .polling := by simpa [Service.enabled] using henabled
    rw [hservice]
    exact Service.Punctual.of_phase h hphase (by simp) rfl (by rintro ⟨⟩)
  · have hpoll : ∀ f, a ≠ .poll (some f) := fun f heq => hpoll ⟨f, heq⟩
    have hcovered : w.service.Punctual w'.Covered w.deadline :=
      Service.Punctual.mono h fun hcovered => Covered.act hcovered hstep hpoll
    rw [hservice, deadline_act hstep hframe]
    exact hcovered.effect henabled hcond hframe fun hwakes => .inr (.inl (hcall hwakes))

theorem Punctual.wakeup (h : w.Punctual) (hstep : Waking.step inetPton .wakeup w = some w') :
    w'.Punctual := by
  dsimp only [Waking.step] at hstep
  split at hstep
  · cases hstep
    exact Service.Punctual.mono h fun _ => .inl rfl
  · cases hstep

theorem punctual_fresh (channelCount : ℕ) (options : Options) (uparams : ℕ → UnpackParams) :
    (Waking.fresh channelCount options uparams).Punctual :=
  .of_sorted List.Pairwise.nil (by rintro ⟨⟩)

end Waking

/-- The same of a run with its calls of `wakeup`. -/
def Waking.ExpiriesKept (w : Waking) : WakingAction → Prop
  | .act a => Yasio.ExpiriesKept w.service a
  | .wakeup => True

instance (w : Waking) (x : WakingAction) : Decidable (w.ExpiriesKept x) := by
  unfold Waking.ExpiriesKept
  split <;> infer_instance

/-- Whatever is called while the service thread sleeps in `poll_io`, it wakes up by the time that
the first timer is due. -/
theorem deadline_le_of_run {inetPton : Host → Option Ip} {channelCount : ℕ} {options : Options}
    {uparams : ℕ → UnpackParams} {xs : List WakingAction} {w : Waking}
    (hrun : Machine.run (Waking.step inetPton) xs (.fresh channelCount options uparams) = some w)
    (hcond : Machine.Meets (Waking.step inetPton) Waking.ExpiriesKept xs
      (.fresh channelCount options uparams))
    (hasleep : w.Asleep) : ∀ t ∈ w.service.timerQueue, w.deadline ≤ w.service.expireTime t := by
  have h : w.Punctual := by
    refine Machine.invariant_of_meets (I := Waking.Punctual) ?_
      (Waking.punctual_fresh channelCount options uparams) hcond hrun
    rintro w (a | _) w' hw hcond hstep
    · exact hw.act hcond hstep
    · exact hw.wakeup hstep
  exact (h.due hasleep.1).resolve_left (Waking.not_covered_of_asleep hasleep)

/-- Timer 0 is scheduled while the service thread polls, which begins a new poll, and timer 1 to be
later, whose expiry had been set before. -/
def scheduleAsleep : List WakingAction :=
  [.act .start, .act (.frame 1), .act (.scheduleTimer 0 1000), .wakeup,
    .act (.poll (some fun _ => {})), .act (.transport {}), .act (.timer none), .act .endEvents,
    .act (.frame 2), .act (.expiresFromNow 1 500), .act (.scheduleTimer 1 2000)]

theorem deadline_le_of_run_scheduleAsleep :
    ∃ w, Machine.run (Waking.step fun _ => none) scheduleAsleep
        (.fresh 1 { noDispatch := true } fun _ => {}) = some w ∧
      w.Asleep ∧ w.service.timerQueue = [.user 1, .user 0] ∧
      ∀ t ∈ w.service.timerQueue, w.deadline ≤ w.service.expireTime t := by
  obtain ⟨w, hrun, hasleep, hqueue⟩ :=
    Machine.exists_of_any (Waking.step fun _ => none) scheduleAsleep
      (.fresh 1 { noDispatch := true } fun _ => {})
      (fun w => w.Asleep ∧ w.service.timerQueue = [.user 1, .user 0]) (by decide +kernel)
  exact ⟨w, hrun, hasleep, hqueue, deadline_le_of_run hrun (by decide +kernel) hasleep⟩

/-- The expiry of timer 0 is moved alone while the thread sleeps, and it goes on to sleep. -/
example : (Machine.run (Waking.step fun _ => none)
      [.act .start, .act (.frame 1), .act (.scheduleTimer 0 1000), .wakeup,
        .act (.poll (some fun _ => {})), .act (.transport {}), .act (.timer none),
        .act .endEvents, .act (.frame 2), .act (.expiresFromNow 0 10)]
      (.fresh 1 { noDispatch := true } fun _ => {})).any (fun w =>
    decide w.Asleep && decide ((w.service.expireTime (.user 0) : Int) < w.deadline)) = true := by
  decide +kernel

end Yasio
