import Yasio.Service.Unserved
import Yasio.Service.Wakeup

/-!
# The service thread does not sleep on work

Whenever there is work that no descriptor and no timer will tell of, the interrupter is readable or
a call is still to make it so; else the frame has yet to come to the work or does not wait.
-/

namespace Yasio

open Function (update)

namespace Service

variable {s t : Service} {b : Block} {i : ℕ} {inetPton : Host → Option Ip} {c c' : Prop}

/-! ## What the frame has passed -/

/-- The transports whose turn in this frame is over; all of them outside `process_transports`. -/
def doneTransports (s : Service) : List Block :=
  match s.phase with
  | .transports n => s.transports.take n
  | .terminated => []
  | _ => s.transports

/-- The channels whose turn is over; none of them before `process_channels`. -/
def doneChannels (s : Service) : List ℕ :=
  match s.phase with
  | .transports _ | .terminated => []
  | .channels n => s.channelOps.take n
  | _ => s.channelOps

theorem doneTransports_congr (hphase : t.phase = s.phase) (h : t.transports = s.transports) :
    t.doneTransports = s.doneTransports := by
  unfold doneTransports
  rw [hphase, h]

theorem doneChannels_congr (hphase : t.phase = s.phase) (h : t.channelOps = s.channelOps) :
    t.doneChannels = s.doneChannels := by
  unfold doneChannels
  rw [hphase, h]

/-- Nothing is left undone behind the frame but what `c` tells of. -/
structure Served (c : Prop) (s : Service) : Prop where
  transports : ∀ b ∈ s.doneTransports, s.Wants b → c ∨ s.phase ≠ .polling ∧ s.waitDuration = 0
  channels : ∀ i ∈ s.doneChannels, s.Asks i → c
  stopping : s.stopFlag = true → s.transports = [] → s.phase = .top ∨ s.phase = .polling → c
  idle : s.phase = .idle → s.stopFlag = false

theorem Served.of_true (hc : c) (hidle : s.phase = .idle → s.stopFlag = false) : s.Served c :=
  ⟨fun _ _ _ => .inl hc, fun _ _ _ => hc, fun _ _ _ => hc, hidle⟩

theorem Served.mono (h : s.Served c) (hc : c → c') : s.Served c' where
  transports b hb hw := (h.transports b hb hw).imp_left hc
  channels i hi ha := hc (h.channels i hi ha)
  stopping hflag hnil hphase := hc (h.stopping hflag hnil hphase)
  idle := h.idle

/-- A step that leaves no more to be done than there was. -/
theorem Served.of_less (h : s.Served c)
    (htransports : ∀ b ∈ t.doneTransports, t.Wants b → b ∈ s.doneTransports ∧ s.Wants b)
    (hchannels : ∀ i ∈ t.doneChannels, t.Asks i → i ∈ s.doneChannels ∧ s.Asks i)
    (hwait : s.phase ≠ .polling → s.waitDuration = 0 → t.phase ≠ .polling ∧ t.waitDuration = 0)
    (hstop : t.stopFlag = true → t.transports = [] → t.phase = .top ∨ t.phase = .polling →
      s.stopFlag = true ∧ s.transports = [] ∧ (s.phase = .top ∨ s.phase = .polling))
    (hidle : t.phase = .idle → t.stopFlag = false) : t.Served c := by
  refine ⟨fun b hb hw => ?_, fun i hi ha => ?_, fun hflag hnil hphase => ?_, hidle⟩
  · obtain ⟨hb, hw⟩ := htransports b hb hw
    exact (h.transports b hb hw).imp_right fun hwaits => hwait hwaits.1 hwaits.2
  · obtain ⟨hi, ha⟩ := hchannels i hi ha
    exact h.channels i hi ha
  · obtain ⟨hflag, hnil, hphase⟩ := hstop hflag hnil hphase
    exact h.stopping hflag hnil hphase

/-- A step that stays where the frame is and asks for nothing. -/
theorem Served.of_same (h : s.Served c) (hphase : t.phase = s.phase)
    (htransports : t.transports = s.transports) (hops : t.channelOps = s.channelOps)
    (hwait : t.waitDuration = s.waitDuration) (hstop : t.stopFlag = s.stopFlag)
    (hwants : ∀ b, t.Wants b → s.Wants b) (hasks : ∀ i ∈ s.channelOps, t.Asks i → s.Asks i) :
    t.Served c := by
  have hsub : ∀ i ∈ s.doneChannels, i ∈ s.channelOps := by
    intro i hi
    unfold doneChannels at hi
    split at hi
    · cases hi
    · cases hi
    · exact List.mem_of_mem_take hi
    · exact hi
  apply h.of_less
  · rw [doneTransports_congr hphase htransports]
    exact fun b hb hw => ⟨hb, hwants b hw⟩
  · rw [doneChannels_congr hphase hops]
    exact fun i hi ha => ⟨hi, hasks i (hsub i hi) ha⟩
  · rw [hphase, hwait]
    exact And.intro
  · rw [hphase, hstop, htransports]
    exact fun hflag hnil hphase => ⟨hflag, hnil, hphase⟩
  · rw [hphase, hstop]
    exact h.idle

/-! ## The turn of a transport -/

theorem wants_iff (hchan : t.chan = s.chan) (hflag : t.stopFlag = s.stopFlag)
    (hbuilt : t.built = s.built) (hio : t.io b = s.io b) (htx : t.tx b = s.tx b) :
    t.Wants b ↔ s.Wants b := by
  unfold Wants closeAsked
  rw [hbuilt, hio, hchan, hflag, htx]

theorem Wants.of_less (h : t.Wants b) (hctx : (t.built b).ctx = (s.built b).ctx)
    (htx : t.tx b = s.tx b) (hopen : (t.io b).opOpen = true → (s.io b).opOpen = true)
    (hclose : (t.io b).opClose = true → (s.io b).opClose = true)
    (hmasks : Unmasks (s.built b).ctx s t) (hflag : t.stopFlag = s.stopFlag) : s.Wants b := by
  unfold Wants closeAsked at h ⊢
  rw [hctx, htx, hflag] at h
  simp only [Bool.or_eq_true] at h ⊢
  exact h.imp_left (Or.imp_left (Or.imp (Or.imp (Or.imp hopen hclose) hmasks.1) hmasks.2))

theorem asks_iff (hkind : t.kind = s.kind) (hchan : t.chan = s.chan) (hnet : t.net = s.net) :
    t.Asks i ↔ s.Asks i := by
  unfold Asks
  rw [hkind, hchan, hnet]

theorem Asks.of_less (h : t.Asks i)
    (hclient : testbits (t.kind i) Ycm.client = testbits (s.kind i) Ycm.client)
    (hmasks : Unmasks i s t)
    (hresolving : (t.chan i).state = .resolving → (s.chan i).state = .resolving ∧
      (t.chan i).error = (s.chan i).error ∧ (t.net i).remoteEps = (s.net i).remoteEps) :
    s.Asks i := by
  unfold Asks at h ⊢
  rw [hclient] at h
  refine h.imp hmasks.1 (Or.imp (And.imp_right hmasks.2) (And.imp_right ?_))
  rintro ⟨hstate, hanswer⟩
  obtain ⟨hstate', herror, heps⟩ := hresolving hstate
  rw [herror, heps] at hanswer
  exact ⟨hstate', hanswer⟩

theorem wants_touched (h : Touched b s t) {b' : Block} (hb : b' ≠ b) : t.Wants b' ↔ s.Wants b' := by
  apply wants_iff (congrArg Channels.chan h.channels) _ (congrArg Pool.built h.pool) (h.io b' hb)
    (h.tx b' hb)
  rw [show t.stopFlag = t.toLoop.stopFlag from rfl, h.loop]

theorem wants_dropTransport {n tail : ℕ} {b' : Block} (hb : b' ≠ b)
    (h : (s.dropTransport n b tail).Wants b') : s.Wants b' := by
  have hbuilt : (s.dropTransport n b tail).built = s.built := by
    obtain ⟨chan, io, sockets, heq, -⟩ := s.exists_dropTransport n b tail
    rw [heq]
    rfl
  have hflag : (s.dropTransport n b tail).stopFlag = s.stopFlag :=
    congrArg Loop.stopFlag (s.loop_dropTransport n b tail)
  obtain ⟨hio, htx⟩ := s.io_dropTransport n tail hb
  exact h.of_less (by rw [hbuilt]) htx (by rw [hio]; exact id) (by rw [hio]; exact id)
    (s.masks_dropTransport n b tail (s.built b').ctx) hflag

theorem doneTransports_of_phase {n : ℕ} (h : s.phase = .transports n) :
    s.doneTransports = s.transports.take n ∧ s.doneChannels = [] := by
  unfold doneTransports doneChannels
  rw [h]
  exact ⟨rfl, rfl⟩

/-- What a turn of `process_transports` leaves undone, a call that is yet to wake the thread asked
for, or the frame will not wait. -/
theorem Served.of_transports {n : ℕ} (hphase : t.phase = .transports n)
    (h : ∀ b ∈ t.transports.take n, t.Wants b → c ∨ t.waitDuration = 0) : t.Served c := by
  obtain ⟨hdone, hdone'⟩ := doneTransports_of_phase hphase
  have hne : t.phase ≠ .polling := by
    rw [hphase]
    exact nofun
  refine ⟨fun b hb hw => ?_, fun i hi => ?_, fun _ _ hp => ?_, fun hidle => ?_⟩
  · rw [hdone] at hb
    exact (h b hb hw).imp_right fun hwait => ⟨hne, hwait⟩
  · rw [hdone'] at hi
    cases hi
  · rw [hphase] at hp
    rcases hp with hp | hp <;> cases hp
  · cases hphase.symm.trans hidle

theorem Served.of_terminated (hphase : t.phase = .terminated) : t.Served c := by
  refine ⟨fun b hb => ?_, fun i hi => ?_, fun _ _ hp => ?_, fun hidle => ?_⟩
  · unfold doneTransports at hb
    rw [hphase] at hb
    cases hb
  · unfold doneChannels at hi
    rw [hphase] at hi
    cases hi
  · rw [hphase] at hp
    rcases hp with hp | hp <;> cases hp
  · cases hphase.symm.trans hidle

theorem Served.visitTransport (h : s.Served c) (hs : s.toPool.Sound) {n : ℕ}
    (hphase : s.phase = .transports n) (hb : s.transports[n]? = some b) (a : TransportAnswers) :
    (s.visitTransport n b a).Served c := by
  obtain ⟨s', htouched, hwait, hend⟩ := s.visitTransport_cases n b a
  have hphase' : s'.phase = .transports n := by
    rw [← hphase, show s'.phase = s'.toLoop.phase from rfl, htouched.loop]
  have hpool : s'.transports = s.transports := congrArg Pool.transports htouched.pool
  have hne : ∀ b' ∈ s.transports.take n, b' ≠ b := by
    rintro b' hb' rfl
    obtain ⟨m, hm, hget⟩ := List.mem_take_iff_getElem.1 hb'
    have hlt := lt_of_lt_of_le hm (Nat.min_le_right _ _)
    have hget := (List.getElem?_eq_some_iff.2 ⟨hlt, hget⟩).trans hb.symm
    have hmn : m = n := (List.getElem?_inj hlt hs.nodup.of_append_left).1 hget
    exact absurd (lt_of_lt_of_le hm (Nat.min_le_left _ _)) (by omega)
  -- the transports that had their turn before
  have hbefore : ∀ b' ∈ s.transports.take n, s'.Wants b' → c ∨ s'.waitDuration = 0 := by
    intro b' hb' hw
    have hw := (wants_touched htouched (hne b' hb')).1 hw
    rw [← (doneTransports_of_phase hphase).1] at hb'
    exact (h.transports b' hb' hw).imp_right fun hzero => hwait hzero.2
  rcases hend with heq | heq | ⟨heq, hrests⟩
  · rw [heq]
    exact .of_terminated rfl
  · have hloop : (s'.dropTransport n b a.tail).toLoop = s'.toLoop :=
      s'.loop_dropTransport n b a.tail
    have htransports : (s'.dropTransport n b a.tail).transports.take n = s.transports.take n := by
      change (s'.transports.eraseIdx n).take n = _
      rw [hpool, List.take_eraseIdx_eq_take_of_le _ _ _ le_rfl]
    rw [heq]
    refine .of_transports ((congrArg Loop.phase hloop).trans hphase') fun b' hb' hw => ?_
    rw [htransports] at hb'
    rw [show (s'.dropTransport n b a.tail).waitDuration = _ from congrArg Loop.waitDuration hloop]
    exact hbefore b' hb' (wants_dropTransport (hne b' hb') hw)
  · rw [heq]
    refine .of_transports rfl fun b' hb' hw => ?_
    have hb' : b' ∈ s.transports.take (n + 1) := hpool ▸ hb'
    rw [List.take_add_one, hb, List.mem_append] at hb'
    rcases hb' with hb' | hb'
    · exact hbefore b' hb' hw
    · obtain rfl : b' = b := by simpa using hb'
      exact .inr (hrests hw)

/-! ## The turn of a channel -/

theorem stopFlag_visitChannel (inetPton : Host → Option Ip) (s : Service) (n i : ℕ)
    (a : ChannelAnswers) : (s.visitChannel inetPton n i a).stopFlag = s.stopFlag := by
  obtain ⟨t, hturn, ht⟩ := s.exists_channelTurn inetPton n i a
  rcases ht with ht | ht <;> (rw [ht]; exact hturn.frame.stopFlag)

theorem calm_visitChannel (inetPton : Host → Option Ip) (s : Service) (n i : ℕ)
    (a : ChannelAnswers) : Calm i s (s.visitChannel inetPton n i a) := by
  obtain ⟨t, hturn, ht⟩ := s.exists_channelTurn inetPton n i a
  have hcalm := Calm.of_channelTurn hturn
  rcases ht with ht | ht <;> (rw [ht]; exact ⟨hcalm.1, hcalm.2, hcalm.3⟩)

theorem chan_visitChannel (inetPton : Host → Option Ip) (s : Service) (n i : ℕ)
    (a : ChannelAnswers) {j : ℕ} (hj : j ≠ i) :
    (s.visitChannel inetPton n i a).chan j = s.chan j := by
  obtain ⟨t, hturn, ht⟩ := s.exists_channelTurn inetPton n i a
  rcases ht with ht | ht <;> (rw [ht]; exact hturn.frame.chan j hj)

/-- A transport whose `close` has been called in the turn has woken the thread. -/
theorem opClose_of_not_wakes (hwakes : s.channelWakes t i = false) (hb : b ∈ t.transports)
    (h : (t.io b).opClose = true) : b ∈ s.transports ∧ (s.io b).opClose = true := by
  unfold channelWakes at hwakes
  obtain ⟨-, hwakes⟩ := Bool.or_eq_false_iff.1 hwakes
  have hnone := List.any_eq_false.1 hwakes b hb
  simpa [h] using hnone

/-- What a transport has to do after the turn of a channel that made no call of `wakeup`. -/
theorem wants_visitChannel (hs : s.Placed) (hi : i < s.channelCount) (a : ChannelAnswers)
    (hwakes : s.channelWakes (s.visitChannel inetPton n i a) i = false)
    (hb : b ∈ (s.visitChannel inetPton n i a).transports)
    (h : (s.visitChannel inetPton n i a).Wants b) :
    b ∈ s.transports ∧ s.Wants b ∨
      (s.visitChannel inetPton n i a).transports ≠ s.transports ∧
        (s.stopFlag = true ∨
          testbits (s.kind i) Ycm.client = true ∧ (s.chan i).opClose = true) := by
  have hflag := stopFlag_visitChannel inetPton s n i a
  have hcalm := calm_visitChannel inetPton s n i a
  obtain ⟨hmasks, hopen, hclose⟩ := s.masks_visitChannel inetPton n i a
  have hfitted := fitted_visitChannel inetPton hs.sockets (hi.trans_le hs.count) n a
  have hjoined := joined_visitChannel (s := s) (i := i) inetPton n a
  have hrole : (s.visitChannel inetPton n i a).transports ≠ s.transports →
      testbits (s.kind i) Ycm.client = true ∨ testbits (s.kind i) Ycm.server = true := by
    intro hne
    cases hclient : testbits (s.kind i) Ycm.client with
    | true => exact .inl rfl
    | false =>
      cases hserver : testbits (s.kind i) Ycm.server with
      | true => exact .inr rfl
      | false =>
        rw [visitChannel_of_no_role inetPton n a hclient hserver] at hne
        exact absurd rfl hne
  have hchan : ∀ j, j ≠ i → (s.visitChannel inetPton n i a).chan j = s.chan j :=
    fun j hj => chan_visitChannel inetPton s n i a hj
  have hopClose : ((s.visitChannel inetPton n i a).io b).opClose = true → _ :=
    opClose_of_not_wakes hwakes hb
  generalize s.visitChannel inetPton n i a = t at *
  by_cases hold : b ∈ s.transports
  · left
    refine ⟨hold, ?_⟩
    have hne : b ≠ s.freshBlock := hs.sound.ne_freshBlock hold
    have hbuilt : (t.built b).ctx = (s.built b).ctx := by
      rcases hjoined with ⟨hpool, -⟩ | ⟨built, -, hjoined⟩
      · rw [hpool]
      · rw [hjoined.other b hne]
    have htx : t.tx b = s.tx b := by
      rcases hfitted with ⟨-, htx⟩ | ⟨htx, -⟩
      · rw [htx]
      · rw [htx, Function.update_of_ne hne]
    have hmasks' : ∀ j, Unmasks j s t := by
      intro j
      by_cases hj : j = i
      · exact hj ▸ hmasks
      · exact unmasks_of_chan (by rw [hchan j hj]) (by rw [hchan j hj])
    exact h.of_less hbuilt htx (fun hio => (hcalm.opOpen b hio).1) (fun hio => (hopClose hio).2)
      (hmasks' _) hflag
  · right
    rcases hjoined with ⟨hpool, -⟩ | ⟨built, hon, hjoined⟩
    · rw [hpool] at hb
      exact absurd hb hold
    · have hne : t.transports ≠ s.transports := fun heq => hold (heq ▸ hb)
      obtain rfl : b = s.freshBlock := by
        rw [hjoined.transports, List.mem_append, List.mem_singleton] at hb
        exact hb.resolve_left hold
      have hctx : (t.built s.freshBlock).ctx = i := hjoined.ctx.trans hon.ctx
      have htx : (t.tx s.freshBlock).sendQueue = [] := by
        rcases hfitted with ⟨hpool, -⟩ | ⟨htx, -⟩
        · exact absurd (congrArg Pool.transports hpool) hne
        · rw [htx, Function.update_self]
      have hio : (t.io s.freshBlock).opOpen ≠ true := fun hio =>
        hne (congrArg Pool.transports ((hcalm.opOpen s.freshBlock hio).2 rfl))
      refine ⟨hne, ?_⟩
      unfold Wants closeAsked at h
      rw [hctx, htx, hflag] at h
      simp only [Bool.or_eq_true, hopen (hrole hne)] at h
      rcases h with ((((h | h) | h) | h) | h) | ⟨h, -⟩
      · exact absurd h hio
      · exact absurd (hopClose h).1 hold
      · cases h
      · cases hclient : testbits (s.kind i) Ycm.client with
        | true => exact .inr ⟨rfl, hmasks.2 h⟩
        | false =>
          have hserver := (hrole hne).resolve_left (by simp [hclient])
          cases (hclose hclient hserver).symm.trans h
      · exact .inl h
      · exact absurd rfl h

theorem doneTransports_of_channels {m : ℕ} (h : s.phase = .channels m) :
    s.doneTransports = s.transports ∧ s.doneChannels = s.channelOps.take m := by
  unfold doneTransports doneChannels
  rw [h]
  exact ⟨rfl, rfl⟩

/-- The frame has come to channel `i`, at position `n`, and goes on. -/
theorem mem_doneChannels_visitChannel {j : ℕ} (hphase : s.phase = .channels n)
    (hi : s.channelOps[n]? = some i) (a : ChannelAnswers) (hj : j ≠ i)
    (h : j ∈ (s.visitChannel inetPton n i a).doneChannels) : j ∈ s.doneChannels := by
  rw [(doneTransports_of_channels hphase).2]
  obtain ⟨t, hturn, ht⟩ := s.exists_channelTurn inetPton n i a
  have hops := hturn.frame.channelOps
  rcases ht with ht | ht
  · have hphase' : (s.visitChannel inetPton n i a).phase = .channels n := by
      rw [ht]
      exact hturn.frame.phase.trans hphase
    rw [(doneTransports_of_channels hphase').2, ht] at h
    change j ∈ (t.channelOps.eraseIdx n).take n at h
    rwa [hops, List.take_eraseIdx_eq_take_of_le _ _ _ le_rfl] at h
  · have hphase' : (s.visitChannel inetPton n i a).phase = .channels (n + 1) := by rw [ht]
    rw [(doneTransports_of_channels hphase').2, ht] at h
    change j ∈ t.channelOps.take (n + 1) at h
    rw [hops, List.take_add_one, hi, List.mem_append] at h
    exact h.resolve_right (by simpa using hj)

theorem Served.visitChannel (h : s.Served c) (hs : s.Placed) (hphase : s.phase = .channels n)
    (hi : s.channelOps[n]? = some i) (a : ChannelAnswers)
    (hwakes : s.channelWakes (s.visitChannel inetPton n i a) i = true → c)
    (hconnect : (s.visitChannel inetPton n i a).transports ≠ s.transports →
      s.stopFlag = false ∧
        (testbits (s.kind i) Ycm.client = true → (s.chan i).opClose = false)) :
    (s.visitChannel inetPton n i a).Served c := by
  have hlt : i < s.channelCount := hs.ops i (List.mem_of_getElem? hi)
  have hphase' : ∃ m, (s.visitChannel inetPton n i a).phase = .channels m := by
    have hcases : (s.visitChannel inetPton n i a).phase = s.phase ∨ _ := phase_visitChannel n i a
    rcases hcases with h | h
    · exact ⟨n, h.trans hphase⟩
    · exact ⟨n + 1, h⟩
  obtain ⟨m, hm⟩ := hphase'
  have hcalm := calm_visitChannel inetPton s n i a
  refine ⟨fun b hb hw => ?_, fun j hj ha => ?_, fun _ _ hp => ?_, fun hidle => ?_⟩
  · rw [(doneTransports_of_channels hm).1] at hb
    cases hcalls : s.channelWakes (s.visitChannel inetPton n i a) i with
    | true => exact .inl (hwakes hcalls)
    | false =>
      rcases wants_visitChannel hs hlt a hcalls hb hw with ⟨hb, hw⟩ | ⟨hne, hasked⟩
      · rw [← (doneTransports_of_channels hphase).1] at hb
        refine (h.transports b hb hw).imp_right fun hwait => ⟨?_, hcalm.waitDuration.trans hwait.2⟩
        rw [hm]
        exact nofun
      · obtain ⟨hflag, hclose⟩ := hconnect hne
        rcases hasked with hasked | ⟨hclient, hasked⟩
        · cases hflag.symm.trans hasked
        · cases (hclose hclient).symm.trans hasked
  · by_cases hji : j = i
    · subst hji
      refine absurd ha (not_asks_visitChannel hs.opsNodup hi a ?_)
      rw [(doneTransports_of_channels hm).2] at hj
      exact List.mem_of_mem_take hj
    · have hchan := chan_visitChannel inetPton s n i a hji
      refine h.channels j (mem_doneChannels_visitChannel hphase hi a hji hj) ?_
      refine ha.of_less (by rw [kind_visitChannel]) (unmasks_of_chan ?_ ?_) fun hstate => ?_
      · rw [hchan]
      · rw [hchan]
      · rw [hchan] at hstate ⊢
        exact ⟨hstate, rfl, hcalm.remoteEps j hji⟩
  · rw [hm] at hp
    rcases hp with hp | hp <;> cases hp
  · cases hm.symm.trans hidle

/-! ## The other steps -/

/-- The service thread is neither among the transports nor among the channels. -/
def between (s : Service) : Bool :=
  match s.phase with
  | .transports _ | .channels _ | .terminated => false
  | _ => true

theorem done_of_between (h : s.between = true) :
    s.doneTransports = s.transports ∧ s.doneChannels = s.channelOps := by
  unfold between at h
  unfold doneTransports doneChannels
  cases hphase : s.phase with
  | transports m | channels m | terminated =>
    rw [hphase] at h
    cases h
  | _ => exact ⟨rfl, rfl⟩

/-- A step outside these loops that leads to another phase and asks for nothing. -/
theorem Served.of_between (h : s.Served c) (hs : s.between = true)
    (ht : t.between = true) (htransports : t.transports = s.transports)
    (hops : t.channelOps = s.channelOps)
    (hwait : s.phase ≠ .polling → s.waitDuration = 0 → t.phase ≠ .polling ∧ t.waitDuration = 0)
    (hwants : ∀ b ∈ s.transports, t.Wants b → s.Wants b) (hasks : ∀ i, t.Asks i → s.Asks i)
    (hstop : t.stopFlag = true → t.transports = [] → t.phase = .top ∨ t.phase = .polling →
      s.stopFlag = true ∧ (s.phase = .top ∨ s.phase = .polling))
    (hidle : t.phase = .idle → t.stopFlag = false) : t.Served c := by
  obtain ⟨hdone, hdone'⟩ := done_of_between hs
  obtain ⟨hdone₁, hdone₁'⟩ := done_of_between ht
  apply h.of_less
  · rw [hdone, hdone₁, htransports]
    exact fun b hb hw => ⟨hb, hwants b hb hw⟩
  · rw [hdone', hdone₁', hops]
    exact fun i hi ha => ⟨hi, hasks i ha⟩
  · exact hwait
  · intro hflag hnil hp
    obtain ⟨hflag', hp'⟩ := hstop hflag hnil hp
    exact ⟨hflag', htransports ▸ hnil, hp'⟩
  · exact hidle

theorem Served.timerTurn (h : s.Served c) {m : ℕ} (hphase : s.phase = .timers m)
    (hturn : TimerTurn m s t) : t.Served c := by
  have hs : s.between = true := by
    unfold between
    rw [hphase]
  have hpolling : s.phase ≠ .polling := by
    rw [hphase]
    exact nofun
  cases hturn with
  | ends timers htimers =>
    exact h.of_between hs rfl rfl rfl (fun _ hzero => ⟨nofun, hzero⟩) (fun _ _ => id)
      (fun _ => id) (fun _ _ hp => hp.elim nofun nofun) nofun
  | userAgain k hlast time =>
    exact h.of_between hs rfl rfl rfl (fun _ hzero => ⟨nofun, hzero⟩) (fun _ _ => id)
      (fun _ => id) (fun _ _ hp => hp.elim nofun nofun) nofun
  | userDone k hlast | late i hlast hexpired hstate =>
    exact h.of_same rfl rfl rfl rfl rfl (fun _ => id) fun _ _ => id
  | timeout i hlast hexpired hstate =>
    let u : Service := { s with timerQueue := s.timerQueue.dropLast }
    have hchan : ∀ j, j ≠ i → (u.handleConnectFailed i ETIMEDOUT).chan j = s.chan j :=
      fun j hj => Function.update_of_ne hj _ _
    have hmasks : ∀ j, Unmasks j s (u.handleConnectFailed i ETIMEDOUT) := by
      intro j
      by_cases hj : j = i
      · subst hj
        exact unmasks_cleanupChannel u j true
      · exact unmasks_of_chan (congrArg IoBase.opOpen (hchan j hj))
          (congrArg IoBase.opClose (hchan j hj))
    refine h.of_same rfl rfl rfl rfl rfl (fun b hw => ?_) fun j _ ha => ?_
    · exact Wants.of_less (s := s) hw rfl rfl id id (hmasks _) rfl
    · refine Asks.of_less (s := s) ha rfl (hmasks j) fun hstate => ?_
      by_cases hj : j = i
      · subst hj
        cases (state_handleConnectFailed u j ETIMEDOUT).symm.trans hstate
      · rw [← hchan j hj]
        exact ⟨hstate, rfl, rfl⟩

/-! ## The condition -/

/-- A connection is made when nobody has asked for the end of its channel or of the service since
the connect began, and a channel in `channel_ops_` is opened again in the role that it has. -/
def ConnectsWanted (inetPton : Host → Option Ip) (s : Service) : Action → Prop
  | .channel a => (s.effect inetPton (.channel a)).transports ≠ s.transports →
      s.stopFlag = false ∧
        ∀ i ∈ s.channelTurn, testbits (s.kind i) Ycm.client = true → (s.chan i).opClose = false
  | .openKind i kind => i ∈ s.channelOps →
      testbits kind Ycm.client = testbits (s.kind i) Ycm.client
  | _ => True

instance (inetPton : Host → Option Ip) (s : Service) (a : Action) :
    Decidable (s.ConnectsWanted inetPton a) := by
  unfold ConnectsWanted
  induction a using Action.casesOn <;> infer_instance

theorem getTimeout_le (s : Service) (now : ℕ) : s.getTimeout now ≤ s.waitDuration := by
  unfold getTimeout
  cases s.timerQueue.getLast? with
  | none => exact le_rfl
  | some t => exact min_le_left _ _

theorem between_of_phase {phase : Phase} (hphase : s.phase = phase)
    (h : ∀ n, phase ≠ .transports n ∧ phase ≠ .channels n ∧ phase ≠ .terminated) :
    s.between = true := by
  unfold between
  cases phase with
  | transports n => exact absurd rfl (h n).1
  | channels n => exact absurd rfl (h n).2.1
  | terminated => exact absurd rfl (h 0).2.2
  | _ => rw [hphase]

/-- The end of a turn of `run`. -/
theorem Served.of_nextPhase (h : s.Served c) (hs : s.between = true)
    (hphase : t.phase = s.nextPhase) (htransports : t.transports = s.transports)
    (hops : t.channelOps = s.channelOps) (hwait : s.waitDuration = 0 → t.waitDuration = 0)
    (hflag : t.stopFlag = s.stopFlag) (hwants : ∀ b, t.Wants b → s.Wants b)
    (hasks : ∀ i, t.Asks i → s.Asks i) : t.Served c := by
  by_cases hrun : s.stopFlag = true ∧ s.transports = []
  · have ht : t.phase = .exiting := hphase.trans (if_pos hrun)
    refine h.of_between hs (between_of_phase ht (by simp)) htransports hops ?_
      (fun b _ => hwants b) hasks ?_ ?_
    · rw [ht]
      exact fun _ hzero => ⟨nofun, hwait hzero⟩
    · rw [ht]
      exact fun _ _ hp => hp.elim nofun nofun
    · rw [ht]
      exact nofun
  · have ht : t.phase = .top := hphase.trans (if_neg hrun)
    refine h.of_between hs (between_of_phase ht (by simp)) htransports hops ?_
      (fun b _ => hwants b) hasks ?_ ?_
    · rw [ht]
      exact fun _ hzero => ⟨nofun, hwait hzero⟩
    · rw [hflag, htransports]
      exact fun hf hnil => absurd ⟨hf, hnil⟩ hrun
    · rw [ht]
      exact nofun

theorem Served.beginFrame (h : s.Served c) (hphase : s.phase = .top) (now : ℕ) :
    (s.beginFrame now).Served c := by
  by_cases hpos : 0 < s.getTimeout now
  · have ht : (s.beginFrame now).phase = .polling := if_pos hpos
    refine h.of_between (between_of_phase hphase (by simp)) (between_of_phase ht (by simp))
      rfl rfl ?_ (fun _ _ => id) (fun _ => id) ?_ ?_
    · intro _ hzero
      have hle := s.getTimeout_le now
      omega
    · exact fun hflag _ _ => ⟨hflag, .inl hphase⟩
    · rw [ht]
      exact nofun
  · exact .of_transports (if_neg hpos) fun b hb => by cases hb

/-- The end of `process_transports`. -/
theorem Served.endTransports (h : s.Served c) (hphase : s.phase = .transports n)
    (hnone : s.transports[n]? = none) : s.endTransports.Served c := by
  have hall : s.doneTransports = s.transports := by
    rw [(doneTransports_of_phase hphase).1]
    exact List.take_of_length_le (List.getElem?_eq_none_iff.1 hnone)
  by_cases hnil : s.channelOps = []
  · have ht : s.endTransports.phase = .timers 0 := if_pos hnil
    obtain ⟨hdone, hdone'⟩ := done_of_between (between_of_phase ht (by simp))
    apply h.of_less
    · exact fun b hb hw => ⟨hall ▸ hdone ▸ hb, hw⟩
    · intro i hi
      rw [hdone', show s.endTransports.channelOps = [] from hnil] at hi
      cases hi
    · rw [ht]
      exact fun _ hzero => ⟨nofun, hzero⟩
    · rw [ht]
      exact fun _ _ hp => hp.elim nofun nofun
    · rw [ht]
      exact nofun
  · have ht : s.endTransports.phase = .channels 0 := if_neg hnil
    obtain ⟨hdone, hdone'⟩ := doneTransports_of_channels ht
    apply h.of_less
    · exact fun b hb hw => ⟨hall ▸ hdone ▸ hb, hw⟩
    · intro i hi
      rw [hdone'] at hi
      cases hi
    · rw [ht]
      exact fun _ hzero => ⟨nofun, hzero⟩
    · rw [ht]
      exact fun _ _ hp => hp.elim nofun nofun
    · rw [ht]
      exact nofun

theorem Served.endChannels (h : s.Served c) (hphase : s.phase = .channels n)
    (hnone : s.channelOps[n]? = none) : ({ s with phase := .timers 0 } : Service).Served c := by
  obtain ⟨hdone, hdone'⟩ := doneTransports_of_channels hphase
  rw [List.take_of_length_le (List.getElem?_eq_none_iff.1 hnone)] at hdone'
  apply h.of_less
  · exact fun b hb hw => ⟨hdone ▸ hb, hw⟩
  · exact fun i hi ha => ⟨hdone' ▸ hi, ha⟩
  · exact fun _ hzero => ⟨nofun, hzero⟩
  · exact fun _ _ hp => hp.elim nofun nofun
  · exact nofun

theorem Unmasks.refl (i : ℕ) (s : Service) : Unmasks i s s := ⟨id, id⟩

theorem asks_setNet {net : Net} (h : net.remoteEps = (s.net i).remoteEps) {j : ℕ}
    (hj : (s.setNet i net).Asks j) : s.Asks j := by
  refine hj.of_less rfl (.refl j s) fun hstate => ⟨hstate, rfl, ?_⟩
  change (update s.net i net j).remoteEps = _
  by_cases hji : j = i
  · subst hji
    rw [Function.update_self, h]
  · rw [Function.update_of_ne hji]

/-- A `close` of a channel that wakes nobody sets no mask. -/
theorem unmasks_closeChannel (h : s.callWakes (.closeChannel i) = false) (j : ℕ) :
    Unmasks j s (s.setChan i (s.closedChan i)) := by
  by_cases hj : j = i
  · subst hj
    unfold Unmasks setChan closedChan
    dsimp only
    rw [Function.update_self]
    split
    · exact ⟨id, id⟩
    · next hclose =>
      have hsock : (s.sock j).isSome = false := by simpa [callWakes, hclose] using h
      refine ⟨nofun, fun hopen => ?_⟩
      cases hsock.symm.trans hopen
  · have hchan : (s.setChan i (s.closedChan i)).chan j = s.chan j := Function.update_of_ne hj _ _
    exact unmasks_of_chan (congrArg IoBase.opOpen hchan) (congrArg IoBase.opClose hchan)

/-- A `stop` that wakes nobody comes when the service is stopping. -/
theorem stop_of_not_wakes (h : s.callWakes .stop = false) :
    (s.stopFlag = true ∨ s.phase = .exiting ∨ s.phase = .stopping) ∧ s.stop.chan = s.chan := by
  have hstopping : s.stopFlag = true ∨ s.phase = .exiting ∨ s.phase = .stopping := by
    simp only [callWakes, Bool.and_eq_false_iff, Bool.not_eq_false', decide_eq_false_iff_not,
      ne_eq, not_not] at h
    tauto
  refine ⟨hstopping, funext fun i => if_pos ?_⟩
  tauto

theorem endEvents_cases (h : s.enabled .endEvents = true) : ∃ d, s.phase = .events d := by
  unfold enabled at h
  dsimp only at h
  split at h
  · next d hd => exact ⟨d, hd⟩
  · cases h

theorem Served.effect (h : s.Served c) (hs : s.Placed) {a : Action} (henabled : s.enabled a = true)
    (hcond : s.ConnectsWanted inetPton a) (hpoll : ∀ f, a ≠ .poll (some f))
    (hcall : s.callWakes a = true → c) (hthread : s.threadWakes (s.effect inetPton a) a = true → c)
    (hmasked : ∀ n, a = .openMask n → c) : (s.effect inetPton a).Served c := by
  -- a step of another thread that leaves all but the timers, the events and the addresses
  have hsame : ∀ {t : Service}, t.phase = s.phase → t.waitDuration = s.waitDuration →
      t.stopFlag = s.stopFlag → t.transports = s.transports → t.channelOps = s.channelOps →
        (∀ b, t.Wants b → s.Wants b) → (∀ i ∈ s.channelOps, t.Asks i → s.Asks i) → t.Served c :=
    fun hphase hwait hflag htransports hops hwants hasks =>
      h.of_same hphase htransports hops hwait hflag hwants hasks
  cases a with
  | start =>
    have hphase : s.phase = .idle := by simpa [enabled] using henabled
    exact h.of_between (between_of_phase hphase (by simp)) rfl rfl rfl
      (fun _ hzero => ⟨(by rintro ⟨⟩), hzero⟩) (fun _ _ => id) (fun _ => id)
      (fun hflag _ _ => by cases (h.idle hphase).symm.trans hflag) fun hp => by cases hp
  | frame now =>
    have hphase : s.phase = .top ∧ s.currentTime ≤ now := by simpa [enabled] using henabled
    exact h.beginFrame hphase.1 now
  | poll answer =>
    have hphase : s.phase = .polling := by simpa [enabled] using henabled
    cases answer with
    | some f => exact absurd rfl (hpoll f)
    | none =>
      exact h.of_nextPhase (between_of_phase hphase (by simp)) rfl rfl rfl id rfl (fun _ => id)
        fun _ => id
  | transport a =>
    obtain ⟨n, hn, ⟨hnone, heq⟩ | ⟨b, hb, heq⟩⟩ := transport_cases inetPton henabled
    · rw [heq]
      exact h.endTransports hn hnone
    · rw [heq]
      exact h.visitTransport hs.sound hn hb a
  | channel a =>
    obtain ⟨n, hn, ⟨hnone, heq⟩ | ⟨i, hi, heq⟩⟩ := channel_cases inetPton henabled
    · rw [heq]
      exact h.endChannels hn hnone
    · have hmem : i ∈ s.channelTurn := mem_channelTurn hn hi
      have hcond : (s.effect inetPton (.channel a)).transports ≠ s.transports → _ := hcond
      rw [heq] at hthread hcond ⊢
      refine h.visitChannel hs hn hi a (fun hwakes => hthread ?_) fun hne => ?_
      · exact (Option.any_eq_true _ _).2 ⟨i, hmem, hwakes⟩
      · exact ⟨(hcond hne).1, (hcond hne).2 i hmem⟩
  | timer again =>
    obtain ⟨n, hn, heq⟩ := timer_cases inetPton henabled
    rw [heq]
    exact h.timerTurn hn (exists_timerTurn n again)
  | endEvents =>
    obtain ⟨d, hd⟩ := endEvents_cases henabled
    refine h.of_nextPhase (between_of_phase hd (by simp)) rfl rfl rfl ?_ rfl
      (fun _ => id) fun _ => id
    intro hzero
    change (if _ then 0 else s.waitDuration) = 0
    rw [hzero, ite_self]
  | beginDispatch count =>
    by_cases hevents : s.phase = .events false
    · have ht : (s.beginDispatch count).phase = .events true := if_pos hevents
      refine h.of_between (between_of_phase hevents (by simp))
        (between_of_phase ht (by simp)) rfl rfl ?_ (fun _ _ => id) (fun _ => id) ?_ ?_
      · intro _ hzero
        refine ⟨fun hp => ?_, hzero⟩
        cases ht.symm.trans hp
      · rintro - - (hp | hp) <;> cases ht.symm.trans hp
      · exact fun hp => by cases ht.symm.trans hp
    · exact hsame (if_neg hevents) rfl rfl rfl rfl (fun _ => id) fun _ _ => id
  | openKind i kind =>
    refine hsame rfl rfl rfl rfl rfl (fun _ => id) fun j hj ha => ?_
    refine Asks.of_less (s := s) ha ?_ (.refl j s) fun hstate => ⟨hstate, rfl, rfl⟩
    change testbits (update s.kind i kind j) Ycm.client = _
    by_cases hji : j = i
    · subst hji
      rw [Function.update_self]
      exact hcond hj
    · rw [Function.update_of_ne hji]
  | openMask n => exact .of_true (hmasked n rfl) h.idle
  | answer n result =>
    refine .of_true (hcall rfl) ?_
    cases result <;> exact h.idle
  | openInsert n | writeQueue data dest | write b data dest =>
    exact .of_true (hcall rfl) h.idle
  | closeChannel i =>
    cases hcalls : s.callWakes (.closeChannel i) with
    | true => exact .of_true (hcall hcalls) h.idle
    | false =>
      have hmasks := unmasks_closeChannel hcalls
      refine hsame rfl rfl rfl rfl rfl (fun b hw => ?_) fun j _ ha => ?_
      · exact Wants.of_less (s := s) hw rfl rfl id id (hmasks _) rfl
      · refine Asks.of_less (s := s) ha rfl (hmasks j) fun hstate => ?_
        have hstate' := state_setChan (s.state_closedChan i) j
        have herror : ((s.setChan i (s.closedChan i)).chan j).error = (s.chan j).error := by
          change (update s.chan i (s.closedChan i) j).error = _
          by_cases hj : j = i
          · subst hj
            rw [Function.update_self, error_closedChan]
          · rw [Function.update_of_ne hj]
        exact ⟨hstate'.symm.trans hstate, herror, rfl⟩
  | closeTransport b =>
    cases hclose : (s.io b).opClose with
    | false =>
      refine .of_true (hcall ?_) h.idle
      simp [callWakes, hclose]
    | true =>
      have hio : ({ s.io b with opClose := true } : IoBase) = s.io b := by rw [← hclose]
      have heq : s.effect inetPton (.closeTransport b) = s := by
        change s.setIo b { s.io b with opClose := true } = s
        rw [hio, setIo, Function.update_eq_self]
      rw [heq]
      exact hsame rfl rfl rfl rfl rfl (fun _ => id) fun _ _ => id
  | setHost i host =>
    refine hsame rfl rfl rfl rfl rfl (fun _ => id) fun j _ => asks_setNet ?_
    unfold Net.setHost
    split <;> rfl
  | setPort i port =>
    refine hsame rfl rfl rfl rfl rfl (fun _ => id) fun j _ => asks_setNet ?_
    unfold Net.setPort
    split
    · rfl
    · split <;> rfl
  | setLocal i host port =>
    let net : Net := { s.net i with localHost := host, localPort := port }
    have hnet : net.remoteEps = (s.net i).remoteEps := rfl
    exact hsame rfl rfl rfl rfl rfl (fun _ => id) fun j _ => asks_setNet hnet
  | setMcast i flag =>
    let net : Net := { s.net i with mcast := flag }
    have hnet : net.remoteEps = (s.net i).remoteEps := rfl
    exact hsame rfl rfl rfl rfl rfl (fun _ => id) fun j _ => asks_setNet hnet
  | udpConnect b ok =>
    obtain ⟨udp, sockPeer, heq, -⟩ := s.exists_udpConnect b ok
    dsimp only [Service.effect]
    rw [heq]
    exact hsame rfl rfl rfl rfl rfl (fun _ => id) fun _ _ => id
  | cancelTimer n =>
    obtain ⟨timers, heq⟩ := s.exists_cancelTimer (.user n)
    dsimp only [Service.effect]
    rw [heq]
    exact hsame rfl rfl rfl rfl rfl (fun _ => id) fun _ _ => id
  | stop =>
    have hidle : s.phase = .idle → s.stop.stopFlag = false := fun hidle => by
      simp [enabled, hidle] at henabled
    cases hcalls : s.callWakes .stop with
    | true => exact .of_true (hcall hcalls) hidle
    | false =>
      obtain ⟨hstopping, hchan⟩ := stop_of_not_wakes hcalls
      have hasks : ∀ i, s.stop.Asks i → s.Asks i := fun i =>
        (asks_iff (s := s) (t := s.stop) rfl hchan rfl).1
      by_cases hflag : s.stopFlag = true
      · exact hsame rfl rfl hflag.symm rfl rfl (fun b => (wants_iff hchan hflag.symm rfl rfl rfl).1)
          fun i _ => hasks i
      -- the loop has been left, and the transports with it
      · have hleft : s.phase = .exiting ∨ s.phase = .stopping := hstopping.resolve_left hflag
        have hnil : s.transports = [] := hs.exited (by simpa [left] using hleft)
        have hbetween : s.between = true := by
          rcases hleft with hp | hp <;> exact between_of_phase hp (by simp)
        refine h.of_between hbetween hbetween rfl rfl And.intro (fun b hb => ?_) hasks
          (fun _ _ hp => ?_) hidle
        · rw [hnil] at hb
          cases hb
        · have hp : s.phase = .top ∨ s.phase = .polling := hp
          rcases hleft with hl | hl <;> rcases hp with hp | hp <;> cases hl.symm.trans hp
  | join =>
    have hphase : s.phase = .exiting ∧ s.budget = none := by simpa [enabled] using henabled
    obtain ⟨events, heq, -⟩ := s.exists_join
    dsimp only [Service.effect]
    rw [heq]
    exact h.of_between (between_of_phase hphase.1 (by simp)) rfl rfl rfl
      (fun _ hzero => ⟨(by rintro ⟨⟩), hzero⟩) (fun _ _ => id) (fun _ => id)
      (by rintro - - (hp | hp) <;> cases hp) fun hp => by cases hp
  | finishStop =>
    have hphase : s.phase = .stopping ∧ s.budget = none := by simpa [enabled] using henabled
    have hnil := hs.transports_of_finishStop henabled
    dsimp only [Service.effect]
    rw [hs.finishStop_eq henabled]
    refine h.of_between (between_of_phase hphase.1 (by simp)) rfl rfl rfl
      (fun _ hzero => ⟨(by rintro ⟨⟩), hzero⟩) (fun b hb => ?_) (fun _ => id)
      (by rintro - - (hp | hp) <;> cases hp) fun _ => rfl
    rw [hnil] at hb
    cases hb
  | _ => exact hsame rfl rfl rfl rfl rfl (fun _ => id) fun _ _ => id

/-! ## Calls that are still to wake the thread -/

theorem opens_visitTransport (n : ℕ) (b : Block) (a : TransportAnswers) :
    (s.visitTransport n b a).opens = s.opens := by
  obtain ⟨s', hs, hend⟩ := s.exists_turnEnd (b := b) n a
  have htouched := (s.touched_atRead (b := b) a).trans hs.toTouched
  have hopens : s'.opens = s.opens := congrArg Channels.opens htouched.channels
  generalize s.visitTransport n b a = t at hend
  cases hend with
  | thrown | kept h => exact hopens
  | dropped =>
    obtain ⟨chan, io, sockets, heq, -⟩ := s'.exists_dropTransport n b a.tail
    rw [heq]
    exact hopens

/-- A call of `open` that has set the masks goes on to insert its channel and calls `wakeup`. -/
theorem masked_effect {a : Action} (henabled : s.enabled a = true) {x : ℕ × OpenStage}
    (hx : x ∈ s.opens) (hmasked : x.2 = .masked) :
    x ∈ (s.effect inetPton a).opens ∨ s.callWakes a = true := by
  have hsame : ∀ {t : Service}, t.opens = s.opens → x ∈ t.opens ∨ s.callWakes a = true :=
    fun h => .inl (h ▸ hx)
  -- the entry is not the one whose stage changes
  have hother : ∀ {n : ℕ} {stage : OpenStage}, n < s.opens.length → (s.opening n).2 = stage →
      stage ≠ .masked → ∃ m, m ≠ n ∧ s.opens[m]? = some x := by
    intro n stage hn hstage hne
    obtain ⟨m, hm⟩ := List.mem_iff_getElem?.1 hx
    refine ⟨m, ?_, hm⟩
    rintro rfl
    have hget : s.opens[m]? = some (s.opening m) := by simp [opening, hn]
    rw [← hstage, Option.some.inj (hget.symm.trans hm)] at hne
    exact hne hmasked
  have hset : ∀ {n : ℕ} (y : ℕ × OpenStage), (∃ m, m ≠ n ∧ s.opens[m]? = some x) →
      x ∈ s.opens.set n y := by
    rintro n y ⟨m, hmn, hm⟩
    exact List.mem_iff_getElem?.2 ⟨m, (List.getElem?_set_ne hmn.symm).trans hm⟩
  cases a with
  | transport a =>
    obtain ⟨n, hn, ⟨-, heq⟩ | ⟨b, hb, heq⟩⟩ := transport_cases inetPton henabled
    · rw [heq]
      exact hsame rfl
    · rw [heq]
      exact hsame (opens_visitTransport n b a)
  | channel a =>
    obtain ⟨n, hn, ⟨-, heq⟩ | ⟨i, hi, heq⟩⟩ := channel_cases inetPton henabled
    · rw [heq]
      exact hsame rfl
    · obtain ⟨t, hturn, ht⟩ := s.exists_channelTurn inetPton n i a
      rw [heq]
      rcases ht with ht | ht <;> (rw [ht]; exact hsame hturn.frame.opens)
  | timer again =>
    obtain ⟨n, hn, heq⟩ := timer_cases inetPton henabled
    obtain ⟨i, t, phase, ht, -, heq'⟩ := s.exists_processTimer inetPton n again
    rw [heq, heq']
    exact hsame ht.frame.opens
  | openKind i kind => exact .inl (List.mem_append_left _ hx)
  | openTest n =>
    obtain ⟨hn, hstage⟩ : n < s.opens.length ∧ (s.opening n).2 = .kinded := by
      simpa [enabled] using henabled
    have hm := hother hn hstage fun h => by cases h
    left
    change x ∈ if _ then s.opens.eraseIdx n else s.opens.set n _
    split
    · obtain ⟨m, hmn, hm⟩ := hm
      exact List.mem_eraseIdx_iff_getElem?.2 ⟨m, hmn, hm⟩
    · exact hset _ hm
  | openMask n =>
    obtain ⟨hn, hstage⟩ : n < s.opens.length ∧ (s.opening n).2 = .tested := by
      simpa [enabled] using henabled
    exact .inl (hset _ (hother hn hstage fun h => by cases h))
  | openInsert n => exact .inr rfl
  | answer n result => cases result <;> exact hsame rfl
  | udpConnect b ok =>
    obtain ⟨udp, sockPeer, heq, -⟩ := s.exists_udpConnect b ok
    dsimp only [Service.effect]
    rw [heq]
    exact hsame rfl
  | cancelTimer n =>
    obtain ⟨timers, heq⟩ := s.exists_cancelTimer (.user n)
    dsimp only [Service.effect]
    rw [heq]
    exact hsame rfl
  | join =>
    obtain ⟨events, heq, -⟩ := s.exists_join
    dsimp only [Service.effect]
    rw [heq]
    exact hsame rfl
  | finishStop =>
    obtain ⟨io, sockets, heq⟩ := s.exists_clearTransports
    dsimp only [Service.effect, finishStop]
    rw [heq]
    exact hsame rfl
  | _ => exact hsame rfl

end Service

namespace Waking

variable {w w' : Waking} {x : WakingAction} {inetPton : Host → Option Ip}

/-- The poll will end at once, or a call is still to see to that. -/
def Covered (w : Waking) : Prop :=
  w.signalled = true ∨ 0 < w.calls ∨ ∃ x ∈ w.service.opens, x.2 = .masked

theorem not_covered_of_asleep (h : w.Asleep) : ¬ w.Covered := by
  obtain ⟨-, hsignalled, hcalls, hopens⟩ := h
  rintro (h | h | ⟨x, hx, h⟩)
  · cases hsignalled.symm.trans h
  · omega
  · exact hopens x hx h

theorem step_act {a : Action} (h : Waking.step inetPton (.act a) w = some w') :
    w.service.enabled a = true ∧ w'.service = w.service.effect inetPton a ∧
      (w.service.callWakes a = true → 0 < w'.calls) ∧ w.calls ≤ w'.calls ∧
      ((∀ f, a ≠ .poll (some f)) → w.signalled = true → w'.signalled = true) ∧
      (w.service.threadWakes (w.service.effect inetPton a) a = true → w'.signalled = true) := by
  obtain ⟨t, ht, rfl⟩ := Option.map_eq_some_iff.1 h
  obtain ⟨henabled, rfl⟩ := step_eq_some.1 ht
  refine ⟨henabled, rfl, fun hcalls => ?_, ?_, fun hpoll hs => ?_, fun hthread => ?_⟩
  · dsimp only
    rw [if_pos hcalls]
    omega
  · dsimp only
    split <;> omega
  · cases a with
    | poll answer =>
      cases answer with
      | none => exact Bool.and_eq_true_iff.2 ⟨hs, rfl⟩
      | some f => exact absurd rfl (hpoll f)
    | _ => exact Bool.or_eq_true_iff.2 (.inl hs)
  · cases a with
    | poll answer => cases hthread
    | _ => exact Bool.or_eq_true_iff.2 (.inr hthread)

/-- Only a poll that returns takes the cover away. -/
theorem Covered.act {a : Action} (h : w.Covered)
    (hstep : Waking.step inetPton (.act a) w = some w') (hpoll : ∀ f, a ≠ .poll (some f)) :
    w'.Covered := by
  obtain ⟨henabled, hservice, hcall, hcalls, hsignalled, -⟩ := step_act hstep
  rcases h with h | h | ⟨x, hx, hmasked⟩
  · exact .inl (hsignalled hpoll h)
  · exact .inr (.inl (h.trans_le hcalls))
  · have hcases : x ∈ (w.service.effect inetPton a).opens ∨ _ :=
      Service.masked_effect henabled hx hmasked
    rcases hcases with hx | hwakes
    · exact .inr (.inr ⟨x, hservice ▸ hx, hmasked⟩)
    · exact .inr (.inl (hcall hwakes))

/-- The invariant. -/
structure Served (w : Waking) : Prop extends w.service.Placed where
  served : w.service.Served w.Covered

theorem Served.act {a : Action} (h : w.Served)
    (hcond : w.service.ConnectsWanted inetPton a)
    (hstep : Waking.step inetPton (.act a) w = some w') : w'.Served := by
  obtain ⟨henabled, hservice, hcall, -, -, hthread⟩ := step_act hstep
  have hplaced : (w.service.effect inetPton a).Placed := h.toPlaced.effect henabled
  refine ⟨hservice ▸ hplaced, ?_⟩
  by_cases hpoll : ∃ f, a = .poll (some f)
  · obtain ⟨f, rfl⟩ := hpoll
    rw [hservice]
    exact Service.Served.of_transports rfl fun b hb => by cases hb
  · have hpoll : ∀ f, a ≠ .poll (some f) := fun f heq => hpoll ⟨f, heq⟩
    have hserved := h.served.mono fun hcovered => Covered.act hcovered hstep hpoll
    rw [hservice]
    refine hserved.effect h.toPlaced henabled hcond hpoll (fun hwakes => .inr (.inl (hcall hwakes)))
      (fun hwakes => .inl (hthread hwakes)) ?_
    rintro n rfl
    obtain ⟨hn, -⟩ : n < w.service.opens.length ∧ (w.service.opening n).2 = .tested := by
      simpa [Service.enabled] using henabled
    have hmem : ((w.service.opening n).1, OpenStage.masked) ∈ w'.service.opens := by
      rw [hservice]
      exact List.mem_set hn _
    exact .inr (.inr ⟨_, hmem, rfl⟩)

theorem Served.wakeup (h : w.Served) (hstep : Waking.step inetPton .wakeup w = some w') :
    w'.Served := by
  dsimp only [Waking.step] at hstep
  split at hstep
  · cases hstep
    exact ⟨h.toPlaced, h.served.mono fun _ => .inl rfl⟩
  · cases hstep

theorem served_fresh (channelCount : ℕ) (options : Options) (uparams : ℕ → UnpackParams) :
    (Waking.fresh channelCount options uparams).Served where
  toPlaced := Service.placed_fresh channelCount options uparams
  served := ⟨nofun, nofun, nofun, fun _ => rfl⟩

/-- `ConnectsWanted` of the steps of the service. -/
def ConnectsWanted (inetPton : Host → Option Ip) (w : Waking) : WakingAction → Prop
  | .act a => w.service.ConnectsWanted inetPton a
  | .wakeup => True

instance (inetPton : Host → Option Ip) (w : Waking) (x : WakingAction) :
    Decidable (w.ConnectsWanted inetPton x) := by
  unfold ConnectsWanted
  induction x using WakingAction.casesOn <;> infer_instance

theorem Served.not_unserved (h : w.Served) (hasleep : w.Asleep) : ¬ w.service.Unserved := by
  have hcover := not_covered_of_asleep hasleep
  have hphase := hasleep.1
  obtain ⟨hdone, hdone'⟩ :=
    Service.done_of_between (Service.between_of_phase hphase (by simp))
  have hwants : ∀ b ∈ w.service.transports, ¬ w.service.Wants b := by
    intro b hb hw
    rw [← hdone] at hb
    exact (h.served.transports b hb hw).elim hcover fun hwait => hwait.1 hphase
  rintro (hflag | ⟨b, hb, hw⟩ | ⟨i, hi, ha⟩)
  · cases hlist : w.service.transports with
    | nil => exact hcover (h.served.stopping hflag hlist (.inr hphase))
    | cons b bs =>
      refine hwants b (by simp [hlist]) (.inl ?_)
      simp [Service.closeAsked, hflag]
  · exact hwants b hb hw
  · rw [← hdone'] at hi
    exact hcover (h.served.channels i hi ha)

end Waking

/-- While connections are made only for channels and services whose end nobody has asked for, the
service thread is never asleep with a packet to write, a request to take up, an answer of the
resolver to use, a transport to close or a stop to follow. -/
theorem served_of_run {inetPton : Host → Option Ip} {channelCount : ℕ} {options : Options}
    {uparams : ℕ → UnpackParams} {xs : List WakingAction} {w : Waking}
    (hrun : Machine.run (Waking.step inetPton) xs (.fresh channelCount options uparams) = some w)
    (hcond : Machine.Meets (Waking.step inetPton) (Waking.ConnectsWanted inetPton) xs
      (.fresh channelCount options uparams))
    (hasleep : w.Asleep) : ¬ w.service.Unserved := by
  have h : w.Served := by
    refine Machine.invariant_of_meets (I := Waking.Served) ?_
      (Waking.served_fresh channelCount options uparams) hcond hrun
    rintro w (a | _) w' hw hcond hstep
    · exact hw.act hcond hstep
    · exact hw.wakeup hstep
  exact h.not_unserved hasleep

/-- Channel 0 connects, a packet is written and sent, and the next poll begins. -/
def sendAndSleep : List WakingAction :=
  (connectFirst.map .act).insertIdx 7 .wakeup ++
    [.act (.frame 2), .act (.write 0 [1] none), .wakeup, .act (.poll (some fun _ => {})),
      .act (.transport { send := .sent 1 }), .act (.transport {}), .act (.timer none),
      .act .endEvents, .act (.frame 3)]

theorem served_of_run_sendAndSleep :
    ∃ w, Machine.run (Waking.step fun _ => some (.v4 1)) sendAndSleep
        (.fresh 1 { noDispatch := true } fun _ => {}) = some w ∧
      w.Asleep ∧ w.service.transports ≠ [] ∧ ¬ w.service.Unserved := by
  obtain ⟨w, hrun, hasleep, htransports⟩ :=
    Machine.exists_of_any (Waking.step fun _ => some (.v4 1)) sendAndSleep
      (.fresh 1 { noDispatch := true } fun _ => {})
      (fun w => w.Asleep ∧ w.service.transports ≠ []) (by decide +kernel)
  exact ⟨w, hrun, hasleep, htransports, served_of_run hrun (by decide +kernel) hasleep⟩

/-- Channel 0 begins to connect, and while the service thread polls, `x` is called. -/
def askWhileConnecting (x : Action) : List WakingAction :=
  [.act .start, .act (.setHost 0 ['a']), .act (.setPort 0 80), .act (.openKind 0 Yck.tcpClient),
    .act (.openTest 0), .act (.openMask 0), .act (.openInsert 0), .wakeup, .act (.frame 1),
    .act (.poll (some fun _ => {})), .act (.transport {}),
    .act (.channel { socket := .ok 5, connect := some 115 }), .act (.channel {}),
    .act (.timer none), .act .endEvents, .act (.frame 2), .act x, .wakeup,
    .act (.poll (some fun _ => { write := true })), .act (.transport {}), .act (.channel {}),
    .act (.channel {}), .act (.timer none), .act .endEvents, .act (.frame 3)]

/-- The connect completes in the frame that the `close` of its channel has woken the thread for, and
the thread goes to sleep with the transport still to be closed. -/
theorem asleep_after_close :
    ∃ w, Machine.run (Waking.step fun _ => some (.v4 1)) (askWhileConnecting (.closeChannel 0))
        (.fresh 1 { noDispatch := true } fun _ => {}) = some w ∧
      w.Asleep ∧ 0 ∈ w.service.transports ∧ w.service.closeAsked 0 = true :=
  Machine.exists_of_any _ _ _ _ (by decide +kernel)

/-- A service that is told to stop goes to sleep in the same way. -/
theorem asleep_after_stop :
    ∃ w, Machine.run (Waking.step fun _ => some (.v4 1)) (askWhileConnecting .stop)
        (.fresh 1 { noDispatch := true } fun _ => {}) = some w ∧
      w.Asleep ∧ w.service.stopFlag = true :=
  Machine.exists_of_any _ _ _ _ (by decide +kernel)

end Yasio
