import Yasio.Service.Resolve

/-!
# Marking DNS dirty

`update_dns_status` gives every channel the time 0 for its last query, which `address_expired`
compares with the clock like any other time.
-/

namespace Yasio

open Function (update)

/-- The answer that a channel was given last. -/
structure CachedAnswer where
  time : ℕ
  /-- `YOPT_S_DNS_DIRTY` has been set since. -/
  stale : Bool := false

/-- A service, and the last answer of each channel. -/
structure Caching where
  service : Service
  cached : ℕ → Option CachedAnswer := fun _ => none

namespace Caching

variable (inetPton : Host → Option Ip) (c : Caching)

def record : Action → ℕ → Option CachedAnswer
  | .answer n (.ok (_, now)) =>
    update c.cached (c.service.query n).channel (some { time := now })
  | .setDnsDirty => fun i => (c.cached i).map fun x => { x with stale := true }
  | _ => c.cached

def step (a : Action) (c : Caching) : Option Caching :=
  (Yasio.step inetPton a c.service).map fun s => ⟨s, c.record a⟩

def fresh (channelCount : ℕ) (options : Options) (uparams : ℕ → UnpackParams) : Caching where
  service := .fresh channelCount options uparams

/-- The channel once `do_resolve` has taken up a new host and a new port. -/
def refreshed (i : ℕ) : Net := ((c.service.net i).refreshHost inetPton).refreshPort

/-- `do_resolve` returns 0 with an answer from after the flag was set only, and if the flag is clear
with one that is not older than the timeout. -/
def Drops (i now : ℕ) : Prop :=
  ((c.service.takeOpen i).doResolve inetPton i now).2 = true →
    ∃ x, c.cached i = some x ∧ x.stale = false ∧
      (c.service.options.dnsDirty = false →
        (now : Int) - x.time ≤ c.service.options.dnsCacheTimeout)

/-- The answer that the cached addresses come from has been renewed, or it expires at the call.
While `error_` says that the query runs, `do_resolve` does not ask for the age of what it finds. -/
def Renewed (i now : ℕ) : Prop :=
  (c.refreshed inetPton i).remoteEps ≠ [] → ∀ x, c.cached i = some x →
    if ((c.service.takeOpen i).chan i).error = EINPROGRESS then
      x.stale = false ∧
        (c.service.options.dnsDirty = false →
          (now : Int) - x.time ≤ c.service.options.dnsCacheTimeout)
    else x.stale = true → c.service.options.dnsCacheTimeout < now

end Caching

namespace Service

/-- What is cached only gets older from the one to the other, and a flag is taken up for all. -/
structure Ages (s s' : Service) : Prop where
  channelCount : s'.channelCount = s.channelCount
  dirty : s.options.dnsDirty = true →
    s'.options.dnsDirty = true ∨ ∀ i < s.channelCount, (s'.net i).querySuccessTime = 0
  time : ∀ i, (s'.net i).querySuccessTime ≤ (s.net i).querySuccessTime
  eps : ∀ i, (s'.net i).needsQuery = true → (s'.net i).remoteEps ≠ [] →
    (s.net i).needsQuery = true ∧ (s.net i).remoteEps ≠ []

variable {inetPton : Host → Option Ip} {s s' s'' : Service}

theorem Ages.of_eq (net : s'.net = s.net) (options : s'.options = s.options)
    (channelCount : s'.channelCount = s.channelCount) : s.Ages s' where
  channelCount := channelCount
  dirty h := .inl (by rw [options, h])
  time i := by rw [net]
  eps i hneeds heps := by
    rw [net] at hneeds heps
    exact ⟨hneeds, heps⟩

theorem Ages.trans (h : s.Ages s') (h' : s'.Ages s'') : s.Ages s'' where
  channelCount := h'.channelCount.trans h.channelCount
  dirty hdirty := by
    rcases h.dirty hdirty with hkept | hzero
    · rw [← h.channelCount]
      exact h'.dirty hkept
    · refine .inr fun i hi => Nat.le_zero.1 ?_
      rw [← hzero i hi]
      exact h'.time i
  time i := Nat.le_trans (h'.time i) (h.time i)
  eps i hneeds heps :=
    have hbefore := h'.eps i hneeds heps
    h.eps i hbefore.1 hbefore.2

theorem Ages.setNet {i : ℕ} {net : Net}
    (htime : net.querySuccessTime ≤ (s.net i).querySuccessTime)
    (heps : net.needsQuery = true → net.remoteEps ≠ [] →
      (s.net i).needsQuery = true ∧ (s.net i).remoteEps ≠ []) : s.Ages (s.setNet i net) := by
  have hnet : ∀ j, j = i ∧ (s.setNet i net).net j = net ∨
      (s.setNet i net).net j = s.net j := by
    intro j
    by_cases hj : j = i
    · subst hj
      exact .inl ⟨rfl, Function.update_self _ _ _⟩
    · exact .inr (Function.update_of_ne hj _ _)
  refine ⟨rfl, fun h => .inl h, fun j => ?_, fun j => ?_⟩
  · rcases hnet j with ⟨rfl, heq⟩ | heq
    · rwa [heq]
    · rw [heq]
  · rcases hnet j with ⟨rfl, heq⟩ | heq
    · rwa [heq]
    · rw [heq]
      exact And.intro

theorem time_refresh (net : Net) :
    (net.refreshHost inetPton).refreshPort.querySuccessTime = net.querySuccessTime := by
  unfold Net.refreshPort Net.refreshHost
  split <;> split <;> rfl

theorem refreshPort_needsQuery (net : Net) : net.refreshPort.needsQuery = net.needsQuery := by
  unfold Net.refreshPort
  split <;> rfl

theorem eps_refreshPort {net : Net} (h : net.refreshPort.remoteEps ≠ []) : net.remoteEps ≠ [] := by
  unfold Net.refreshPort at h
  split at h
  · exact fun hnil => h (List.map_eq_nil_iff.2 hnil)
  · exact h

/-- A host that is taken up and needs a query leaves no addresses. -/
theorem eps_refresh {net : Net}
    (hneeds : (net.refreshHost inetPton).refreshPort.needsQuery = true)
    (heps : (net.refreshHost inetPton).refreshPort.remoteEps ≠ []) :
    net.needsQuery = true ∧ net.remoteEps ≠ [] := by
  rw [refreshPort_needsQuery] at hneeds
  have hsome := eps_refreshPort heps
  unfold Net.refreshHost at hneeds hsome
  split at hneeds
  · next hdirty =>
    rw [if_pos hdirty] at hsome
    cases hip : inetPton net.remoteHost with
    | none => simp [hip] at hsome
    | some ip => simp [hip] at hneeds
  · next hdirty =>
    rw [if_neg hdirty] at hsome
    exact ⟨hneeds, hsome⟩

theorem Ages.refresh (i : ℕ) :
    s.Ages (s.setNet i ((s.net i).refreshHost inetPton).refreshPort) :=
  .setNet (Nat.le_of_eq (time_refresh _)) eps_refresh

theorem Ages.updateDnsStatus : s.Ages s.updateDnsStatus := by
  unfold Service.updateDnsStatus
  split
  · refine ⟨rfl, fun _ => .inr fun i hi => ?_, fun i => ?_, fun i => ?_⟩
    · dsimp only
      rw [if_pos hi]
    · dsimp only
      split
      · exact Nat.zero_le _
      · exact Nat.le_refl _
    · dsimp only
      split <;> exact And.intro
  · exact .of_eq rfl rfl rfl

theorem Ages.doResolve (inetPton : Host → Option Ip) (i now : ℕ) :
    s.Ages (s.doResolve inetPton i now).1 := by
  apply Service.doResolve_induction
  · exact .refresh i
  · exact fun t ht => ht.trans .updateDnsStatus
  · exact fun t ht => ht.trans (.setNet (Nat.le_refl _) fun _ hnil => absurd rfl hnil)
  · exact fun t ht => ht.trans (.of_eq rfl rfl rfl)
  · exact fun t ht => ht.trans (.of_eq rfl rfl rfl)

theorem Ages.of_chain (h : ResolveChain inetPton s s') : s.Ages s' := by
  induction h with
  | refl => exact .of_eq rfl rfl rfl
  | tail _ hpart ih =>
    cases hpart with
    | same net options channelCount => exact ih.trans (.of_eq net options channelCount)
    | resolve i now => exact ih.trans (.doResolve inetPton i now)

/-- The time that `address_expired` looks at. -/
theorem time_updateDnsStatus {i : ℕ} (hi : i < s.channelCount) :
    (s.updateDnsStatus.net i).querySuccessTime =
      if s.options.dnsDirty then 0 else (s.net i).querySuccessTime := by
  unfold Service.updateDnsStatus
  split
  · dsimp only
    rw [if_pos hi]
  · rfl

theorem timeout_updateDnsStatus :
    s.updateDnsStatus.options.dnsCacheTimeout = s.options.dnsCacheTimeout := by
  unfold Service.updateDnsStatus
  split <;> rfl

/-- With a name to ask for, `do_resolve` returns 0 exactly when it has addresses that have not
expired, or that `error_` says are those of the query. -/
theorem doResolve_eq_true_iff {i now : ℕ} (hi : i < s.channelCount)
    (hneeds : ((s.net i).refreshHost inetPton).refreshPort.needsQuery = true) :
    (s.doResolve inetPton i now).2 = true ↔
      ((s.net i).refreshHost inetPton).refreshPort.remoteEps ≠ [] ∧
        ((s.chan i).error = EINPROGRESS ∨
          (now : Int) - (if s.options.dnsDirty then 0 else (s.net i).querySuccessTime : ℕ) ≤
            s.options.dnsCacheTimeout) := by
  let s₁ := s.setNet i ((s.net i).refreshHost inetPton).refreshPort
  have hnet : s₁.net i = ((s.net i).refreshHost inetPton).refreshPort :=
    Function.update_self _ _ _
  have hexpired : s₁.updateDnsStatus.addressExpired i now = true ↔
      s.options.dnsCacheTimeout <
        (now : Int) - (if s.options.dnsDirty then 0 else (s.net i).querySuccessTime : ℕ) := by
    have htime := time_updateDnsStatus (s := s₁) hi
    rw [hnet, time_refresh] at htime
    unfold addressExpired
    rw [decide_eq_true_iff, timeout_updateDnsStatus, htime]
    rfl
  have hquery : ∀ t : Service,
      (if (t.net i).remoteHost ≠ [] then
          if (t.chan i).error = 0 then (t.startQuery i, false) else (t, false)
        else (t.setChan i { t.chan i with error := Errc.noAvailableAddress }, false)).2 =
        false := by
    intro t
    split
    · split <;> rfl
    · rfl
  have hchan : (s₁.updateDnsStatus.chan i).error = (s.chan i).error := by
    unfold Service.updateDnsStatus
    split <;> rfl
  unfold Service.doResolve
  dsimp only
  rw [show s.setNet i ((s.net i).refreshHost inetPton).refreshPort = s₁ from rfl, ← hnet]
  by_cases heps : (s₁.net i).remoteEps ≠ []
  · rw [if_pos heps, if_neg (by rw [hnet, hneeds]; decide), hchan]
    by_cases hasked : (s.chan i).error = EINPROGRESS
    · rw [if_pos hasked]
      exact iff_of_true rfl ⟨heps, .inl hasked⟩
    rw [if_neg hasked]
    by_cases hold : s₁.updateDnsStatus.addressExpired i now = true
    · rw [hold, if_neg (by decide), hquery]
      exact iff_of_false nofun fun h =>
        absurd (hexpired.1 hold) (Int.not_lt.2 (h.2.resolve_left hasked))
    · rw [(Bool.not_eq_true _).mp hold]
      exact iff_of_true rfl ⟨heps, .inr (Int.not_lt.1 fun h => hold (hexpired.2 h))⟩
  · rw [if_neg heps, hquery]
    exact iff_of_false nofun fun h => heps h.1

end Service

namespace Caching

variable {inetPton : Host → Option Ip} {c c' : Caching}

/-- What the ghost of the answers says about the channels. -/
structure Dated (c : Caching) : Prop where
  zeroed : ∀ i x, i < c.service.channelCount → c.cached i = some x → x.stale = true →
    c.service.options.dnsDirty = true ∨ (c.service.net i).querySuccessTime = 0
  time_le : ∀ i x, c.cached i = some x → (c.service.net i).querySuccessTime ≤ x.time
  answered : ∀ i, (c.service.net i).needsQuery = true → (c.service.net i).remoteEps ≠ [] →
    ∃ x, c.cached i = some x

theorem Dated.of_ages {s' : Service} (h : c.Dated) (hages : c.service.Ages s') :
    Dated { c with service := s' } where
  zeroed i x hi hx hstale := by
    have hi' : i < c.service.channelCount := by rwa [← hages.channelCount]
    rcases h.zeroed i x hi' hx hstale with hdirty | hzero
    · rcases hages.dirty hdirty with hkept | hall
      · exact .inl hkept
      · exact .inr (hall i hi')
    · refine .inr (Nat.le_zero.1 ?_)
      rw [← hzero]
      exact hages.time i
  time_le i x hx := Nat.le_trans (hages.time i) (h.time_le i x hx)
  answered i hneeds heps :=
    have hbefore := hages.eps i hneeds heps
    h.answered i hbefore.1 hbefore.2

/-- An answer is the last one that its channel was given. -/
theorem Dated.answer (h : c.Dated) (n : ℕ) (eps : List Endpoint) (now : ℕ) :
    Dated ⟨c.service.storeAnswer n (.ok (eps, now)), c.record (.answer n (.ok (eps, now)))⟩ := by
  -- The channel of the query, and any other.
  have hcases : ∀ j, j = (c.service.query n).channel ∧
        c.record (.answer n (.ok (eps, now))) j = some { time := now } ∧
        ((c.service.storeAnswer n (.ok (eps, now))).net j).querySuccessTime = now ∨
      c.record (.answer n (.ok (eps, now))) j = c.cached j ∧
        (c.service.storeAnswer n (.ok (eps, now))).net j = c.service.net j := by
    intro j
    by_cases hj : j = (c.service.query n).channel
    · refine .inl ⟨hj, ?_, ?_⟩
      · rw [hj]
        exact Function.update_self _ _ _
      · rw [hj]
        change (update c.service.net (c.service.query n).channel _
          (c.service.query n).channel).querySuccessTime = now
        rw [Function.update_self]
    · exact .inr ⟨Function.update_of_ne hj _ _, Function.update_of_ne hj _ _⟩
  refine ⟨fun j x hj hx hstale => ?_, fun j x hx => ?_, fun j hneeds heps => ?_⟩
  · dsimp only at hx hj ⊢
    rcases hcases j with ⟨-, hrecord, -⟩ | ⟨hrecord, hnet⟩
    · obtain rfl := Option.some.inj (hrecord.symm.trans hx)
      cases hstale
    · rw [hnet]
      exact h.zeroed j x hj (hrecord ▸ hx) hstale
  · dsimp only at hx ⊢
    rcases hcases j with ⟨-, hrecord, htime⟩ | ⟨hrecord, hnet⟩
    · obtain rfl := Option.some.inj (hrecord.symm.trans hx)
      exact Nat.le_of_eq htime
    · rw [hnet]
      exact h.time_le j x (hrecord ▸ hx)
  · dsimp only at hneeds heps ⊢
    rcases hcases j with ⟨-, hrecord, -⟩ | ⟨hrecord, hnet⟩
    · exact ⟨_, hrecord⟩
    · rw [hnet] at hneeds heps
      rw [hrecord]
      exact h.answered j hneeds heps

/-- With the flag, all that is cached is stale and the flag says so. -/
theorem Dated.setDnsDirty (h : c.Dated) :
    Dated ⟨c.service.effect inetPton .setDnsDirty, c.record .setDnsDirty⟩ where
  zeroed i x hi hx hstale := .inl rfl
  time_le i x hx := by
    obtain ⟨y, hy, rfl⟩ := Option.map_eq_some_iff.1 hx
    exact h.time_le i y hy
  answered i hneeds heps := by
    obtain ⟨x, hx⟩ := h.answered i hneeds heps
    exact ⟨{ x with stale := true }, by simp only [record, hx, Option.map_some]⟩

theorem Dated.step {a : Action} (h : c.Dated) (hstep : step inetPton a c = some c') :
    c'.Dated := by
  obtain ⟨s', hs', rfl⟩ := Option.map_eq_some_iff.1 hstep
  obtain ⟨henabled, rfl⟩ := step_eq_some.1 hs'
  cases hnames : a.renames with
  | false =>
    have hrecord : c.record a = c.cached := by
      cases a with
      | answer n result | setDnsDirty => cases hnames
      | _ => rfl
    rw [hrecord]
    exact h.of_ages (.of_chain (Service.chain_effect henabled hnames))
  | true =>
    cases a with
    | answer n result =>
      cases result with
      | ok answer => exact h.answer n answer.1 answer.2
      | error e => exact h.of_ages (.of_eq rfl rfl rfl)
    | setDnsDirty => exact h.setDnsDirty
    | setHost i host =>
      refine h.of_ages (.setNet ?_ ?_)
      · unfold Net.setHost
        split <;> exact Nat.le_refl _
      · unfold Net.setHost
        split <;> exact And.intro
    | setPort i port =>
      refine h.of_ages (.setNet ?_ ?_)
      · unfold Net.setPort
        split
        · exact Nat.le_refl _
        · split <;> exact Nat.le_refl _
      · unfold Net.setPort
        split
        · exact And.intro
        · split <;> exact And.intro
    | setLocal i host port => exact h.of_ages (.setNet (Nat.le_refl _) And.intro)
    | setMcast i flag => exact h.of_ages (.setNet (Nat.le_refl _) And.intro)
    | _ => cases hnames

/-- A stale answer has the time 0 once `update_dns_status` has run. -/
theorem Dated.time_eq_zero (h : c.Dated) {i : ℕ} {x : CachedAnswer}
    (hi : i < c.service.channelCount) (hx : c.cached i = some x) (hstale : x.stale = true) :
    (if c.service.options.dnsDirty then 0 else (c.service.net i).querySuccessTime) = 0 := by
  split
  · rfl
  · next hclear => exact (h.zeroed i x hi hx hstale).resolve_left hclear

theorem dated_fresh (channelCount : ℕ) (options : Options) (uparams : ℕ → UnpackParams) :
    (fresh channelCount options uparams).Dated :=
  ⟨nofun, nofun, fun _ hneeds => Bool.noConfusion hneeds⟩

theorem service_takeOpen (i : ℕ) :
    (c.service.takeOpen i).net = c.service.net ∧
      (c.service.takeOpen i).options = c.service.options ∧
        (c.service.takeOpen i).channelCount = c.service.channelCount := by
  unfold Service.takeOpen
  split <;> exact ⟨rfl, rfl, rfl⟩

end Caching

/-- A cached answer is dropped exactly when it is renewed or the clock lets it expire. -/
theorem drops_iff {inetPton : Host → Option Ip} {channelCount : ℕ} {options : Options}
    {uparams : ℕ → UnpackParams} {as : List Action} {c : Caching}
    (hrun : Machine.run (Caching.step inetPton) as (.fresh channelCount options uparams) = some c)
    {i now : ℕ} (hi : i < c.service.channelCount)
    (hneeds : (c.refreshed inetPton i).needsQuery = true) :
    c.Drops inetPton i now ↔ c.Renewed inetPton i now := by
  have hdated : c.Dated := by
    refine Machine.invariant_of_run ?_ (Caching.dated_fresh channelCount options uparams) hrun
    intro s a s' hs hstep
    exact hs.step hstep
  obtain ⟨hnet, hoptions, hcount⟩ := Caching.service_takeOpen (c := c) i
  have hreturns : ((c.service.takeOpen i).doResolve inetPton i now).2 = true ↔ _ :=
    Service.doResolve_eq_true_iff (by rwa [hcount]) (by rwa [hnet])
  rw [hnet, hoptions] at hreturns
  unfold Caching.Drops Caching.Renewed
  rw [hreturns]
  constructor
  · intro hdrops heps x hx
    split
    · next hasked =>
      obtain ⟨y, hy, hfresh, hage⟩ := hdrops ⟨heps, .inl hasked⟩
      obtain rfl := Option.some.inj (hx.symm.trans hy)
      exact ⟨hfresh, hage⟩
    · intro hstale
      by_contra hnow
      have htime := hdated.time_eq_zero hi hx hstale
      obtain ⟨y, hy, hfresh, -⟩ := hdrops ⟨heps, .inr (by rw [htime]; omega)⟩
      obtain rfl := Option.some.inj (hx.symm.trans hy)
      exact Bool.noConfusion (hstale.symm.trans hfresh)
  · rintro hrenewed ⟨heps, hreason⟩
    obtain ⟨hneeds', heps'⟩ := Service.eps_refresh hneeds heps
    obtain ⟨x, hx⟩ := hdated.answered i hneeds' heps'
    have hx' := hrenewed heps x hx
    split at hx'
    · exact ⟨x, hx, hx'⟩
    next hasked =>
    have hage := hreason.resolve_left hasked
    refine ⟨x, hx, ?_, fun hclear => ?_⟩
    · by_contra hstale
      have hstale' : x.stale = true := (Bool.not_eq_false _).mp hstale
      have hover := hx' hstale'
      rw [hdated.time_eq_zero hi hx hstale'] at hage
      omega
    · have hle := hdated.time_le i x hx
      rw [if_neg (by rw [hclear]; decide)] at hage
      omega

/-- Channel 0 is given an address and connects; the flag is set, and the channel is opened anew. -/
def dirtyBetween : List Action :=
  askHost ++ [.answer 0 (.ok ([.in4 1 80], 2)), .frame 3, .poll (some fun _ => {}), .transport {},
    .channel { now := 3, socket := .ok 5 }, .channel {}, .timer none, .endEvents, .setDnsDirty,
    .openKind 0 Yck.tcpClient, .openTest 0, .openMask 0, .openInsert 0]

/-- The clock starts with the machine, and the machine has not run for as long as the timeout. -/
theorem drops_dirtyBetween : ∃ c,
    Machine.run (Caching.step fun _ => none) dirtyBetween
        (.fresh 1 { noDispatch := true } fun _ => {}) = some c ∧
      (c.Drops (fun _ => none) 0 4 ↔ c.Renewed (fun _ => none) 0 4) := by
  obtain ⟨c, hrun, hi, hneeds⟩ := Machine.exists_of_any (Caching.step fun _ => none)
    dirtyBetween (.fresh 1 { noDispatch := true } fun _ => {})
    (fun c => 0 < c.service.channelCount ∧ (c.refreshed (fun _ => none) 0).needsQuery = true)
    (by decide +kernel)
  exact ⟨c, hrun, drops_iff hrun hi hneeds⟩

theorem not_drops_dirtyBetween : ¬ ∀ (options : Options) (as : List Action) (c : Caching),
    Machine.run (Caching.step fun _ => none) as (.fresh 1 options fun _ => {}) = some c →
      ∀ i now, i < c.service.channelCount →
        (c.refreshed (fun _ => none) i).needsQuery = true →
          (∀ q ∈ c.service.queries, q.channel ≠ i) → c.Drops (fun _ => none) i now := by
  intro hall
  obtain ⟨c, hrun, hi, hneeds, hidle, hreturns, hstale⟩ :=
    Machine.exists_of_any (Caching.step fun _ => none) dirtyBetween
      (.fresh 1 { noDispatch := true } fun _ => {})
      (fun c => 0 < c.service.channelCount ∧ (c.refreshed (fun _ => none) 0).needsQuery = true ∧
        c.service.queries = [] ∧
        ((c.service.takeOpen 0).doResolve (fun _ => none) 0 4).2 = true ∧
        (c.cached 0).any CachedAnswer.stale = true)
      (by decide +kernel)
  obtain ⟨x, hx, hfresh, -⟩ :=
    hall { noDispatch := true } dirtyBetween c hrun 0 4 hi hneeds (by simp [hidle]) hreturns
  rw [hx] at hstale
  exact Bool.noConfusion (hfresh.symm.trans hstale)

/-- The flag is set between the answer and the frame that takes it up: no clock helps. -/
example : (Machine.run (Caching.step fun _ => none)
      (askHost ++ [.answer 0 (.ok ([.in4 1 80], 2)), .setDnsDirty])
      (.fresh 1 { noDispatch := true } fun _ => {})).any (fun c =>
    c.service.queries.isEmpty && (c.cached 0).any CachedAnswer.stale &&
      ((c.service.takeOpen 0).doResolve (fun _ => none) 0 1000000000).2) = true := by
  decide +kernel

end Yasio
