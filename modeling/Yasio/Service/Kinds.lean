import Yasio.Service.PoolSteps

/-!
# The kinds of the transports

As long as `open` gives a channel that has a live transport no kind of another class, each
transport is closed as the kind it was built as, and the schedule of KCP counts the live KCP
transports.
-/

namespace Yasio

open Function (update)

/-- The bits of KCP and SSL are those of the class that `allocate_transport` chooses. -/
def Fits (kind : ℕ) : Prop :=
  (testbits kind Ycm.kcp = true ↔ TransportClass.ofKind kind = .kcp) ∧
    (testbits kind Ycm.ssl = true ↔ TransportClass.ofKind kind = .ssl)

instance (kind : ℕ) : Decidable (Fits kind) := inferInstanceAs (Decidable (_ ∧ _))

example : ∀ kind ∈ [Yck.tcpClient, Yck.tcpServer, Yck.udpClient, Yck.udpServer, Yck.kcpClient,
    Yck.kcpServer, Yck.sslClient, Yck.sslServer], Fits kind := by decide

theorem testbits_tcp (kind : ℕ) :
    testbits kind Ycm.tcp = !(TransportClass.ofKind kind).isUdp := by
  unfold TransportClass.ofKind
  split
  · next h =>
    rw [h]
    split <;> rfl
  · next h =>
    rw [(Bool.not_eq_true _).mp h]
    split <;> rfl

/-- Two kinds of one class have the same bits for `allocate_transport`. -/
theorem Fits.testbits_eq {kind kind' : ℕ} (h : Fits kind) (h' : Fits kind')
    (hcls : TransportClass.ofKind kind = .ofKind kind') :
    testbits kind Ycm.tcp = testbits kind' Ycm.tcp ∧
      testbits kind Ycm.kcp = testbits kind' Ycm.kcp ∧
        testbits kind Ycm.ssl = testbits kind' Ycm.ssl := by
  refine ⟨?_, ?_, ?_⟩
  · rw [testbits_tcp, testbits_tcp, hcls]
  · rw [Bool.eq_iff_iff, h.1, h'.1, hcls]
  · rw [Bool.eq_iff_iff, h.2, h'.2, hcls]

namespace Pool

/-- The live transports have the class of their channel's kind, and the schedule counts those of
KCP. -/
structure Kinds (kind : ℕ → ℕ) (p : Pool) : Prop where
  cls : ∀ b ∈ p.transports, (p.built b).cls = .ofKind (kind (p.built b).ctx)
  built : ∀ b ∈ p.transports, (p.built b).cls = .ofKind (p.built b).kind ∧ Fits (p.built b).kind
  nsched : p.nsched = p.transports.countP fun b => (p.built b).cls = .kcp
  freq : ∀ b ∈ p.transports, (p.built b).cls = .kcp → p.schedFreq ≤ (p.built b).interval
  idle : p.nsched = 0 → p.schedFreq = maxWaitUsec

variable {kind : ℕ → ℕ} {p : Pool}

theorem Kinds.connect (h : p.Kinds kind) (hp : p.Sound) (hfits : ∀ i, Fits (kind i))
    {built : Built} (hkind : built.kind = kind built.ctx) (hcls : built.cls = .ofKind built.kind) :
    (p.connect built).Kinds kind := by
  have hold : ∀ b ∈ p.transports, (p.connect built).built b = p.built b := fun b hb =>
    built_connect_of_ne built (hp.ne_freshBlock hb)
  have hnew := p.built_connect_freshBlock built
  have hkcp : testbits built.kind Ycm.kcp = true ↔ built.cls = .kcp := by
    rw [hcls]
    exact (hkind ▸ hfits built.ctx).1
  have hmem : ∀ b ∈ (p.connect built).transports, b ∈ p.transports ∨ b = p.freshBlock := by
    intro b hb
    simpa using hb
  -- One KCP transport more, when the new one is one.
  have hcount : (p.connect built).transports.countP
      (fun b => ((p.connect built).built b).cls = .kcp) =
        p.transports.countP (fun b => (p.built b).cls = .kcp) +
          if built.cls = .kcp then 1 else 0 := by
    rw [transports_connect, List.countP_append, List.countP_singleton, hnew]
    congr 1
    · apply List.countP_congr
      intro b hb
      rw [hold b hb]
    · simp
  have hsched : (p.connect built).nsched =
      if testbits built.kind Ycm.kcp then p.nsched + 1 else p.nsched := rfl
  have hfreq : (p.connect built).schedFreq =
      if testbits built.kind Ycm.kcp then
        min p.schedFreq ((p.connect built).built p.freshBlock).interval
      else p.schedFreq := rfl
  rw [hnew] at hfreq
  refine ⟨?_, ?_, ?_, ?_, ?_⟩
  · intro b hb
    rcases hmem b hb with hb | rfl
    · rw [hold b hb]
      exact h.cls b hb
    · rw [hnew, ← hkind]
      exact hcls
  · intro b hb
    rcases hmem b hb with hb | rfl
    · rw [hold b hb]
      exact h.built b hb
    · rw [hnew]
      exact ⟨hcls, hkind ▸ hfits built.ctx⟩
  · rw [hsched, hcount, h.nsched]
    simp only [hkcp]
    split <;> simp
  · intro b hb hb'
    rcases hmem b hb with hb | rfl
    · rw [hold b hb] at hb' ⊢
      refine le_trans ?_ (h.freq b hb hb')
      rw [hfreq]
      split
      · exact min_le_left _ _
      · exact le_rfl
    · rw [hnew] at hb' ⊢
      rw [hfreq, if_pos (hkcp.2 hb')]
      exact min_le_right _ _
  · intro hzero
    -- The count cannot come back to zero through an increment.
    rw [hsched] at hzero
    rw [hfreq]
    split at hzero
    · have hnonneg : 0 ≤ p.nsched := by
        rw [h.nsched]
        exact Int.natCast_nonneg _
      omega
    · next hbit =>
      rw [if_neg hbit]
      exact h.idle hzero

theorem Kinds.release (h : p.Kinds kind) (hfits : ∀ i, Fits (kind i)) {n : ℕ}
    {b : Block} (hb : p.transports[n]? = some b) (remote : Endpoint) :
    (p.release n b (kind (p.built b).ctx) remote).Kinds kind := by
  obtain ⟨hn, hget⟩ := List.getElem?_eq_some_iff.1 hb
  have hmem : ∀ b' ∈ p.transports.eraseIdx n, b' ∈ p.transports := fun b' =>
    fun hb' => (List.eraseIdx_sublist _ _).subset hb'
  have hkcp : testbits (kind (p.built b).ctx) Ycm.kcp = true ↔ (p.built b).cls = .kcp := by
    rw [h.cls b (hget ▸ List.getElem_mem hn)]
    exact (hfits _).1
  have hcount : p.transports.countP (fun b => (p.built b).cls = .kcp) =
      (p.transports.eraseIdx n).countP (fun b => (p.built b).cls = .kcp) +
        if (p.built b).cls = .kcp then 1 else 0 := by
    rw [← (List.getElem_cons_eraseIdx_perm hn).countP_eq, List.countP_cons, hget]
    simp
  have hsched : (p.release n b (kind (p.built b).ctx) remote).nsched =
      if testbits (kind (p.built b).ctx) Ycm.kcp then p.nsched - 1 else p.nsched := rfl
  have hfreq : (p.release n b (kind (p.built b).ctx) remote).schedFreq =
      if testbits (kind (p.built b).ctx) Ycm.kcp && p.nsched - 1 ≤ 0 then maxWaitUsec
      else p.schedFreq := rfl
  have hnsched : (p.release n b (kind (p.built b).ctx) remote).nsched =
      (p.transports.eraseIdx n).countP (fun b => (p.built b).cls = .kcp) := by
    rw [hsched, h.nsched, hcount]
    simp only [hkcp]
    split <;> simp
  refine ⟨?_, ?_, hnsched, ?_, ?_⟩
  · exact fun b' hb' => h.cls b' (hmem b' hb')
  · exact fun b' hb' => h.built b' (hmem b' hb')
  · intro b' hb' hcls
    have hpos : 0 < (p.transports.eraseIdx n).countP (fun b => (p.built b).cls = .kcp) :=
      List.countP_pos_iff.2 ⟨b', hb', decide_eq_true hcls⟩
    refine le_trans (le_of_eq ?_) (h.freq b' (hmem b' hb') hcls)
    rw [hfreq, if_neg]
    rw [hsched] at hnsched
    intro hlast
    simp only [Bool.and_eq_true, decide_eq_true_eq] at hlast
    rw [if_pos hlast.1] at hnsched
    omega
  · intro hzero
    rw [hsched] at hzero
    rw [hfreq]
    split at hzero
    · next hbit => rw [if_pos (by simp [hbit, hzero])]
    · next hbit => rw [if_neg (by simp [hbit]), h.idle hzero]

/-- A pool without live transports can be cleared. -/
theorem Kinds.clear (h : p.Kinds kind) (hnil : p.transports = []) : p.clear.Kinds kind := by
  have hnsched : p.nsched = 0 := by simpa [hnil] using h.nsched
  refine ⟨nofun, nofun, ?_, nofun, h.idle⟩
  exact hnsched

theorem Kinds.step (h : p.Kinds kind) (hp : p.Sound) (hfits : ∀ i, Fits (kind i)) {p' : Pool}
    (hstep : PoolStep kind p p') : p'.Kinds kind := by
  cases hstep with
  | keep => exact h
  | connect built hkind hcls => exact h.connect hp hfits hkind hcls
  | register built hkind hcls peer hfind hclient =>
    have hconnect := h.connect hp hfits hkind hcls
    exact ⟨hconnect.cls, hconnect.built, hconnect.nsched, hconnect.freq, hconnect.idle⟩
  | release n b hb remote => exact h.release hfits hb remote
  | clear hnil => exact h.clear hnil

/-- A channel without live transports of another class can get a new kind. -/
theorem Kinds.setKind (h : p.Kinds kind) {i kind' : ℕ}
    (hcls : ∀ b ∈ p.transports, (p.built b).ctx = i → (p.built b).cls = .ofKind kind') :
    p.Kinds (update kind i kind') := by
  refine ⟨?_, h.built, h.nsched, h.freq, h.idle⟩
  intro b hb
  by_cases hi : (p.built b).ctx = i
  · rw [hi, Function.update_self]
    exact hcls b hb hi
  · rw [Function.update_of_ne hi]
    exact h.cls b hb

end Pool

/-- `open` writes a kind that fits, of the class of the channel's live transports. -/
def KindKept (s : Service) : Action → Prop
  | .openKind i kind =>
    Fits kind ∧ ∀ b ∈ s.transports, (s.built b).ctx = i → (s.built b).cls = .ofKind kind
  | _ => True

instance (s : Service) (a : Action) : Decidable (KindKept s a) := by
  unfold KindKept
  induction a using Action.casesOn <;> infer_instance

/-- The invariant: kinds that fit, and transports of the class of their channel's kind. -/
structure Service.Kinds (s : Service) : Prop extends s.Orderly where
  fits : ∀ i, Fits (s.kind i)
  pool : s.toPool.Kinds s.kind

theorem Service.Kinds.effect {inetPton : Host → Option Ip} {s : Service} (h : s.Kinds)
    {a : Action} (henabled : s.enabled a = true) (hcond : KindKept s a) :
    (s.effect inetPton a).Kinds := by
  have hstep : PoolStep s.kind s.toPool (s.effect inetPton a).toPool :=
    poolStep_effect h.exited henabled
  have hpool := h.pool.step h.sound h.fits hstep
  have hkind := s.kind_effect inetPton a
  refine ⟨h.toOrderly.effect henabled, ?_, ?_⟩
  · cases a with
    | openKind i kind =>
      intro j
      change Fits (update s.kind i kind j)
      by_cases hj : j = i
      · rw [hj, Function.update_self]
        exact hcond.1
      · rw [Function.update_of_ne hj]
        exact h.fits j
    | _ => exact hkind ▸ h.fits
  · cases a with
    | openKind i kind => exact h.pool.setKind hcond.2
    | _ => exact hkind ▸ hpool

/-- Every transport is closed as the kind it was built as, and the schedule of KCP counts the live
KCP transports and is as short as the shortest of their intervals. -/
theorem kinds_of_run {inetPton : Host → Option Ip} {channelCount : ℕ} {options : Options}
    {uparams : ℕ → UnpackParams} {as : List Action} {s : Service}
    (hrun : Machine.run (step inetPton) as (.fresh channelCount options uparams) = some s)
    (hcond : Machine.Meets (step inetPton) KindKept as (.fresh channelCount options uparams)) :
    (∀ b ∈ s.transports,
      (testbits (s.kind (s.built b).ctx) Ycm.tcp = testbits (s.built b).kind Ycm.tcp ∧
        testbits (s.kind (s.built b).ctx) Ycm.kcp = testbits (s.built b).kind Ycm.kcp ∧
        testbits (s.kind (s.built b).ctx) Ycm.ssl = testbits (s.built b).kind Ycm.ssl) ∧
      (testbits (s.kind (s.built b).ctx) Ycm.ssl = true ↔ (s.built b).cls = .ssl) ∧
      (testbits (s.kind (s.built b).ctx) Ycm.kcp = true ↔ (s.built b).cls = .kcp)) ∧
    s.nsched = s.transports.countP (fun b => (s.built b).cls = .kcp) ∧
    (0 < s.nsched →
      ∀ b ∈ s.transports, (s.built b).cls = .kcp → s.schedFreq ≤ (s.built b).interval) ∧
    (s.nsched = 0 → s.schedFreq = maxWaitUsec) := by
  have h : s.Kinds := by
    refine Machine.invariant_of_meets (I := Service.Kinds) ?_ ?_ hcond hrun
    · intro s a s' hs hcond hstep
      obtain ⟨henabled, rfl⟩ := step_eq_some.1 hstep
      exact hs.effect henabled hcond
    · refine ⟨Service.orderly_fresh _ _ _, fun _ => ?_, ⟨nofun, nofun, rfl, nofun, fun _ => rfl⟩⟩
      change Fits 0
      decide
  refine ⟨fun b hb => ?_, h.pool.nsched, fun _ => h.pool.freq, h.pool.idle⟩
  have hcls := h.pool.cls b hb
  obtain ⟨hbuilt, hfits⟩ := h.pool.built b hb
  refine ⟨(h.fits _).testbits_eq hfits (hcls.symm.trans hbuilt), ?_, ?_⟩
  · rw [hcls]
    exact (h.fits _).2
  · rw [hcls]
    exact (h.fits _).1

/-- Channel 0 is opened with this kind and connects. -/
def connectClient (kind : ℕ) : List Action :=
  [.start, .setHost 0 ['a'], .setPort 0 80, .openKind 0 kind, .openTest 0, .openMask 0,
    .openInsert 0, .frame 1, .poll (some fun _ => {}), .transport {},
    .channel { socket := .ok 5 }, .channel {}, .timer none, .endEvents]

theorem kinds_of_run_kcpClient :
    ∃ s, Machine.run (step fun _ => some (.v4 1)) (connectClient Yck.kcpClient)
        (.fresh 1 { noDispatch := true } fun _ => {}) = some s ∧
      s.transports = [0] ∧ s.nsched = s.transports.countP fun b => (s.built b).cls = .kcp := by
  obtain ⟨s, hrun, hlive⟩ := Machine.exists_of_any (step fun _ => some (.v4 1))
    (connectClient Yck.kcpClient) (.fresh 1 { noDispatch := true } fun _ => {})
    (fun s => s.transports = [0]) (by decide +kernel)
  exact ⟨s, hrun, hlive, (kinds_of_run hrun (by decide +kernel)).2.1⟩

/-- A TCP client is opened again as a KCP client: its transport is closed as one of KCP, and the
count of the live KCP transports falls below zero. -/
theorem nsched_reopen_as_kcp :
    ∃ s, Machine.run (step fun _ => some (.v4 1))
        (connectClient Yck.tcpClient ++
          [.openKind 0 Yck.kcpClient, .openTest 0, .openMask 0, .openInsert 0, .frame 2,
            .poll (some fun _ => {}), .transport {}])
        (.fresh 1 { noDispatch := true } fun _ => {}) = some s ∧
      s.transports = [] ∧ s.nsched = -1 :=
  Machine.exists_of_any _ _ _ _ (by decide +kernel)

end Yasio
