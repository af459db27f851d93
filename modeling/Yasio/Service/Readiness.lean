import Yasio.Service.SocketMoves

/-!
# Whose readiness it is

The array that the last poll filled names descriptors.  An answer of `is_ready` is about the socket
that it is asked for when a poll has come after the registration of this socket.
-/

namespace Yasio

open Function (update)

namespace Sockets

variable {t t' : Sockets} {k : SockId} {K : SockId → Prop}

/-- Whether `k` was registered before the last poll. -/
def polled (t : Sockets) (k : SockId) : Bool := (t.regAt k).any fun r => r < t.npoll

/-- The last results have a ready entry for the descriptor of `k` that no poll since the
registration of `k` put there. -/
def stale (t : Sockets) (k : SockId) : Bool := (t.sock k).any t.watcher.reports && !t.polled k

theorem polled_iff : t.polled k = true ↔ ∃ r, t.regAt k = some r ∧ r < t.npoll := by
  unfold polled
  simp [Option.any_eq_true]

theorem stale_congr {u : Sockets} (hsock : u.sock k = t.sock k) (hpolled : u.polled k = t.polled k)
    (hrevents : u.watcher.revents = t.watcher.revents) : u.stale k = t.stale k := by
  have hreports : u.watcher.reports = t.watcher.reports := by
    funext fd
    unfold PollWatcher.reports PollWatcher.isReady
    rw [hrevents]
  unfold stale
  rw [hsock, hpolled, hreports]

theorem stale_of_none (h : t.sock k = none) : t.stale k = false := by
  simp [stale, h]

/-- An answer for a socket that is not stale comes from a poll after its registration. -/
theorem registered_of_ready {events : Ready} (hstale : t.stale k = false)
    (hready : t.ready k events = true) : ∃ r, t.regAt k = some r ∧ r < t.npoll := by
  unfold ready at hready
  unfold stale at hstale
  cases hk : t.sock k with
  | none =>
    rw [hk] at hready
    cases hready
  | some fd =>
    rw [hk] at hready hstale
    have hreports := PollWatcher.reports_of_isReady hready
    apply polled_iff.1
    simpa [hreports] using hstale

/-- No socket is stale after a poll. -/
theorem Sound.stale_poll (h : t.Sound) (answer : Option (Fd → Ready)) (k : SockId) :
    ({ t with watcher := t.watcher.pollIo answer, npoll := t.npoll + 1 } : Sockets).stale k =
      false := by
  cases hk : t.sock k with
  | none => exact stale_of_none hk
  | some fd =>
    cases hreports : (t.watcher.pollIo answer).reports fd with
    | false => simp [stale, hk, hreports]
    | true =>
      obtain ⟨e, he, hkey⟩ := PollWatcher.exists_mem_of_reports hreports
      obtain ⟨k', hk', hreg⟩ := h.watched e he
      obtain rfl := h.fds k' k fd (hkey ▸ hk') hk
      obtain ⟨r, hr⟩ := Option.ne_none_iff_exists'.1 hreg
      have hpolled : ({ t with watcher := t.watcher.pollIo answer, npoll := t.npoll + 1 } :
          Sockets).polled k' = true :=
        polled_iff.2 ⟨r, hr, Nat.lt_succ_of_le (h.registered k' r hr)⟩
      unfold stale
      rw [hpolled]
      exact Bool.and_false _

/-- A registration that comes now is not before the last poll. -/
theorem polled_modEvent (t : Sockets) (k : SockId) (add remove : Interest) (k' : SockId) :
    (t.modEvent k add remove).polled k' = t.polled k' := by
  have hpoll : (t.modEvent k add remove).npoll = t.npoll := rfl
  have hreg : (t.modEvent k add remove).regAt k' =
      (if add = .none then t.regAt else update t.regAt k ((t.regAt k).getD t.npoll)) k' := rfl
  unfold polled
  rw [hpoll, hreg]
  split
  · rfl
  · by_cases hk : k' = k
    · subst hk
      rw [Function.update_self]
      cases t.regAt k' with
      | none => simp
      | some r => rfl
    · rw [Function.update_of_ne hk]

/-- A socket becomes stale only by being opened. -/
theorem Move.stale (h : Move K t t') (k : SockId) :
    t.gen k ≤ t'.gen k ∧ (t'.gen k = t.gen k → t'.stale k = true → t.stale k = true) := by
  have hrevents := h.frame.2.2
  have hopens : ∀ k', t.gen k ≤ update t.gen k' (t.gen k' + 1) k ∧
      (update t.gen k' (t.gen k' + 1) k = t.gen k → k ≠ k') := by
    intro k'
    by_cases hk : k = k'
    · subst hk
      rw [Function.update_self]
      exact ⟨Nat.le_succ _, fun heq => absurd heq (Nat.succ_ne_self _)⟩
    · rw [Function.update_of_ne hk]
      exact ⟨Nat.le_refl _, fun _ => hk⟩
  cases h with
  | tune k' hk' hopen add remove =>
    refine ⟨Nat.le_refl _, fun _ hstale => ?_⟩
    have hsame : (t.modEvent k' add remove).stale k = t.stale k :=
      stale_congr (t := t) rfl (t.polled_modEvent k' add remove k) hrevents
    exact hsame.symm.trans hstale
  | close k' hk' =>
    refine ⟨Nat.le_refl _, fun _ hstale => ?_⟩
    by_cases hk : k = k'
    · subst hk
      rw [stale_of_none (show (t.closeSock k).sock k = none from Function.update_self _ _ _)]
        at hstale
      cases hstale
    · have hpolled : (t.closeSock k').polled k = t.polled k := by
        unfold polled
        rw [show (t.closeSock k').regAt k = t.regAt k from Function.update_of_ne hk _ _]
        rfl
      rw [← stale_congr (Function.update_of_ne hk _ _) hpolled hrevents]
      exact hstale
  | opens k' hk' hlt hclosed fd hfd =>
    refine ⟨(hopens k').1, fun hgen hstale => ?_⟩
    have hk := (hopens k').2 hgen
    rw [← stale_congr (u := t.openSock k' fd) (Function.update_of_ne hk _ _) rfl hrevents]
    exact hstale
  | new fd hfd peer =>
    refine ⟨(hopens t.nextSock).1, fun hgen hstale => ?_⟩
    have hk := (hopens t.nextSock).2 hgen
    rw [← stale_congr (u := t.newSock fd peer) (Function.update_of_ne hk _ _) rfl hrevents]
    exact hstale
  | peers sockPeer => exact ⟨Nat.le_refl _, fun _ => id⟩

theorem Moves.stale (h : Moves K t t') (k : SockId) :
    t.gen k ≤ t'.gen k ∧ (t'.gen k = t.gen k → t'.stale k = true → t.stale k = true) := by
  induction h with
  | refl => exact ⟨Nat.le_refl _, fun _ => id⟩
  | tail _ hmove ih =>
    obtain ⟨hle, hstale⟩ := hmove.stale k
    refine ⟨ih.1.trans hle, fun hgen hs => ?_⟩
    have hsame := Nat.le_antisymm (hle.trans hgen.le) ih.1
    exact ih.2 hsame (hstale (hgen.trans hsame.symm) hs)

theorem Moves.stale_eq (h : Moves K t t') (ht : t.Sound) (hk : ¬ K k) (hlt : k < t.nextSock) :
    t'.stale k = t.stale k := by
  have hspares := Moves.spares h ht hk hlt
  obtain ⟨-, hpoll, hrevents⟩ := Moves.frame h
  have hpolled : t'.polled k = t.polled k := by
    unfold polled
    rw [hspares.regAt, hpoll]
  exact stale_congr hspares.sock hpolled hrevents

end Sockets

open Sockets

namespace Service

variable {s t : Service} {i : ℕ} {inetPton : Host → Option Ip}

/-- The sockets that may still be asked in this frame are not stale. -/
def Timely (s : Service) : Prop :=
  match s.phase with
  | .transports _ => ∀ k, s.stale k = false
  | .channels m => ∀ i ∈ s.channelOps.drop m, s.stale i = false
  | _ => True

/-- The invariant of the answers of `is_ready`. -/
structure Polled (s : Service) : Prop extends s.Placed where
  asked : ∀ x ∈ s.asked, ∃ r, x.registered = some r ∧ r < x.poll
  timely : s.Timely

theorem timely_of_ne (ht : ∀ m, s.phase ≠ .transports m) (hc : ∀ m, s.phase ≠ .channels m) :
    s.Timely := by
  unfold Timely
  split
  · next m hphase => exact absurd hphase (ht m)
  · next m hphase => exact absurd hphase (hc m)
  · trivial

theorem timely_of_transports {m : ℕ} (hphase : s.phase = .transports m)
    (h : ∀ k, s.stale k = false) : s.Timely := by
  unfold Timely
  rw [hphase]
  exact h

theorem timely_of_channels {m : ℕ} (hphase : s.phase = .channels m)
    (h : ∀ i ∈ s.channelOps.drop m, s.stale i = false) : s.Timely := by
  unfold Timely
  rw [hphase]
  exact h

theorem Timely.transports {m : ℕ} (h : s.Timely) (hphase : s.phase = .transports m) :
    ∀ k, s.stale k = false := by
  unfold Timely at h
  rwa [hphase] at h

theorem Timely.channels {m : ℕ} (h : s.Timely) (hphase : s.phase = .channels m) :
    ∀ i ∈ s.channelOps.drop m, s.stale i = false := by
  unfold Timely at h
  rwa [hphase] at h

/-- The record of an answer for a socket that is not stale. -/
theorem asked_ask (h : ∀ x ∈ s.asked, ∃ r, x.registered = some r ∧ r < x.poll) {k : SockId}
    (hstale : s.stale k = false) (events : Ready) :
    ∀ x ∈ (s.ask k events).asked, ∃ r, x.registered = some r ∧ r < x.poll := by
  intro x hx
  unfold ask at hx
  dsimp only at hx
  split at hx
  · next hready =>
    rcases List.mem_append.1 hx with hx | hx
    · exact h x hx
    · rw [List.mem_singleton.1 hx]
      exact registered_of_ready hstale hready
  · exact h x hx

theorem asked_beforeRead (s : Service) (b : Block) (a : TransportAnswers) :
    (s.beforeRead b a).asked =
      (s.ask (s.built b).sock { read := true, error := true }).asked := by
  unfold beforeRead
  dsimp only
  split
  · cases a.handshake <;> rfl
  · unfold receiveFrom
    dsimp only
    split <;> rfl

theorem asked_visitTransport (s : Service) (n : ℕ) (b : Block) (a : TransportAnswers) :
    (s.visitTransport n b a).asked = s.asked ∨
      (s.visitTransport n b a).asked =
        (s.ask (s.built b).sock { read := true, error := true }).asked := by
  obtain ⟨s', hs', hend⟩ := s.exists_turnEnd (b := b) n a
  have hask : s'.asked = s.asked ∨
      s'.asked = (s.ask (s.built b).sock { read := true, error := true }).asked := by
    rw [hs'.asked]
    unfold atRead
    split
    · exact .inl rfl
    · exact .inr (s.asked_beforeRead b a)
  generalize s.visitTransport n b a = t at hend
  cases hend with
  | thrown | kept hasked => exact hask
  | dropped =>
    obtain ⟨chan, io, sockets, heq, -⟩ := s'.exists_dropTransport n b a.tail
    rw [heq]
    exact hask

theorem Polled.visitTransport (h : s.Polled) {n : ℕ} (hphase : s.phase = .transports n)
    {b : Block} (a : TransportAnswers) (hplaced : (s.visitTransport n b a).Placed) :
    (s.visitTransport n b a).Polled := by
  have hnone := h.timely.transports hphase
  refine ⟨hplaced, ?_, ?_⟩
  · rcases s.asked_visitTransport n b a with hasked | hasked
    · rw [hasked]
      exact h.asked
    · rw [hasked]
      exact asked_ask h.asked (hnone _) _
  · have hstale : ∀ k, (s.visitTransport n b a).stale k = false := by
      intro k
      have hgen := congrFun (s.gen_visitTransport n b a) k
      cases hs : (s.visitTransport n b a).stale k with
      | false => rfl
      | true =>
        have hold := (Moves.stale (s.moves_visitTransport n b a) k).2 hgen hs
        exact hold.symm.trans (hnone k)
    rcases s.phase_visitTransport n b a with hp | hp | hp
    · exact timely_of_ne (fun m hm => by cases hp.symm.trans hm)
        (fun m hm => by cases hp.symm.trans hm)
    · exact timely_of_transports hp hstale
    · exact timely_of_transports (hp.trans hphase) hstale

theorem asked_establish (s : Service) (i : ℕ) (k : SockId) (interval : ℕ) (ok : Bool) :
    (s.establish i k interval ok).asked = s.asked := by
  have h := (connected_establish (s := s) (i := i) k interval ok).history
  rw [show (s.establish i k interval ok).asked = (s.establish i k interval ok).toHistory.asked
    from rfl, h]

theorem asked_clientTurn {a : ChannelAnswers} (h : ClientTurn i a s t) :
    t.asked = s.asked ∨ t.asked = (s.ask i connectReady).asked := by
  have hres : ∀ {s₁ : Service}, Resolves i s s₁ → s₁.asked = s.asked := by
    rintro s₁ ⟨net, queries, options, error, rfl⟩
    rfl
  have hunbound : ∀ {s₁ : Service}, Resolves i s s₁ → (s₁.unbound i).asked = s.asked := by
    intro s₁ h
    rw [← hres h]
    unfold unbound
    dsimp only
    split <;> rfl
  cases h with
  | idle hstate | pending hstate hready => exact .inl rfl
  | waits hstate h herror => exact .inl (hres h)
  | unresolved hstate h error =>
    left
    rw [← hres h]
    rfl
  | noSocket hstate h error | refused hstate h fd hfd error | starts hstate h fd hfd =>
    left
    rw [← hunbound h]
    rfl
  | @connects hstate s₁ h fd hfd =>
    left
    rw [asked_establish (((s₁.unbound i).attempted i fd).modEvent i { read := true } .none)]
    exact hunbound h
  | completes hstate hready =>
    right
    obtain ⟨timers, heq⟩ := (((s.ask i connectReady).modEvent i .none { write := true }).establish
      i i a.interval a.dgramConnect).exists_cancelTimer (.connect i)
    rw [heq]
    exact asked_establish ((s.ask i connectReady).modEvent i .none { write := true }) i i
      a.interval a.dgramConnect
  | fails hstate hready error =>
    right
    obtain ⟨timers, heq⟩ :=
      ((s.ask i connectReady).handleConnectFailed i error).exists_cancelTimer (.connect i)
    rw [heq]
    rfl

theorem asked_serverTurn {a : ChannelAnswers} (h : ServerTurn i a s t) :
    t.asked = s.asked ∨ t.asked = (s.ask i { read := true }).asked := by
  have hinput : ∀ (u : Service) (b : Block),
      (u.handleInput b a.datagram.data a.input).asked = u.asked := by
    intro u b
    have h := (received_handleInput (i := i) (s := u) b a.datagram.data a.input).history
    rw [show (u.handleInput b a.datagram.data a.input).asked =
      (u.handleInput b a.datagram.data a.input).toHistory.asked from rfl, h]
  cases h with
  | closed hstate | unready hready => exact .inl rfl
  | nothing hready | lost hready => exact .inr rfl
  | accepts hready fd hfd => exact .inr (asked_establish _ i s.nextSock _ _)
  | datagram hready b hfind => exact .inr (hinput _ b)
  | newPeer hready hfind fd hfd =>
    right
    rw [hinput]
    have h := (connected_acceptPeer (i := i) (s := s.ask i { read := true }) a.peer fd a).history
    rw [show (((s.ask i { read := true }).acceptPeer i a.peer fd a).deliver i a.peer
      s.freshBlock).asked = ((s.ask i { read := true }).acceptPeer i a.peer fd a).toHistory.asked
        from rfl, h]

/-- A frame that does not poll finds no stale socket, and a server channel is not opened on a
descriptor that the last results report. -/
def ReportsKept (s : Service) : Action → Prop
  | .frame now => s.getTimeout now ≤ 0 → ∀ k < s.nextSock, s.stale k = false
  | .channel a => ∀ i ∈ s.channelTurn, testbits (s.kind i) Ycm.client = false →
      (s.chan i).opOpen = true → ∀ fd ∈ a.socket.toOption, s.watcher.reports fd = false
  | _ => True

instance (s : Service) (a : Action) : Decidable (s.ReportsKept a) := by
  unfold ReportsKept
  induction a using Action.casesOn <;> infer_instance

/-- The masks of a server channel leave its socket, close it or open it on a new descriptor. -/
theorem stale_maskTurn {a : ChannelAnswers} (h : MaskTurn i a s t) (hstale : s.stale i = false)
    (hfd : (s.chan i).opOpen = true → ∀ fd ∈ a.socket.toOption, s.watcher.reports fd = false) :
    t.asked = s.asked ∧ t.stale i = false := by
  have hclosed : (s.cleanupChannel i).sock i = none := Function.update_self _ _ _
  cases h with
  | none hopen hclose => exact ⟨rfl, hstale⟩
  | closes hopen | noSocket hopen => exact ⟨rfl, stale_of_none hclosed⟩
  | unbound hopen fd hfree => exact ⟨rfl, stale_of_none (Function.update_self _ _ _)⟩
  | listens hopen fd hsocket hfree =>
    refine ⟨rfl, ?_⟩
    let u := ((s.cleanupChannel i).openSock i fd).setChan i
      { (s.cleanupChannel i).chan i with state := .opened }
    have hsock : (u.modEvent i { read := true } .none).sock i = some fd :=
      Function.update_self _ _ _
    have hopened : u.sock i ≠ Option.none := by
      rw [show u.sock i = some fd from Function.update_self _ _ _]
      exact nofun
    have hmove : Move (· = i) u.toSockets (u.modEvent i { read := true } .none).toSockets :=
      Move.tune (K := (· = i)) i rfl hopened _ _
    have hclose : Move (· = i) s.toSockets (s.toSockets.closeSock i) :=
      Move.close (K := (· = i)) i rfl
    have hrevents : (u.modEvent i { read := true } .none).watcher.revents = s.watcher.revents :=
      hmove.frame.2.2.trans hclose.frame.2.2
    have hreports : (u.modEvent i { read := true } .none).watcher.reports fd =
        s.watcher.reports fd := by
      unfold PollWatcher.reports PollWatcher.isReady
      rw [hrevents]
    unfold Sockets.stale
    change (((u.modEvent i { read := true } .none).sock i).any
      (u.modEvent i { read := true } .none).watcher.reports && _) = false
    rw [hsock, Option.any_some, hreports, hfd hopen fd (by rw [hsocket]; rfl)]
    rfl

theorem Polled.stale_channelTurn (h : s.Polled) (hi : i ∈ s.channelTurn) : s.stale i = false := by
  unfold channelTurn at hi
  split at hi
  · next n hn =>
    exact h.timely.channels hn _ (mem_drop_channelOps hi)
  · cases hi

theorem Polled.asked_visitChannel (h : s.Polled) {n : ℕ} (hphase : s.phase = .channels n)
    (hi : s.channelOps[n]? = some i) (a : ChannelAnswers)
    (hcond : testbits (s.kind i) Ycm.client = false → (s.chan i).opOpen = true →
      ∀ fd ∈ a.socket.toOption, s.watcher.reports fd = false) :
    ∀ x ∈ (s.visitChannel inetPton n i a).asked, ∃ r, x.registered = some r ∧ r < x.poll := by
  have hstale : s.stale i = false := h.stale_channelTurn (mem_channelTurn hphase hi)
  cases hclient : testbits (s.kind i) Ycm.client with
  | true =>
    obtain ⟨t, hturn, ht⟩ := exists_clientTurn inetPton n a hclient
    have htake : (s.takeOpen i).toSockets = s.toSockets ∧ (s.takeOpen i).asked = s.asked := by
      unfold Service.takeOpen
      split <;> exact ⟨rfl, rfl⟩
    have hasked : ∀ x ∈ t.asked, ∃ r, x.registered = some r ∧ r < x.poll := by
      rcases asked_clientTurn hturn with heq | heq
      · rw [heq, htake.2]
        exact h.asked
      · rw [heq]
        apply asked_ask
        · rw [htake.2]
          exact h.asked
        · rw [htake.1]
          exact hstale
    rcases ht with ⟨-, ht⟩ | ⟨-, ht⟩
    · rw [ht]
      exact hasked
    · rw [ht]
      exact hasked
  | false =>
    obtain ⟨t, hturn, ht⟩ := exists_serverTurn inetPton n a hclient
    have hasked : ∀ x ∈ t.asked, ∃ r, x.registered = some r ∧ r < x.poll := by
      rcases hturn with rfl | ⟨s₁, hmask, hserver⟩
      · exact h.asked
      · obtain ⟨hasked, hstale'⟩ := stale_maskTurn hmask hstale (hcond hclient)
        rcases asked_serverTurn hserver with heq | heq
        · rw [heq, hasked]
          exact h.asked
        · rw [heq]
          apply asked_ask
          · rw [hasked]
            exact h.asked
          · exact hstale'
    rcases ht with ht | ht
    · rw [ht]
      exact hasked
    · rw [ht]
      exact hasked

theorem Polled.visitChannel (h : s.Polled) {n : ℕ} (hphase : s.phase = .channels n)
    (hi : s.channelOps[n]? = some i) (a : ChannelAnswers)
    (hcond : testbits (s.kind i) Ycm.client = false → (s.chan i).opOpen = true →
      ∀ fd ∈ a.socket.toOption, s.watcher.reports fd = false)
    (hplaced : (s.visitChannel inetPton n i a).Placed) :
    (s.visitChannel inetPton n i a).Polled := by
  refine ⟨hplaced, h.asked_visitChannel hphase hi a hcond, ?_⟩
  have hlt : ∀ j ∈ s.channelOps, j < s.nextSock := fun j hj => (h.ops j hj).trans_le h.count
  obtain ⟨hn, hget⟩ := List.getElem?_eq_some_iff.1 hi
  have hmoves := moves_visitChannel inetPton (hlt i (List.mem_of_getElem? hi)) n a
  have hnext : ∀ j ∈ s.channelOps.drop (n + 1),
      (s.visitChannel inetPton n i a).stale j = false := by
    intro j hj
    have hji : j ≠ i := by
      rintro rfl
      have hnodup := h.opsNodup.sublist (List.drop_sublist n _)
      rw [← List.getElem_cons_drop hn, hget] at hnodup
      exact (List.nodup_cons.1 hnodup).1 hj
    have hjlt := hlt j (List.mem_of_mem_drop hj)
    rw [Moves.stale_eq hmoves h.sockets _ hjlt]
    · apply h.timely.channels hphase
      rw [← List.getElem_cons_drop hn]
      exact List.mem_cons_of_mem _ hj
    · rintro (rfl | hle)
      · exact hji rfl
      · exact absurd hjlt (Nat.not_lt.2 hle)
  obtain ⟨t, hturn, ht⟩ := s.exists_channelTurn inetPton n i a
  have hframe := hturn.frame
  rcases ht with ht | ht
  · rw [ht] at hnext ⊢
    refine timely_of_channels (m := n) (hframe.phase.trans hphase) fun j hj => hnext j ?_
    change j ∈ (t.channelOps.eraseIdx n).drop n at hj
    rwa [hframe.channelOps, drop_eraseIdx] at hj
  · rw [ht] at hnext ⊢
    refine timely_of_channels (m := n + 1) rfl fun j hj => hnext j ?_
    change j ∈ t.channelOps.drop (n + 1) at hj
    rwa [hframe.channelOps] at hj

/-! ## Runs -/

/-- A step that leaves the sockets and, while `process_channels` runs, its list. -/
theorem Polled.of_same (h : s.Polled) (hplaced : t.Placed) (hasked : t.asked = s.asked)
    (hphase : t.phase = s.phase) (hstale : ∀ k, t.stale k = s.stale k)
    (hops : s.opsLocked = true → t.channelOps = s.channelOps) : t.Polled := by
  refine ⟨hplaced, ?_, ?_⟩
  · rw [hasked]
    exact h.asked
  · have htimely := h.timely
    unfold Timely at htimely ⊢
    rw [hphase]
    split
    · next m hm =>
      rw [hm] at htimely
      exact fun k => (hstale k).trans (htimely k)
    · next m hm =>
      rw [hm] at htimely
      rw [hops (by simp [opsLocked, hm])]
      exact fun i hi => (hstale i).trans (htimely i hi)
    · trivial

/-- A step to a phase in which no socket is asked. -/
theorem Polled.of_phase (h : s.Polled) (hplaced : t.Placed) (hasked : t.asked = s.asked)
    (ht : ∀ m, t.phase ≠ .transports m) (hc : ∀ m, t.phase ≠ .channels m) : t.Polled :=
  ⟨hplaced, hasked ▸ h.asked, timely_of_ne ht hc⟩

theorem Polled.endTransports (h : s.Polled) {n : ℕ} (hphase : s.phase = .transports n)
    (hplaced : s.endTransports.Placed) : s.endTransports.Polled := by
  have hnone := h.timely.transports hphase
  refine ⟨hplaced, h.asked, ?_⟩
  unfold Service.endTransports
  split
  · exact timely_of_ne nofun nofun
  · exact timely_of_channels (m := 0) rfl fun i _ => hnone i

theorem Polled.timerTurn (h : s.Polled) {n : ℕ} (hphase : s.phase = .timers n)
    (hturn : TimerTurn n s t) (hplaced : t.Placed) : t.Polled := by
  have hne : (∀ m, s.phase ≠ .transports m) ∧ ∀ m, s.phase ≠ .channels m := by
    rw [hphase]
    exact ⟨nofun, nofun⟩
  cases hturn with
  | ends timers htimers | userAgain m hlast time => exact h.of_phase hplaced rfl nofun nofun
  | userDone m hlast | late i hlast hexpired hstate | timeout i hlast hexpired hstate =>
    exact h.of_phase hplaced rfl hne.1 hne.2

theorem Polled.beginFrame (h : s.Polled) {now : ℕ} (hcond : s.ReportsKept (.frame now))
    (hplaced : (s.beginFrame now).Placed) : (s.beginFrame now).Polled := by
  refine ⟨hplaced, h.asked, ?_⟩
  by_cases htimeout : 0 < s.getTimeout now
  · have hphase : (s.beginFrame now).phase = .polling := if_pos htimeout
    exact timely_of_ne (by simp [hphase]) (by simp [hphase])
  · refine timely_of_transports (m := 0) (if_neg htimeout) fun k => ?_
    by_cases hk : k < s.nextSock
    · exact hcond (Int.not_lt.1 htimeout) k hk
    · exact stale_of_none (h.sockets.unused k (Nat.le_of_not_lt hk))

theorem nextPhase_ne (s : Service) :
    (∀ m, s.nextPhase ≠ .transports m) ∧ ∀ m, s.nextPhase ≠ .channels m := by
  unfold nextPhase
  split <;> exact ⟨nofun, nofun⟩

theorem Polled.poll (h : s.Polled) (answer : Option (Fd → Ready))
    (hplaced : (s.poll answer).Placed) : (s.poll answer).Polled := by
  refine ⟨hplaced, h.asked, ?_⟩
  cases answer with
  | none => exact timely_of_ne s.nextPhase_ne.1 s.nextPhase_ne.2
  | some answer =>
    exact timely_of_transports (m := 0) rfl fun k => h.sockets.stale_poll (some answer) k

theorem Polled.effect (h : s.Polled) {a : Action} (henabled : s.enabled a = true)
    (hcond : s.ReportsKept a) : (s.effect inetPton a).Polled := by
  have hplaced : (s.effect inetPton a).Placed := h.toPlaced.effect henabled
  have hsame : ∀ {t : Service}, t.Placed → t.toSockets = s.toSockets → t.asked = s.asked →
      t.phase = s.phase → t.channelOps = s.channelOps → t.Polled := by
    intro t hplaced hsockets hasked hphase hops
    refine h.of_same hplaced hasked hphase (fun k => ?_) fun _ => hops
    rw [hsockets]
  cases a with
  | start =>
    exact h.of_phase hplaced rfl (fun _ h => by cases h) (fun _ h => by cases h)
  | frame now => exact h.beginFrame hcond hplaced
  -- The answers of the poll replace all that was reported before.
  | poll answer => exact h.poll answer hplaced
  | transport a =>
    obtain ⟨n, hn, ⟨-, heq⟩ | ⟨b, hb, heq⟩⟩ := transport_cases inetPton henabled
    · rw [heq] at hplaced ⊢
      exact h.endTransports hn hplaced
    · rw [heq] at hplaced ⊢
      exact h.visitTransport hn a hplaced
  | channel a =>
    obtain ⟨n, hn, ⟨-, heq⟩ | ⟨i, hi, heq⟩⟩ := channel_cases inetPton henabled
    · rw [heq] at hplaced ⊢
      exact h.of_phase hplaced rfl (fun _ h => by cases h) (fun _ h => by cases h)
    · rw [heq] at hplaced ⊢
      exact h.visitChannel hn hi a (hcond i (mem_channelTurn hn hi)) hplaced
  | timer again =>
    obtain ⟨n, hn, heq⟩ := timer_cases inetPton henabled
    rw [heq] at hplaced ⊢
    exact h.timerTurn hn (exists_timerTurn n again) hplaced
  | endEvents => exact h.of_phase hplaced rfl s.nextPhase_ne.1 s.nextPhase_ne.2
  | beginDispatch count =>
    by_cases hphase : s.phase = .events false
    · have hevents : (s.beginDispatch count).phase = .events true := if_pos hphase
      refine h.of_phase hplaced rfl ?_ ?_
      · exact fun m hm => by cases hevents.symm.trans hm
      · exact fun m hm => by cases hevents.symm.trans hm
    · exact hsame hplaced rfl rfl (if_neg hphase) rfl
  | answer n result => cases result <;> exact hsame hplaced rfl rfl rfl rfl
  -- No open gets past the lock while the worker walks through the channels.
  | openInsert n =>
    have hlocked : s.opsLocked = false := by
      simp only [enabled, Bool.and_eq_true, Bool.not_eq_true'] at henabled
      exact henabled.2
    refine h.of_same hplaced rfl rfl (fun _ => rfl) fun hl => ?_
    rw [hlocked] at hl
    cases hl
  | udpConnect b ok =>
    obtain ⟨udp, sockPeer, heq, -⟩ := s.exists_udpConnect b ok
    dsimp only [Service.effect] at hplaced ⊢
    rw [heq] at hplaced ⊢
    exact h.of_same hplaced rfl rfl (fun _ => rfl) fun _ => rfl
  | udpDisconnect b => exact h.of_same hplaced rfl rfl (fun _ => rfl) fun _ => rfl
  | cancelTimer n =>
    obtain ⟨timers, heq⟩ := s.exists_cancelTimer (.user n)
    dsimp only [Service.effect] at hplaced ⊢
    rw [heq] at hplaced ⊢
    exact hsame hplaced rfl rfl rfl rfl
  | join =>
    obtain ⟨events, heq, -⟩ := s.exists_join
    dsimp only [Service.effect] at hplaced ⊢
    rw [heq] at hplaced ⊢
    exact h.of_phase hplaced rfl (fun _ h => by cases h) (fun _ h => by cases h)
  | finishStop =>
    dsimp only [Service.effect] at hplaced ⊢
    rw [h.toOrderly.finishStop_eq henabled] at hplaced ⊢
    exact h.of_phase hplaced rfl (fun _ h => by cases h) (fun _ h => by cases h)
  | _ => exact hsame hplaced rfl rfl rfl rfl

theorem polled_fresh (channelCount : ℕ) (options : Options) (uparams : ℕ → UnpackParams) :
    (Service.fresh channelCount options uparams).Polled :=
  ⟨placed_fresh channelCount options uparams, nofun, trivial⟩

/-- A connect that succeeds has been reported by the poll. -/
theorem ready_of_doConnectCompletion {a : ChannelAnswers}
    (hstate : (s.chan i).state = .connecting)
    (hopened : ((s.doConnectCompletion i a).chan i).state = .opened) :
    s.ready i connectReady = true := by
  unfold doConnectCompletion at hopened
  rw [if_pos hstate] at hopened
  dsimp only at hopened
  cases hready : s.ready i connectReady with
  | true => rfl
  | false =>
    have hready' : s.ready i { read := true, write := true } = false := hready
    rw [hready', if_neg Bool.false_ne_true] at hopened
    exact nomatch hstate.symm.trans hopened

end Service

/-- When no frame without a poll finds a stale socket, every answer of `is_ready` that is acted on
comes from a poll after the registration of the socket, and so does the success of a connect. -/
theorem ready_of_run {inetPton : Host → Option Ip} {channelCount : ℕ} {options : Options}
    {uparams : ℕ → UnpackParams} {as : List Action} {s : Service}
    (hrun : Machine.run (step inetPton) as (.fresh channelCount options uparams) = some s)
    (hcond : Machine.Meets (step inetPton) Service.ReportsKept as
      (.fresh channelCount options uparams)) :
    (∀ x ∈ s.asked, ∃ r, x.registered = some r ∧ r < x.poll) ∧
      ∀ i ∈ s.channelTurn, (s.chan i).state = .connecting →
        ∀ a, ((s.doConnectCompletion i a).chan i).state = .opened →
          s.ready i connectReady = true ∧ ∃ r, s.regAt i = some r ∧ r < s.npoll := by
  have h : s.Polled := by
    refine Machine.invariant_of_meets (I := Service.Polled) ?_
      (Service.polled_fresh channelCount options uparams) hcond hrun
    intro s a s' hs hcond hstep
    obtain ⟨henabled, rfl⟩ := step_eq_some.1 hstep
    exact hs.effect henabled hcond
  refine ⟨h.asked, fun i hi hstate a hopened => ?_⟩
  have hready := Service.ready_of_doConnectCompletion hstate hopened
  exact ⟨hready, registered_of_ready (h.stale_channelTurn hi) hready⟩

/-- The connect succeeds, the peer closes, and the poll reports the socket of a second connect. -/
def connectTwice : List Action :=
  connectPending ++
    [.frame 4, .poll (some fun _ => { write := true }), .transport {}, .channel {}, .channel {},
      .timer none, .endEvents, .openKind 0 Yck.tcpClient, .openTest 0, .openMask 0, .openInsert 0,
      .frame 5, .poll (some fun _ => {}), .transport {}, .transport {},
      .channel { now := 6, socket := .ok 5, connect := some 115 }, .channel {}, .timer none,
      .endEvents, .frame 7, .poll (some fun _ => { write := true }), .transport {}]

theorem ready_of_run_connectTwice :
    ∃ s, Machine.run (step fun _ => some (.v4 1)) connectTwice
        (.fresh 1 { noDispatch := true } fun _ => {}) = some s ∧
      (s.asked.length = 1 ∧ s.channelTurn = some 0 ∧ (s.chan 0).state = .connecting ∧
        ((s.doConnectCompletion 0 {}).chan 0).state = .opened) ∧
        (∀ x ∈ s.asked, ∃ r, x.registered = some r ∧ r < x.poll) ∧
        ∃ r, s.regAt 0 = some r ∧ r < s.npoll := by
  obtain ⟨s, hrun, hs⟩ := Machine.exists_of_any (step fun _ => some (.v4 1)) connectTwice
    (.fresh 1 { noDispatch := true } fun _ => {})
    (fun s => s.asked.length = 1 ∧ s.channelTurn = some 0 ∧ (s.chan 0).state = .connecting ∧
      ((s.doConnectCompletion 0 {}).chan 0).state = .opened)
    (by decide +kernel)
  obtain ⟨hasked, hcompleted⟩ := ready_of_run hrun (by decide +kernel)
  exact ⟨s, hrun, hs, hasked, (hcompleted 0 hs.2.1 hs.2.2.1 _ hs.2.2.2).2⟩

/-- The channel is opened again on the descriptor that the last poll reported, and the next turn
does not poll: the connect ends as successful on the report for the old socket. -/
theorem opened_on_stale_report :
    ∃ s, Machine.run (step fun _ => some (.v4 1))
        (connectFirst ++
          [.openKind 0 Yck.tcpClient, .openTest 0, .openMask 0, .openInsert 0, .frame 2,
            .poll (some fun _ => { read := true, write := true }), .transport {}, .transport {},
            .channel { now := 3, socket := .ok 5, connect := some 115 }, .channel {}, .timer none,
            .endEvents, .frame 10000003, .transport {}, .channel { soError := some 0 }])
        (.fresh 1 { noDispatch := true } fun _ => {}) = some s ∧
      (s.chan 0).state = .opened ∧ ∃ x ∈ s.asked, x.registered = some x.poll :=
  Machine.exists_of_any _ _ _ _ (by decide +kernel)

end Yasio
