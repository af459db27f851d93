import Yasio.Service.ConnectTimer

/-!
# The sockets

A step of the service changes the sockets by calls on a few of them.  An open descriptor belongs to
one socket object, and the watcher knows the descriptors of open sockets only.
-/

namespace Yasio

open Function (update)

namespace Sockets

variable {t t' t'' : Sockets} {k k' : SockId} {fd : Fd} {K K' : SockId → Prop}

/-! ## Calls on sockets -/

/-- A call on a socket object that is one of `K`, or that makes a new one. -/
inductive Move (K : SockId → Prop) (t : Sockets) : Sockets → Prop
  | tune (k : SockId) (hk : K k) (hopen : t.sock k ≠ none) (add remove : Interest) :
      Move K t (t.modEvent k add remove)
  | close (k : SockId) (hk : K k) : Move K t (t.closeSock k)
  | opens (k : SockId) (hk : K k) (hlt : k < t.nextSock) (hclosed : t.sock k = none) (fd : Fd)
      (hfd : t.fdFree fd = true) : Move K t (t.openSock k fd)
  | new (fd : Fd) (hfd : t.fdFree fd = true) (peer : Endpoint) : Move K t (t.newSock fd peer)
  | peers (sockPeer : SockId → Endpoint) : Move K t { t with sockPeer }

/-- A sequence of such calls. -/
abbrev Moves (K : SockId → Prop) : Sockets → Sockets → Prop := Relation.ReflTransGen (Move K)

theorem Move.mono (hK : ∀ k, K k → K' k) (h : Move K t t') : Move K' t t' := by
  cases h with
  | tune k hk hopen add remove => exact .tune k (hK k hk) hopen add remove
  | close k hk => exact .close k (hK k hk)
  | opens k hk hlt hclosed fd hfd => exact .opens k (hK k hk) hlt hclosed fd hfd
  | new fd hfd peer => exact .new fd hfd peer
  | peers sockPeer => exact .peers sockPeer

theorem Moves.mono (hK : ∀ k, K k → K' k) (h : Moves K t t') : Moves K' t t' := by
  induction h with
  | refl => exact .refl
  | tail _ hmove ih => exact ih.tail (hmove.mono hK)

/-! ## Descriptors and what is watched -/

/-- What is watched for on a socket. -/
def interest (t : Sockets) (k : SockId) : Interest := (t.sock k).elim .none t.watcher.interest

/-- An open descriptor belongs to one socket object, and the watcher knows the descriptors of open
registered sockets only. -/
structure Sound (t : Sockets) : Prop where
  fds : ∀ k k' fd, t.sock k = some fd → t.sock k' = some fd → k = k'
  unused : ∀ k, t.nextSock ≤ k → t.sock k = none
  watched : ∀ e ∈ t.watcher.events, ∃ k, t.sock k = some e.1 ∧ t.regAt k ≠ none
  registered : ∀ k r, t.regAt k = some r → r ≤ t.npoll

theorem Sound.ne_of_fdFree (h : t.Sound) (hfd : t.fdFree fd = true) (k : SockId) :
    t.sock k ≠ some fd := by
  by_cases hk : k < t.nextSock
  · exact fdFree_iff.1 hfd k hk
  · rw [h.unused k (Nat.le_of_not_lt hk)]
    exact nofun

/-- Nothing is watched for on a number that no socket has. -/
theorem Sound.interest_of_fdFree (h : t.Sound) (hfd : t.fdFree fd = true) :
    t.watcher.interest fd = .none := by
  unfold PollWatcher.interest
  cases he : t.watcher.events.find? (fun e => e.1 == fd) with
  | none => rfl
  | some e =>
    obtain ⟨k, hk, -⟩ := h.watched e (List.mem_of_find?_eq_some he)
    have hkey : e.1 = fd := by simpa using List.find?_some he
    exact absurd (hkey ▸ hk) (h.ne_of_fdFree hfd k)

theorem Sound.modEvent (h : t.Sound) (hopen : t.sock k ≠ none) (add remove : Interest) :
    (t.modEvent k add remove).Sound := by
  obtain ⟨fd, hfd⟩ := Option.ne_none_iff_exists'.1 hopen
  have hreg : ∀ k', t.regAt k' ≠ none → (t.modEvent k add remove).regAt k' ≠ none := by
    intro k' hk'
    change (if add = .none then t.regAt else update t.regAt k _) k' ≠ none
    split
    · exact hk'
    · by_cases heq : k' = k
      · rw [heq, Function.update_self]
        exact nofun
      · rw [Function.update_of_ne heq]
        exact hk'
  refine ⟨h.fds, h.unused, ?_, ?_⟩
  · intro e he
    have he : e ∈ (t.watcher.modEvent fd add remove).events := by
      unfold Sockets.modEvent at he
      rwa [hfd] at he
    by_cases hadd : add = .none
    · subst hadd
      obtain ⟨e', he', hkey⟩ := PollWatcher.exists_mem_modEvent he
      obtain ⟨k', hk', hk''⟩ := h.watched e' he'
      exact ⟨k', hkey ▸ hk', hreg k' hk''⟩
    · rcases PollWatcher.mem_modEvent he with hkey | he
      · refine ⟨k, hkey ▸ hfd, ?_⟩
        change (if add = .none then t.regAt else update t.regAt k _) k ≠ none
        rw [if_neg hadd, Function.update_self]
        exact nofun
      · obtain ⟨k', hk', hk''⟩ := h.watched e he
        exact ⟨k', hk', hreg k' hk''⟩
  · intro k' r hr
    change (if add = .none then t.regAt else update t.regAt k _) k' = some r at hr
    split at hr
    · exact h.registered k' r hr
    · by_cases heq : k' = k
      · rw [heq, Function.update_self] at hr
        cases hk : t.regAt k with
        | none =>
          rw [hk] at hr
          exact (Option.some.inj hr).ge
        | some r' =>
          rw [hk] at hr
          exact (Option.some.inj hr) ▸ h.registered k r' hk
      · rw [Function.update_of_ne heq] at hr
        exact h.registered k' r hr

theorem Sound.closeSock (h : t.Sound) (k : SockId) : (t.closeSock k).Sound := by
  have hsock : ∀ k' fd, (t.closeSock k).sock k' = some fd → t.sock k' = some fd := by
    intro k' fd hk'
    by_cases heq : k' = k
    · subst heq
      exact absurd ((Function.update_self _ _ _).symm.trans hk') nofun
    · rwa [show (t.closeSock k).sock k' = t.sock k' from Function.update_of_ne heq _ _] at hk'
  refine ⟨?_, ?_, ?_, ?_⟩
  · exact fun k₁ k₂ fd h₁ h₂ => h.fds k₁ k₂ fd (hsock k₁ fd h₁) (hsock k₂ fd h₂)
  · intro k' hk'
    by_cases heq : k' = k
    · rw [heq]
      exact Function.update_self _ _ _
    · exact (Function.update_of_ne heq _ _).trans (h.unused k' hk')
  · intro e he
    have hkeep : ∀ k', k' ≠ k → t.sock k' = some e.1 → t.regAt k' ≠ none →
        ∃ k', (t.closeSock k).sock k' = some e.1 ∧ (t.closeSock k).regAt k' ≠ none := by
      intro k' hne hk' hreg
      refine ⟨k', (Function.update_of_ne hne _ _).trans hk', ?_⟩
      rw [show (t.closeSock k).regAt k' = t.regAt k' from Function.update_of_ne hne _ _]
      exact hreg
    unfold Sockets.closeSock at he
    cases hfd : t.sock k with
    | none =>
      rw [hfd] at he
      obtain ⟨k', hk', hreg⟩ := h.watched e he
      refine hkeep k' ?_ hk' hreg
      rintro rfl
      cases hfd.symm.trans hk'
    | some fd =>
      rw [hfd] at he
      obtain ⟨e', he', hkey⟩ := PollWatcher.exists_mem_modEvent he
      obtain ⟨k', hk', hreg⟩ := h.watched e' he'
      refine hkeep k' ?_ (hkey ▸ hk') hreg
      rintro rfl
      apply PollWatcher.ne_of_mem_modEvent he
      rw [← hkey]
      exact (Option.some.inj (hfd.symm.trans hk')).symm
  · intro k' r hr
    by_cases heq : k' = k
    · subst heq
      exact absurd ((Function.update_self _ _ _).symm.trans hr) nofun
    · exact h.registered k' r ((Function.update_of_ne heq _ _).symm.trans hr)

theorem Sound.openSock (h : t.Sound) (hlt : k < t.nextSock) (hclosed : t.sock k = none)
    (hfd : t.fdFree fd = true) : (t.openSock k fd).Sound := by
  have hself : (t.openSock k fd).sock k = some fd := Function.update_self _ _ _
  have hother : ∀ {k'}, k' ≠ k → (t.openSock k fd).sock k' = t.sock k' :=
    fun hne => Function.update_of_ne hne _ _
  refine ⟨?_, ?_, ?_, h.registered⟩
  · intro k₁ k₂ fd' h₁ h₂
    by_cases heq₁ : k₁ = k
    · by_cases heq₂ : k₂ = k
      · rw [heq₁, heq₂]
      · rw [heq₁, hself] at h₁
        rw [hother heq₂, ← h₁] at h₂
        exact absurd h₂ (h.ne_of_fdFree hfd k₂)
    · rw [hother heq₁] at h₁
      by_cases heq₂ : k₂ = k
      · rw [heq₂, hself] at h₂
        rw [← h₂] at h₁
        exact absurd h₁ (h.ne_of_fdFree hfd k₁)
      · rw [hother heq₂] at h₂
        exact h.fds k₁ k₂ fd' h₁ h₂
  · intro k' hk'
    rw [hother (Nat.ne_of_gt (Nat.lt_of_lt_of_le hlt hk'))]
    exact h.unused k' hk'
  · intro e he
    obtain ⟨k', hk', hreg⟩ := h.watched e he
    refine ⟨k', ?_, hreg⟩
    rw [hother]
    · exact hk'
    · rintro rfl
      cases hclosed.symm.trans hk'

theorem Sound.newSock (h : t.Sound) (hfd : t.fdFree fd = true) (peer : Endpoint) :
    (t.newSock fd peer).Sound := by
  have hwide : ({ t with nextSock := t.nextSock + 1 } : Sockets).Sound :=
    ⟨h.fds, fun k hk => h.unused k (Nat.le_of_succ_le hk), h.watched, h.registered⟩
  have hfree : ({ t with nextSock := t.nextSock + 1 } : Sockets).fdFree fd = true :=
    fdFree_iff.2 fun k _ => h.ne_of_fdFree hfd k
  have hopened := hwide.openSock (k := t.nextSock) (Nat.lt_succ_self _)
    (h.unused t.nextSock (Nat.le_refl _)) hfree
  exact ⟨hopened.fds, hopened.unused, hopened.watched, hopened.registered⟩

theorem Sound.poll (h : t.Sound) (answer : Option (Fd → Ready)) :
    ({ t with watcher := t.watcher.pollIo answer, npoll := t.npoll + 1 } : Sockets).Sound :=
  ⟨h.fds, h.unused, h.watched, fun k r hr => Nat.le_succ_of_le (h.registered k r hr)⟩

theorem Move.sound (h : Move K t t') (ht : t.Sound) : t'.Sound := by
  cases h with
  | tune k hk hopen add remove => exact ht.modEvent hopen add remove
  | close k hk => exact ht.closeSock k
  | opens k hk hlt hclosed fd hfd => exact ht.openSock hlt hclosed hfd
  | new fd hfd peer => exact ht.newSock hfd peer
  | peers sockPeer => exact ⟨ht.fds, ht.unused, ht.watched, ht.registered⟩

theorem Moves.sound (h : Moves K t t') (ht : t.Sound) : t'.Sound := by
  induction h with
  | refl => exact ht
  | tail _ hmove ih => exact hmove.sound ih

/-! ## The other sockets -/

/-- What calls on other sockets leave of the socket `k`. -/
structure Spares (k : SockId) (t t' : Sockets) : Prop where
  sock : t'.sock k = t.sock k
  gen : t'.gen k = t.gen k
  regAt : t'.regAt k = t.regAt k
  interest : t'.interest k = t.interest k

theorem Spares.refl (k : SockId) (t : Sockets) : Spares k t t := ⟨rfl, rfl, rfl, rfl⟩

theorem Spares.trans (h : Spares k t t') (h' : Spares k t' t'') : Spares k t t'' :=
  ⟨h'.sock.trans h.sock, h'.gen.trans h.gen, h'.regAt.trans h.regAt, h'.interest.trans h.interest⟩

/-- The interest in a descriptor that another socket has is left. -/
theorem Sound.interest_of_modEvent (h : t.Sound) (hne : k' ≠ k) {fd : Fd}
    (hfd : t.sock k = some fd) (add remove : Interest) :
    (t.sock k').elim Interest.none (t.watcher.modEvent fd add remove).interest = t.interest k' := by
  unfold interest
  cases hk' : t.sock k' with
  | none => rfl
  | some fd' =>
    have hfd' : fd' ≠ fd := by
      rintro rfl
      exact hne (h.fds k' k fd' hk' hfd)
    exact (PollWatcher.interest_modEvent _ _ _ _ _).trans (if_neg hfd')

theorem Move.spares (h : Move K t t') (ht : t.Sound) (hk : ¬ K k) (hlt : k < t.nextSock) :
    Spares k t t' := by
  have hne : ∀ {k'}, K k' → k ≠ k' := fun hk' heq => hk (heq ▸ hk')
  cases h with
  | tune k' hk' hopen add remove =>
    obtain ⟨fd, hfd⟩ := Option.ne_none_iff_exists'.1 hopen
    refine ⟨rfl, rfl, ?_, ?_⟩
    · change (if add = .none then t.regAt else update t.regAt k' _) k = t.regAt k
      split
      · rfl
      · exact Function.update_of_ne (hne hk') _ _
    · rw [← ht.interest_of_modEvent (hne hk') hfd add remove]
      unfold interest modEvent
      rw [hfd]
      rfl
  | close k' hk' =>
    have hsock : (t.closeSock k').sock k = t.sock k := Function.update_of_ne (hne hk') _ _
    refine ⟨hsock, rfl, Function.update_of_ne (hne hk') _ _, ?_⟩
    unfold interest
    rw [hsock]
    unfold closeSock
    cases hfd : t.sock k' with
    | none => rfl
    | some fd => exact ht.interest_of_modEvent (hne hk') hfd .none .readwrite
  | opens k' hk' hlt' hclosed fd hfd =>
    have hsock : (t.openSock k' fd).sock k = t.sock k := Function.update_of_ne (hne hk') _ _
    refine ⟨hsock, Function.update_of_ne (hne hk') _ _, rfl, ?_⟩
    unfold interest
    rw [hsock]
    rfl
  | new fd hfd peer =>
    have hsock : (t.newSock fd peer).sock k = t.sock k :=
      Function.update_of_ne (Nat.ne_of_lt hlt) _ _
    refine ⟨hsock, Function.update_of_ne (Nat.ne_of_lt hlt) _ _, rfl, ?_⟩
    unfold interest
    rw [hsock]
    rfl
  | peers sockPeer => exact ⟨rfl, rfl, rfl, rfl⟩

theorem Move.frame (h : Move K t t') :
    t.nextSock ≤ t'.nextSock ∧ t'.npoll = t.npoll ∧ t'.watcher.revents = t.watcher.revents := by
  cases h with
  | tune k hk hopen add remove =>
    refine ⟨Nat.le_refl _, rfl, ?_⟩
    unfold modEvent
    cases t.sock k with
    | none => rfl
    | some fd => rfl
  | close k hk =>
    refine ⟨Nat.le_refl _, rfl, ?_⟩
    unfold closeSock
    cases t.sock k with
    | none => rfl
    | some fd => rfl
  | opens k hk hlt hclosed fd hfd => exact ⟨Nat.le_refl _, rfl, rfl⟩
  | new fd hfd peer => exact ⟨Nat.le_succ _, rfl, rfl⟩
  | peers sockPeer => exact ⟨Nat.le_refl _, rfl, rfl⟩

theorem Moves.frame (h : Moves K t t') :
    t.nextSock ≤ t'.nextSock ∧ t'.npoll = t.npoll ∧ t'.watcher.revents = t.watcher.revents := by
  induction h with
  | refl => exact ⟨Nat.le_refl _, rfl, rfl⟩
  | tail _ hmove ih =>
    obtain ⟨hnext, hpoll, hrevents⟩ := hmove.frame
    exact ⟨ih.1.trans hnext, hpoll.trans ih.2.1, hrevents.trans ih.2.2⟩

theorem Moves.spares (h : Moves K t t') (ht : t.Sound) (hk : ¬ K k) (hlt : k < t.nextSock) :
    Spares k t t' := by
  induction h with
  | refl => exact .refl k t
  | tail hmoves hmove ih =>
    have hlt' := hlt.trans_le (Moves.frame hmoves).1
    exact ih.trans (hmove.spares (Moves.sound hmoves ht) hk hlt')

end Sockets

open Sockets

namespace Service

variable {s s' t : Service} {i : ℕ} {a : ChannelAnswers} {b : Block} {inetPton : Host → Option Ip}

/-! ## The turn of a transport -/

theorem moves_touched (h : Touched b s s') :
    Moves (· = (s.built b).sock) s.toSockets s'.toSockets :=
  h.sockets (fun t => Moves (· = (s.built b).sock) s.toSockets t)
    (fun _ add remove hopen hmoves =>
      hmoves.tail (.tune (K := (· = (s.built b).sock)) _ rfl hopen add remove)) .refl

/-- The sockets that are closed with a transport: its own, and that of its channel if it is a
client. -/
def owns (s : Service) (b : Block) (k : SockId) : Prop :=
  k = (s.built b).sock ∨
    k = (s.built b).ctx ∧ testbits (s.kind (s.built b).ctx) Ycm.client = true

theorem moves_dropTransport (s : Service) (n : ℕ) (b : Block) (tail : ℕ) :
    Moves (s.owns b) s.toSockets (s.dropTransport n b tail).toSockets := by
  have hclose : Move (s.owns b) s.toSockets (s.toSockets.closeSock (s.built b).sock) :=
    .close _ (.inl rfl)
  unfold dropTransport handleClose
  dsimp only
  split
  · next hclient => exact .tail (.single hclose) (.close _ (.inr ⟨rfl, hclient⟩))
  · exact .single hclose

theorem moves_visitTransport (s : Service) (n : ℕ) (b : Block) (a : TransportAnswers) :
    Moves (s.owns b) s.toSockets (s.visitTransport n b a).toSockets := by
  obtain ⟨s', hs', hend⟩ := s.exists_turnEnd (b := b) n a
  have ht : Touched b s s' := (s.touched_atRead (b := b) a).trans hs'.toTouched
  have hmoves : Moves (s.owns b) s.toSockets s'.toSockets :=
    (moves_touched ht).mono fun _ hk => .inl hk
  have howns : s'.owns b = s.owns b := by
    unfold owns
    rw [show s'.built = s.built from congrArg Pool.built ht.pool,
      show s'.kind = s.kind from congrArg Channels.kind ht.channels]
  generalize s.visitTransport n b a = t at hend
  cases hend with
  | thrown | kept hasked => exact hmoves
  | dropped => exact hmoves.trans (howns ▸ s'.moves_dropTransport n b a.tail)

/-! ## The turn of a channel -/

theorem sockets_resolves (h : Resolves i s s') : s'.toSockets = s.toSockets := by
  obtain ⟨net, queries, options, error, rfl⟩ := h
  rfl

theorem sockets_takeOpen (s : Service) (i : ℕ) : (s.takeOpen i).toSockets = s.toSockets := by
  unfold takeOpen
  split <;> rfl

theorem sockets_cancelTimer (s : Service) (t : TimerId) :
    (s.cancelTimer t).toSockets = s.toSockets := by
  obtain ⟨timers, heq⟩ := s.exists_cancelTimer t
  rw [heq]

theorem moves_unbound (s : Service) (i : ℕ) :
    Moves (· = i) s.toSockets (s.unbound i).toSockets ∧ (s.unbound i).sock i = none := by
  unfold unbound
  dsimp only
  split
  · exact ⟨.single (.close (K := (· = i)) i rfl), Function.update_self _ _ _⟩
  · next hclosed =>
    refine ⟨.refl, ?_⟩
    change s.sock i = none
    simpa using hclosed

theorem moves_attempted (hlt : i < s.nextSock) (hclosed : s.sock i = none) {fd : Fd}
    (hfd : s.fdFree fd = true) :
    Moves (· = i) s.toSockets (s.attempted i fd).toSockets ∧ (s.attempted i fd).sock i = some fd :=
  ⟨.tail (.single (.opens (K := (· = i)) i rfl hlt hclosed fd hfd)) (.peers _),
    Function.update_self _ _ _⟩

theorem moves_establish (hclient : testbits (s.kind i) Ycm.client = true) (interval : ℕ)
    (ok : Bool) :
    Moves (· = i) s.toSockets (s.establish i i interval ok).toSockets := by
  obtain ⟨sockPeer, heq⟩ := s.sockets_establish hclient i interval ok
  rw [heq]
  exact .single (.peers sockPeer)

theorem sock_of_ready {k : SockId} {events : Ready} (h : s.ready k events = true) :
    s.sock k ≠ none := by
  intro hnone
  unfold Sockets.ready at h
  rw [hnone] at h
  cases h

/-- The parts of `do_connect` up to the opening of the socket. -/
theorem moves_connecting {s₁ : Service} (hlt : i < s.nextSock) (hres : Resolves i s s₁) {fd : Fd}
    (hfd : (s₁.unbound i).fdFree fd = true) :
    Moves (· = i) s.toSockets ((s₁.unbound i).attempted i fd).toSockets ∧
      ((s₁.unbound i).attempted i fd).sock i = some fd := by
  obtain ⟨hunbound, hclosed⟩ := s₁.moves_unbound i
  rw [sockets_resolves hres] at hunbound
  have hlt' : i < (s₁.unbound i).nextSock := hlt.trans_le (Moves.frame hunbound).1
  obtain ⟨hattempted, hopen⟩ := moves_attempted hlt' hclosed hfd
  exact ⟨hunbound.trans hattempted, hopen⟩

theorem moves_clientTurn (hlt : i < s.nextSock) (hclient : testbits (s.kind i) Ycm.client = true)
    (h : ClientTurn i a s t) : Moves (· = i) s.toSockets t.toSockets := by
  cases h with
  | idle hstate | pending hstate hready => exact .refl
  | waits hstate hres herror => exact sockets_resolves hres ▸ .refl
  | unresolved hstate hres error =>
    exact .single (sockets_resolves hres ▸ .close (K := (· = i)) i rfl)
  | @noSocket hstate s₁ hres error =>
    obtain ⟨hunbound, -⟩ := s₁.moves_unbound i
    rw [sockets_resolves hres] at hunbound
    exact hunbound.tail (.close (K := (· = i)) i rfl)
  | refused hstate hres fd hfd error =>
    exact (moves_connecting hlt hres hfd).1.tail (.close (K := (· = i)) i rfl)
  | @starts hstate s₁ hres fd hfd =>
    obtain ⟨hmoves, hopen⟩ := moves_connecting hlt hres hfd
    have hopen' : ((s₁.unbound i).attempted i fd).sock i ≠ none := by
      rw [hopen]
      exact nofun
    exact hmoves.tail (.tune (K := (· = i)) i rfl hopen' _ _)
  | @connects hstate s₁ hres fd hfd =>
    obtain ⟨hmoves, hopen⟩ := moves_connecting hlt hres hfd
    have hopen' : ((s₁.unbound i).attempted i fd).sock i ≠ none := by
      rw [hopen]
      exact nofun
    let u := ((s₁.unbound i).attempted i fd).modEvent i { read := true } .none
    have hclient' : testbits (u.kind i) Ycm.client = true := by
      rw [show u.kind = s.kind from (s₁.kind_unbound i).trans (Bare.of_resolves hres).kind]
      exact hclient
    exact (hmoves.tail (.tune (K := (· = i)) i rfl hopen' _ _)).trans
      (moves_establish (s := u) hclient' _ _)
  | completes hstate hready =>
    let u := (s.ask i connectReady).modEvent i .none { write := true }
    rw [sockets_cancelTimer]
    exact .trans (.single (.tune (K := (· = i)) i rfl (sock_of_ready hready) _ _))
      (moves_establish (s := u) hclient _ _)
  | fails hstate hready error =>
    rw [sockets_cancelTimer]
    exact .single (.close (K := (· = i)) i rfl)

theorem moves_maskTurn (hlt : i < s.nextSock) (h : MaskTurn i a s t) :
    Moves (· = i) s.toSockets t.toSockets := by
  have hclose : Moves (· = i) s.toSockets (s.cleanupChannel i).toSockets :=
    .single (.close (K := (· = i)) i rfl)
  have hclosed : (s.cleanupChannel i).sock i = none := Function.update_self _ _ _
  have hopens : ∀ fd, (s.cleanupChannel i).fdFree fd = true →
      Moves (· = i) s.toSockets ((s.cleanupChannel i).openSock i fd).toSockets :=
    fun fd hfd => hclose.tail
      (.opens (K := (· = i)) (t := (s.cleanupChannel i).toSockets) i rfl hlt hclosed fd hfd)
  cases h with
  | none hopen hclose => exact .refl
  | closes hopen | noSocket hopen => exact hclose
  | unbound hopen fd hfd => exact (hopens fd hfd).tail (.close (K := (· = i)) i rfl)
  | listens hopen fd hsocket hfd =>
    have hopened : ((s.cleanupChannel i).openSock i fd).sock i ≠ Option.none := by
      rw [show ((s.cleanupChannel i).openSock i fd).sock i = some fd from
        Function.update_self _ _ _]
      exact nofun
    exact (hopens fd hfd).tail (.tune (K := (· = i)) i rfl hopened _ _)

/-- A new socket on which a transport starts. -/
theorem moves_newSock {K : SockId → Prop} (hK : K s.nextSock) {fd : Fd}
    (hfd : s.fdFree fd = true) (peer : Endpoint) (client : Bool)
    (sockPeer : SockId → Endpoint) :
    Moves K s.toSockets
      { tuneNew client s.nextSock (s.toSockets.newSock fd peer) with sockPeer } := by
  have hnew : Moves K s.toSockets (s.toSockets.newSock fd peer) := .single (.new fd hfd peer)
  cases client with
  | true => exact hnew.tail (.peers sockPeer)
  | false =>
    have hopened : (s.toSockets.newSock fd peer).sock s.nextSock ≠ none := by
      rw [show (s.toSockets.newSock fd peer).sock s.nextSock = some fd from
        Function.update_self _ _ _]
      exact nofun
    exact (hnew.tail (.tune s.nextSock hK hopened _ _)).tail (.peers sockPeer)

theorem moves_serverTurn (hclient : testbits (s.kind i) Ycm.client = false)
    (h : ServerTurn i a s t) : Moves (s.nextSock ≤ ·) s.toSockets t.toSockets := by
  cases h with
  | closed hstate | unready hready | nothing hready | lost hready => exact .refl
  | accepts hready fd hfd =>
    obtain ⟨sockPeer, heq⟩ := ((s.ask i { read := true }).newSock fd
      a.acceptPeer).sockets_establish (i := i) hclient s.nextSock a.interval true
    rw [heq]
    exact moves_newSock (Nat.le_refl _) hfd a.acceptPeer false sockPeer
  | datagram hready b hfind =>
    rw [(received_handleInput (i := i) b a.datagram.data a.input).sockets]
    exact .refl
  | newPeer hready hfind fd hfd =>
    obtain ⟨chan, udp, sockPeer, transportMap, mapKey, client, -, heq⟩ :=
      acceptPeer_eq (s := s.ask i { read := true }) hclient a.peer fd a
    rw [(received_handleInput (i := i) s.freshBlock a.datagram.data a.input).sockets, heq]
    exact moves_newSock (Nat.le_refl _) hfd .unspec client sockPeer

/-- The turn of a channel of whatever kind is on its own socket and on new ones. -/
theorem moves_visitChannel (inetPton : Host → Option Ip) (hlt : i < s.nextSock) (n : ℕ)
    (a : ChannelAnswers) :
    Moves (fun k => k = i ∨ s.nextSock ≤ k) s.toSockets
      (s.visitChannel inetPton n i a).toSockets := by
  cases hclient : testbits (s.kind i) Ycm.client with
  | true =>
    obtain ⟨t, hturn, ht⟩ := exists_clientTurn inetPton n a hclient
    have htake := s.sockets_takeOpen i
    have hclient' : testbits ((s.takeOpen i).kind i) Ycm.client = true :=
      s.kind_takeOpen i ▸ hclient
    have hmoves := moves_clientTurn (htake ▸ hlt) hclient' hturn
    rw [htake] at hmoves
    rcases ht with ⟨-, ht⟩ | ⟨-, ht⟩
    · rw [ht]
      exact hmoves.mono fun _ hk => .inl hk
    · rw [ht]
      exact hmoves.mono fun _ hk => .inl hk
  | false =>
    obtain ⟨t, hturn, ht⟩ := exists_serverTurn inetPton n a hclient
    have hmoves : Moves (fun k => k = i ∨ s.nextSock ≤ k) s.toSockets t.toSockets := by
      rcases hturn with rfl | ⟨s₁, hmask, hserver⟩
      · exact .refl
      · have hmoves := moves_maskTurn hlt hmask
        have hclient' : testbits (s₁.kind i) Ycm.client = false := by
          rw [kind_maskTurn hmask]
          exact hclient
        have hnext := (Moves.frame hmoves).1
        exact (hmoves.mono fun _ hk => .inl hk).trans
          ((moves_serverTurn hclient' hserver).mono fun _ hk => .inr (hnext.trans hk))
    rcases ht with ht | ht
    · rw [ht]
      exact hmoves
    · rw [ht]
      exact hmoves

/-! ## The sockets of the transports -/

/-- A new transport of a channel is on the channel's own socket, if the channel is a client, and
else on a new one. -/
structure BuiltOn (s s' : Service) (i : ℕ) (built : Built) : Prop where
  ctx : built.ctx = i
  kind : built.kind = s.kind i
  own : testbits (s.kind i) Ycm.client = true → built.sock = i ∧ s'.nextSock = s.nextSock
  new : testbits (s.kind i) Ycm.client = false →
    built.sock = s.nextSock ∧ s'.nextSock = s.nextSock + 1
  gen : built.gen = s'.gen built.sock

/-- A client's turn makes no socket object. -/
theorem nextSock_clientTurn (hclient : testbits (s.kind i) Ycm.client = true)
    (h : ClientTurn i a s t) : t.nextSock = s.nextSock := by
  have hres : ∀ {s₁ : Service}, Resolves i s s₁ →
      s₁.nextSock = s.nextSock ∧ (s₁.unbound i).nextSock = s.nextSock := by
    intro s₁ hres
    rw [← sockets_resolves hres]
    refine ⟨rfl, ?_⟩
    unfold unbound
    dsimp only
    split <;> rfl
  have hnew : ∀ {u : Service}, u.nextSock = s.nextSock → u.kind = s.kind →
      (u.establish i i a.interval a.dgramConnect).nextSock = s.nextSock := by
    intro u hnext hkind
    obtain ⟨sockPeer, heq⟩ := u.sockets_establish (i := i) (hkind ▸ hclient) i a.interval
      a.dgramConnect
    rw [heq]
    exact hnext
  cases h with
  | idle hstate | pending hstate hready => rfl
  | waits hstate h herror | unresolved hstate h error => exact (hres h).1
  | noSocket hstate h error | refused hstate h fd hfd error | starts hstate h fd hfd =>
    exact (hres h).2
  | @connects hstate s₁ h fd hfd =>
    exact hnew (u := ((s₁.unbound i).attempted i fd).modEvent i { read := true } .none)
      (hres h).2 ((kind_unbound s₁ i).trans (Bare.of_resolves h).kind)
  | completes hstate hready =>
    rw [sockets_cancelTimer]
    exact hnew (u := (s.ask i connectReady).modEvent i .none { write := true }) rfl rfl
  | fails hstate hready error =>
    rw [sockets_cancelTimer]
    rfl

theorem pool_clientTurn (hclient : testbits (s.kind i) Ycm.client = true)
    (h : ClientTurn i a s t) :
    t.toPool = s.toPool ∨ ∃ built, BuiltOn s t i built ∧ t.toPool = s.toPool.connect built := by
  have hres : ∀ {s₁ : Service}, Resolves i s s₁ → (s₁.unbound i).toPool = s.toPool := by
    intro s₁ hres
    rw [← (Bare.of_resolves hres).pool]
    unfold unbound
    dsimp only
    split <;> rfl
  have hnext := nextSock_clientTurn hclient h
  have hnew : ∀ {u : Service}, u.toPool = s.toPool → u.kind = s.kind →
      t.gen = (u.establish i i a.interval a.dgramConnect).gen →
      ∃ built, BuiltOn s t i built ∧
        (u.establish i i a.interval a.dgramConnect).toPool = s.toPool.connect built := by
    intro u hpool hkind hgen
    refine ⟨u.newBuilt i i a.interval,
      ⟨rfl, congrFun hkind i, fun _ => ⟨rfl, hnext⟩, fun hc => ?_, ?_⟩, ?_⟩
    · cases hclient.symm.trans hc
    · rw [hgen, (gen_establish i a.interval a.dgramConnect).1]
      rfl
    · rw [toPool_establish, hpool]
  cases h with
  | idle hstate | pending hstate hready => exact .inl rfl
  | waits hstate h herror => exact .inl (Bare.of_resolves h).pool
  | unresolved hstate h error => exact .inl (Bare.of_resolves h).pool
  | noSocket hstate h error | refused hstate h fd hfd error | starts hstate h fd hfd =>
    left
    rw [← hres h]
    rfl
  | @connects hstate s₁ h fd hfd =>
    exact .inr (hnew (u := ((s₁.unbound i).attempted i fd).modEvent i { read := true } .none)
      (hres h) ((kind_unbound s₁ i).trans (Bare.of_resolves h).kind) rfl)
  | completes hstate hready =>
    obtain ⟨built, hbuilt, hpool⟩ :=
      hnew (u := (s.ask i connectReady).modEvent i .none { write := true }) rfl rfl
        (congrArg Sockets.gen (sockets_cancelTimer _ _))
    refine .inr ⟨built, hbuilt, ?_⟩
    rw [← hpool]
    obtain ⟨timers, heq⟩ := (((s.ask i connectReady).modEvent i .none { write := true }).establish
      i i a.interval a.dgramConnect).exists_cancelTimer (.connect i)
    rw [heq]
  | fails hstate hready error =>
    obtain ⟨timers, heq⟩ :=
      ((s.ask i connectReady).handleConnectFailed i error).exists_cancelTimer (.connect i)
    left
    rw [heq]
    rfl

theorem pool_maskTurn (h : MaskTurn i a s t) : t.toPool = s.toPool ∧ t.nextSock = s.nextSock := by
  cases h <;> exact ⟨rfl, rfl⟩

/-- A server's turn makes no transport, or one on a new socket that it may register for a peer. -/
theorem pool_serverTurn (hclient : testbits (s.kind i) Ycm.client = false)
    (h : ServerTurn i a s t) :
    (t.toPool = s.toPool ∧ t.nextSock = s.nextSock) ∨
      ∃ built, BuiltOn s t i built ∧
        (t.toPool = s.toPool.connect built ∨
          t.toPool = (s.toPool.connect built).register a.peer s.freshBlock) := by
  have hown : testbits (s.kind i) Ycm.client = true →
      s.nextSock = i ∧ t.nextSock = s.nextSock := by
    intro hc
    cases hclient.symm.trans hc
  cases h with
  | closed hstate | unready hready | nothing hready | lost hready => exact .inl ⟨rfl, rfl⟩
  | accepts hready fd hfd =>
    let u := (s.ask i { read := true }).newSock fd a.acceptPeer
    obtain ⟨sockPeer, hsockets⟩ := u.sockets_establish (i := i) hclient s.nextSock a.interval true
    refine .inr ⟨u.newBuilt i s.nextSock a.interval, ⟨rfl, rfl, hown, fun _ => ⟨rfl, ?_⟩, ?_⟩,
      .inl (u.toPool_establish s.nextSock a.interval true)⟩
    · exact congrArg Sockets.nextSock hsockets
    · exact (congrFun (u.gen_establish (j := i) s.nextSock a.interval true).1 s.nextSock).symm
  | datagram hready b hfind =>
    have hreceived := received_handleInput (i := i)
      (s := (s.ask i { read := true }).deliver i a.peer b) b a.datagram.data a.input
    exact .inl ⟨hreceived.pool, congrArg Sockets.nextSock hreceived.sockets⟩
  | newPeer hready hfind fd hfd =>
    let u := s.ask i { read := true }
    obtain ⟨chan, udp, sockPeer, transportMap, mapKey, client, -, heq⟩ :=
      acceptPeer_eq (s := u) hclient a.peer fd a
    have hreceived := received_handleInput (i := i) (s := (u.acceptPeer i a.peer fd a).deliver i
      a.peer s.freshBlock) s.freshBlock a.datagram.data a.input
    refine .inr ⟨(u.newSock fd .unspec).newBuilt i s.nextSock a.interval,
      ⟨rfl, rfl, hown, fun _ => ⟨rfl, ?_⟩, ?_⟩,
      .inr (hreceived.pool.trans (u.toPool_acceptPeer a.peer fd a))⟩
    · rw [hreceived.sockets, show ((u.acceptPeer i a.peer fd a).deliver i a.peer
        s.freshBlock).toSockets = (u.acceptPeer i a.peer fd a).toSockets from rfl, heq]
      cases client <;> rfl
    · rw [hreceived.sockets, show ((u.acceptPeer i a.peer fd a).deliver i a.peer
        s.freshBlock).gen = (u.acceptPeer i a.peer fd a).gen from rfl,
        (u.gen_acceptPeer (j := i) a.peer fd a).1]
      rfl

/-- A turn of a channel makes no transport, or one that is built as its kind asks for. -/
theorem joined_visitChannel (inetPton : Host → Option Ip) (n : ℕ) (a : ChannelAnswers) :
    ((s.visitChannel inetPton n i a).toPool = s.toPool ∧
        (s.visitChannel inetPton n i a).nextSock = s.nextSock) ∨
      ∃ built, BuiltOn s (s.visitChannel inetPton n i a) i built ∧
        Joined s (s.visitChannel inetPton n i a) built := by
  cases hclient : testbits (s.kind i) Ycm.client with
  | true =>
    obtain ⟨t, hturn, ht⟩ := exists_clientTurn inetPton n a hclient
    have htake : (s.takeOpen i).toPool = s.toPool ∧ (s.takeOpen i).kind = s.kind ∧
        (s.takeOpen i).nextSock = s.nextSock := by
      unfold Service.takeOpen
      split <;> exact ⟨rfl, rfl, rfl⟩
    have hpool : (s.visitChannel inetPton n i a).toPool = t.toPool ∧
        (s.visitChannel inetPton n i a).toSockets = t.toSockets := by
      rcases ht with ⟨-, ht⟩ | ⟨-, ht⟩ <;> exact ⟨by rw [ht], by rw [ht]⟩
    have hclient' : testbits ((s.takeOpen i).kind i) Ycm.client = true := htake.2.1 ▸ hclient
    have hnext : (s.visitChannel inetPton n i a).nextSock = s.nextSock := by
      rw [hpool.2, nextSock_clientTurn hclient' hturn, htake.2.2]
    rcases pool_clientTurn hclient' hturn with h | ⟨built, hbuilt, h⟩
    · left
      rw [hpool.1, h]
      exact ⟨htake.1, hnext⟩
    · right
      refine ⟨built, ⟨hbuilt.ctx, ?_, fun _ => ⟨(hbuilt.own hclient').1, hnext⟩, ?_, ?_⟩, ?_⟩
      · rw [hbuilt.kind, htake.2.1]
      · intro hc
        cases hclient.symm.trans hc
      · rw [hpool.2]
        exact hbuilt.gen
      · apply Joined.of_connect
        rw [hpool.1, h, htake.1]
  | false =>
    obtain ⟨t, hturn, ht⟩ := exists_serverTurn inetPton n a hclient
    have hpool : (s.visitChannel inetPton n i a).toPool = t.toPool ∧
        (s.visitChannel inetPton n i a).toSockets = t.toSockets := by
      rcases ht with ht | ht <;> exact ⟨by rw [ht], by rw [ht]⟩
    rcases hturn with rfl | ⟨s₁, hmask, hserver⟩
    · exact .inl ⟨hpool.1, congrArg Sockets.nextSock hpool.2⟩
    · obtain ⟨hpool₁, hnext⟩ := pool_maskTurn hmask
      have hkind : s₁.kind = s.kind := kind_maskTurn hmask
      rcases pool_serverTurn (hkind ▸ hclient) hserver with ⟨h, hnext'⟩ | ⟨built, hbuilt, h⟩
      · left
        rw [hpool.1, hpool.2, h, hpool₁, hnext', hnext]
        exact ⟨rfl, rfl⟩
      · right
        refine ⟨built, ⟨hbuilt.ctx, by rw [hbuilt.kind, hkind], ?_, fun _ => ?_, ?_⟩, ?_⟩
        · intro hc
          cases hclient.symm.trans hc
        · obtain ⟨hsock, hnew⟩ := hbuilt.new (hkind ▸ hclient)
          exact ⟨hsock.trans hnext, by rw [hpool.2, hnew, hnext]⟩
        · rw [hpool.2]
          exact hbuilt.gen
        · rcases h with h | h
          · apply Joined.of_connect
            rw [hpool.1, h, hpool₁]
          · have hregister : (s.visitChannel inetPton n i a).toPool =
                (s.toPool.connect built).register a.peer s.freshBlock := by
              rw [hpool.1, h, hpool₁]
            exact Joined.of_register hregister

/-! ## Every reachable state -/

/-- What every reachable state satisfies of its sockets and of the indices that lead to them. -/
structure Placed (s : Service) : Prop extends s.Orderly where
  sockets : s.toSockets.Sound
  count : s.channelCount ≤ s.nextSock
  opens : ∀ x ∈ s.opens, x.1 < s.channelCount
  ops : ∀ i ∈ s.channelOps, i < s.channelCount
  opsNodup : s.channelOps.Nodup
  timers : ∀ i, .connect i ∈ s.timerQueue → i < s.channelCount
  timersNodup : s.timerQueue.Nodup
  bound : ∀ b ∈ s.transports, (s.built b).ctx < s.channelCount ∧ (s.built b).sock < s.nextSock ∧
    ((s.built b).sock = (s.built b).ctx ∨ s.channelCount ≤ (s.built b).sock)
  alone : ∀ b ∈ s.transports, ∀ b' ∈ s.transports, (s.built b).sock = (s.built b').sock →
    s.channelCount ≤ (s.built b).sock → b = b'

/-- The pool is left, and the sockets, the lists of channels, of opens and of timers change. -/
theorem Placed.of_lists (h : s.Placed) (hord : s'.Orderly) {K : SockId → Prop}
    (hmoves : Moves K s.toSockets s'.toSockets) (hcount : s'.channelCount = s.channelCount)
    (hpool : s'.toPool = s.toPool) (hopens : ∀ x ∈ s'.opens, x.1 < s.channelCount)
    (hops : ∀ i ∈ s'.channelOps, i < s.channelCount) (hnodup : s'.channelOps.Nodup)
    (htimers : ∀ i, .connect i ∈ s'.timerQueue → i < s.channelCount)
    (htnodup : s'.timerQueue.Nodup) : s'.Placed := by
  have hnext := (Moves.frame hmoves).1
  refine ⟨hord, Moves.sound hmoves h.sockets, ?_, ?_, ?_, hnodup, ?_, htnodup, ?_, ?_⟩
  · rw [hcount]
    exact h.count.trans hnext
  · rw [hcount]
    exact hopens
  · rw [hcount]
    exact hops
  · rw [hcount]
    exact htimers
  · rw [hpool, hcount]
    intro b hb
    obtain ⟨hctx, hsock, hown⟩ := h.bound b hb
    exact ⟨hctx, hsock.trans_le hnext, hown⟩
  · rw [hpool, hcount]
    exact h.alone

theorem Placed.of_same (h : s.Placed) (hord : s'.Orderly)
    (hmoves : Moves (fun _ => False) s.toSockets s'.toSockets)
    (hcount : s'.channelCount = s.channelCount) (hpool : s'.toPool = s.toPool)
    (hopens : s'.opens = s.opens) (hops : s'.channelOps = s.channelOps)
    (htimers : s'.timerQueue = s.timerQueue) : s'.Placed := by
  apply h.of_lists hord hmoves hcount hpool
  · rw [hopens]
    exact h.opens
  · rw [hops]
    exact h.ops
  · rw [hops]
    exact h.opsNodup
  · rw [htimers]
    exact h.timers
  · rw [htimers]
    exact h.timersNodup

theorem Placed.visitTransport (h : s.Placed) {n : ℕ} (hb : s.transports[n]? = some b)
    (a : TransportAnswers) (hord : (s.visitTransport n b a).Orderly) :
    (s.visitTransport n b a).Placed := by
  have hmoves := s.moves_visitTransport n b a
  have hnext := (Moves.frame hmoves).1
  have hframe : (s.visitTransport n b a).channelCount = s.channelCount ∧
      (s.visitTransport n b a).opens = s.opens ∧
      (s.visitTransport n b a).channelOps = s.channelOps ∧
      (s.visitTransport n b a).timerQueue = s.timerQueue := by
    obtain ⟨s', hs', hend⟩ := s.exists_turnEnd (b := b) n a
    have ht : Touched b s s' := (s.touched_atRead (b := b) a).trans hs'.toTouched
    have hframe : s'.channelCount = s.channelCount ∧ s'.opens = s.opens ∧
        s'.channelOps = s.channelOps ∧ s'.timerQueue = s.timerQueue :=
      ⟨congrArg Channels.channelCount ht.channels, congrArg Channels.opens ht.channels,
        congrArg Channels.channelOps ht.channels, congrArg Timers.timerQueue ht.timers⟩
    generalize s.visitTransport n b a = t at hend
    cases hend with
    | thrown | kept hasked => exact hframe
    | dropped =>
      obtain ⟨chan, io, sockets, heq, -⟩ := s'.exists_dropTransport n b a.tail
      rw [heq]
      exact hframe
  obtain ⟨hcount, hopens, hops, htimers⟩ := hframe
  have hpool : (s.visitTransport n b a).built = s.built ∧
      ∀ b' ∈ (s.visitTransport n b a).transports, b' ∈ s.transports := by
    rcases s.toPool_visitTransport n b a with hp | hp
    · rw [hp]
      exact ⟨rfl, fun _ => id⟩
    · rw [hp]
      exact ⟨rfl, fun b' hb' => (Pool.mem_release h.sound hb).1 hb' |>.1⟩
  refine ⟨hord, Moves.sound hmoves h.sockets, ?_, ?_, ?_, ?_, ?_, ?_, ?_, ?_⟩
  · rw [hcount]
    exact h.count.trans hnext
  · rw [hcount, hopens]
    exact h.opens
  · rw [hcount, hops]
    exact h.ops
  · rw [hops]
    exact h.opsNodup
  · rw [hcount, htimers]
    exact h.timers
  · rw [htimers]
    exact h.timersNodup
  · rw [hcount, hpool.1]
    intro b' hb'
    obtain ⟨hctx, hsock, hown⟩ := h.bound b' (hpool.2 b' hb')
    exact ⟨hctx, hsock.trans_le hnext, hown⟩
  · rw [hcount, hpool.1]
    exact fun b₁ h₁ b₂ h₂ => h.alone b₁ (hpool.2 b₁ h₁) b₂ (hpool.2 b₂ h₂)

theorem Placed.visitChannel (h : s.Placed) {n : ℕ} (hi : s.channelOps[n]? = some i)
    (a : ChannelAnswers) (hord : (s.visitChannel inetPton n i a).Orderly) :
    (s.visitChannel inetPton n i a).Placed := by
  have hlt : i < s.channelCount := h.ops i (List.mem_of_getElem? hi)
  have hmoves := moves_visitChannel inetPton (hlt.trans_le h.count) n a
  have hnext := (Moves.frame hmoves).1
  have hjoined := joined_visitChannel (s := s) (i := i) inetPton n a
  -- The turn of a channel arms or cancels its own connect timer only.
  have htimers : ∀ j, j ≠ i →
      (.connect j ∈ (s.visitChannel inetPton n i a).timerQueue ↔ .connect j ∈ s.timerQueue) :=
    fun j hj => (Aside.visitChannel hj.symm n a).timer h.timersNodup
  have htnodup : (s.visitChannel inetPton n i a).timerQueue.Nodup :=
    (Aside.visitChannel (Nat.ne_of_lt (Nat.lt_succ_self i)) n a).nodup h.timersNodup
  obtain ⟨t, hturn, ht⟩ := s.exists_channelTurn inetPton n i a
  have hframe := hturn.frame
  have hlists : (s.visitChannel inetPton n i a).channelCount = s.channelCount ∧
      (s.visitChannel inetPton n i a).opens = s.opens ∧
      (s.visitChannel inetPton n i a).channelOps.Sublist s.channelOps := by
    rcases ht with ht | ht
    · rw [ht]
      exact ⟨hframe.channelCount, hframe.opens, hframe.channelOps ▸ List.eraseIdx_sublist _ _⟩
    · rw [ht]
      exact ⟨hframe.channelCount, hframe.opens, hframe.channelOps ▸ List.Sublist.refl _⟩
  generalize s.visitChannel inetPton n i a = u at *
  obtain ⟨hcount, hopens, hops⟩ := hlists
  refine ⟨hord, Moves.sound hmoves h.sockets, ?_, ?_, ?_, ?_, ?_, htnodup, ?_, ?_⟩
  · rw [hcount]
    exact h.count.trans hnext
  · rw [hcount, hopens]
    exact h.opens
  · rw [hcount]
    exact fun j hj => h.ops j (hops.subset hj)
  · exact h.opsNodup.sublist hops
  · rw [hcount]
    intro j hj
    by_cases hji : j = i
    · exact hji ▸ hlt
    · exact h.timers j ((htimers j hji).1 hj)
  · rw [hcount]
    intro b hb
    -- A new transport is on the channel's own socket (a client) or on a fresh one (a server).
    rcases hjoined with ⟨hpool, -⟩ | ⟨built, hbuilt, hjoined⟩
    · rw [hpool] at hb ⊢
      obtain ⟨hctx, hsock, hown⟩ := h.bound b hb
      exact ⟨hctx, hsock.trans_le hnext, hown⟩
    · rw [hjoined.transports, List.mem_append, List.mem_singleton] at hb
      rcases hb with hb | rfl
      · rw [hjoined.other b (h.sound.ne_freshBlock hb)]
        obtain ⟨hctx, hsock, hown⟩ := h.bound b hb
        exact ⟨hctx, hsock.trans_le hnext, hown⟩
      · rw [hjoined.ctx, hjoined.sock, hbuilt.ctx]
        cases hclient : testbits (s.kind i) Ycm.client with
        | true =>
          rw [(hbuilt.own hclient).1]
          exact ⟨hlt, (hlt.trans_le h.count).trans_le hnext, .inl rfl⟩
        | false =>
          obtain ⟨hsock, hnew⟩ := hbuilt.new hclient
          rw [hsock, hnew]
          exact ⟨hlt, Nat.lt_succ_self _, .inr h.count⟩
  · rw [hcount]
    intro b₁ h₁ b₂ h₂ hsame hle
    rcases hjoined with ⟨hpool, -⟩ | ⟨built, hbuilt, hjoined⟩
    · rw [hpool] at h₁ h₂ hsame hle
      exact h.alone b₁ h₁ b₂ h₂ hsame hle
    -- No transport that exists shares a socket that was opened for a peer just now.
    · have hnew : ∀ b ∈ s.transports, built.sock = (s.built b).sock →
          s.channelCount ≤ built.sock → False := by
        intro b hb heq hle
        cases hclient : testbits (s.kind i) Ycm.client with
        | true =>
          rw [(hbuilt.own hclient).1] at hle
          exact absurd hlt (Nat.not_lt.2 hle)
        | false =>
          have hsock := (h.bound b hb).2.1
          rw [← heq, (hbuilt.new hclient).1] at hsock
          exact Nat.lt_irrefl _ hsock
      rw [hjoined.transports, List.mem_append, List.mem_singleton] at h₁ h₂
      rcases h₁ with h₁ | rfl
      · rw [hjoined.other b₁ (h.sound.ne_freshBlock h₁)] at hsame hle
        rcases h₂ with h₂ | rfl
        · rw [hjoined.other b₂ (h.sound.ne_freshBlock h₂)] at hsame
          exact h.alone b₁ h₁ b₂ h₂ hsame hle
        · rw [hjoined.sock] at hsame
          exact (hnew b₁ h₁ hsame.symm (hsame ▸ hle)).elim
      · rcases h₂ with h₂ | rfl
        · rw [hjoined.other b₂ (h.sound.ne_freshBlock h₂), hjoined.sock] at hsame
          rw [hjoined.sock] at hle
          exact (hnew b₂ h₂ hsame hle).elim
        · rfl

theorem Placed.timerTurn (h : s.Placed) {n : ℕ} (hturn : TimerTurn n s t) (hord : t.Orderly) :
    t.Placed := by
  have hdrop : ∀ {u : Service}, u.timerQueue = s.timerQueue.dropLast →
      (∀ i, .connect i ∈ u.timerQueue → i < s.channelCount) ∧ u.timerQueue.Nodup := by
    intro u hu
    rw [hu]
    exact ⟨fun i hi => h.timers i ((List.dropLast_sublist _).subset hi),
      h.timersNodup.sublist (List.dropLast_sublist _)⟩
  cases hturn with
  | ends timers htimers =>
    refine h.of_lists (K := fun _ => False) hord .refl rfl rfl h.opens h.ops h.opsNodup ?_ ?_
    · rcases htimers with rfl | rfl
      · exact h.timers
      · exact fun i hi => h.timers i (mem_sortTimers.1 hi)
    · rcases htimers with rfl | rfl
      · exact h.timersNodup
      · exact nodup_sortTimers h.timersNodup
  | userDone m hlast | late i hlast hexpired hstate =>
    obtain ⟨htimers, hnodup⟩ := hdrop (u := { s with timerQueue := s.timerQueue.dropLast }) rfl
    exact h.of_lists (K := fun _ => False) hord .refl rfl rfl h.opens h.ops h.opsNodup htimers
      hnodup
  | userAgain m hlast time =>
    obtain ⟨htimers, hnodup⟩ := hdrop (u := { s with timerQueue := s.timerQueue.dropLast }) rfl
    refine h.of_lists (K := fun _ => False) hord .refl rfl rfl h.opens h.ops h.opsNodup ?_ ?_
    · intro i hi
      rcases List.mem_append.1 hi with hi | hi
      · exact htimers i hi
      · cases List.mem_singleton.1 hi
    · refine List.Nodup.append hnodup (List.nodup_singleton _) (List.disjoint_singleton.2 ?_)
      intro hmem
      exact absurd rfl ((mem_dropLast h.timersNodup hlast _).1 hmem).2
  | timeout i hlast hexpired hstate =>
    obtain ⟨htimers, hnodup⟩ := hdrop (u := { s with timerQueue := s.timerQueue.dropLast }) rfl
    exact h.of_lists hord (.single (.close (K := (· = i)) i rfl)) rfl rfl h.opens h.ops h.opsNodup
      htimers hnodup

theorem opening_mem {n : ℕ} (h : n < s.opens.length) : s.opening n ∈ s.opens := by
  unfold opening
  simp [h]

theorem Placed.effect (h : s.Placed) {a : Action} (henabled : s.enabled a = true) :
    (s.effect inetPton a).Placed := by
  have hord : (s.effect inetPton a).Orderly := h.toOrderly.effect henabled
  -- The stages of an open keep its channel.
  have hstage : ∀ (stage : OpenStage) n, n < s.opens.length →
      ∀ x ∈ s.opens.set n ((s.opening n).1, stage), x.1 < s.channelCount := by
    intro stage n hn x hx
    rcases List.mem_or_eq_of_mem_set hx with hx | rfl
    · exact h.opens x hx
    · change (s.opening n).1 < s.channelCount
      exact h.opens _ (opening_mem hn)
  -- What most steps leave alone is all that the invariant reads.
  have hsame : ∀ {t : Service}, t.Orderly → t.toSockets = s.toSockets →
      t.channelCount = s.channelCount → t.toPool = s.toPool → t.opens = s.opens →
      t.channelOps = s.channelOps → t.timerQueue = s.timerQueue → t.Placed :=
    fun hord hsockets => h.of_same hord (hsockets ▸ .refl)
  cases a with
  | transport a =>
    obtain ⟨n, hn, ⟨-, heq⟩ | ⟨b, hb, heq⟩⟩ := transport_cases inetPton henabled
    · rw [heq] at hord ⊢
      exact h.of_same hord .refl rfl rfl rfl rfl rfl
    · rw [heq] at hord ⊢
      exact h.visitTransport hb a hord
  | channel a =>
    obtain ⟨n, hn, ⟨-, heq⟩ | ⟨i, hi, heq⟩⟩ := channel_cases inetPton henabled
    · rw [heq] at hord ⊢
      exact h.of_same hord .refl rfl rfl rfl rfl rfl
    · rw [heq] at hord ⊢
      exact h.visitChannel hi a hord
  | timer again =>
    obtain ⟨n, hn, heq⟩ := timer_cases inetPton henabled
    rw [heq] at hord ⊢
    exact h.timerTurn (exists_timerTurn n again) hord
  | poll answer =>
    refine ⟨hord, h.sockets.poll answer, h.count, h.opens, h.ops, h.opsNodup, h.timers,
      h.timersNodup, h.bound, h.alone⟩
  | openKind i kind =>
    have hi : i < s.channelCount ∧ validKind kind = true := by simpa [enabled] using henabled
    refine h.of_lists (K := fun _ => False) hord .refl rfl rfl ?_ h.ops h.opsNodup h.timers
      h.timersNodup
    intro x hx
    rcases List.mem_append.1 hx with hx | hx
    · exact h.opens x hx
    · rw [List.mem_singleton.1 hx]
      exact hi.1
  | openTest n =>
    have hn : n < s.opens.length := by
      simp only [enabled, Bool.and_eq_true, decide_eq_true_eq] at henabled
      exact henabled.1
    refine h.of_lists (K := fun _ => False) hord .refl rfl rfl ?_ h.ops h.opsNodup h.timers
      h.timersNodup
    intro x hx
    change x ∈ (if (s.chan (s.opening n).1).state = .connecting ∨
      (s.chan (s.opening n).1).state = .resolving then s.opens.eraseIdx n
      else s.opens.set n ((s.opening n).1, .tested)) at hx
    split at hx
    · exact h.opens x (List.mem_of_mem_eraseIdx hx)
    · exact hstage .tested n hn x hx
  | openMask n =>
    have hn : n < s.opens.length := by
      simp only [enabled, Bool.and_eq_true, decide_eq_true_eq] at henabled
      exact henabled.1
    exact h.of_lists (K := fun _ => False) hord .refl rfl rfl (hstage .masked n hn) h.ops
      h.opsNodup h.timers h.timersNodup
  | openInsert n =>
    have hn : n < s.opens.length := by
      simp only [enabled, Bool.and_eq_true, decide_eq_true_eq] at henabled
      exact henabled.1.1
    refine h.of_lists (K := fun _ => False) hord .refl rfl rfl ?_ ?_ ?_ h.timers h.timersNodup
    · exact fun x hx => h.opens x (List.mem_of_mem_eraseIdx hx)
    · intro i hi
      change i ∈ (if (s.opening n).1 ∈ s.channelOps then s.channelOps
        else s.channelOps ++ [(s.opening n).1]) at hi
      split at hi
      · exact h.ops i hi
      · rcases List.mem_append.1 hi with hi | hi
        · exact h.ops i hi
        · rw [List.mem_singleton.1 hi]
          exact h.opens _ (opening_mem hn)
    · change (if (s.opening n).1 ∈ s.channelOps then s.channelOps
        else s.channelOps ++ [(s.opening n).1]).Nodup
      split
      · exact h.opsNodup
      · next hmem =>
        exact List.Nodup.append h.opsNodup (List.nodup_singleton _)
          (List.disjoint_singleton.2 hmem)
  | answer n result => cases result <;> exact hsame hord rfl rfl rfl rfl rfl rfl
  | udpConnect b ok =>
    obtain ⟨udp, sockPeer, heq, -⟩ := s.exists_udpConnect b ok
    dsimp only [Service.effect] at hord ⊢
    rw [heq] at hord ⊢
    exact h.of_same hord (.single (.peers sockPeer)) rfl rfl rfl rfl rfl
  | udpDisconnect b => exact h.of_same hord (.single (.peers _)) rfl rfl rfl rfl rfl
  -- The timers of the application are not connect timers.
  | scheduleTimer n time =>
    refine h.of_lists (K := fun _ => False) hord .refl rfl rfl h.opens h.ops h.opsNodup ?_
      (nodup_scheduleTimer (s := s.expiresAt (.user n) time) h.timersNodup _)
    intro i hi
    rcases mem_scheduleTimer.1 hi with heq | hi
    · cases heq
    · exact h.timers i hi
  | cancelTimer n =>
    have htimers : ∀ i, .connect i ∈ (s.cancelTimer (.user n)).timerQueue → i < s.channelCount :=
      fun i hi => h.timers i ((mem_cancelTimer h.timersNodup).1 hi).1
    have hnodup := nodup_cancelTimer h.timersNodup (.user n)
    obtain ⟨timers, heq⟩ := s.exists_cancelTimer (.user n)
    dsimp only [Service.effect] at hord ⊢
    rw [heq] at hord htimers hnodup ⊢
    exact h.of_lists (K := fun _ => False) hord .refl rfl rfl h.opens h.ops h.opsNodup htimers
      hnodup
  | join =>
    obtain ⟨events, heq, -⟩ := s.exists_join
    dsimp only [Service.effect] at hord ⊢
    rw [heq] at hord ⊢
    exact hsame hord rfl rfl rfl rfl rfl rfl
  | finishStop =>
    dsimp only [Service.effect] at hord ⊢
    rw [h.toOrderly.finishStop_eq henabled] at hord ⊢
    exact ⟨hord, h.sockets, h.count, h.opens, h.ops, h.opsNodup, by simp, List.nodup_nil, h.bound,
      h.alone⟩
  | _ => exact hsame hord rfl rfl rfl rfl rfl rfl

theorem placed_fresh (channelCount : ℕ) (options : Options) (uparams : ℕ → UnpackParams) :
    (Service.fresh channelCount options uparams).Placed where
  toOrderly := orderly_fresh channelCount options uparams
  sockets := ⟨nofun, fun _ _ => rfl, nofun, nofun⟩
  count := Nat.le_refl _
  opens := nofun
  ops := nofun
  opsNodup := List.nodup_nil
  timers := nofun
  timersNodup := List.nodup_nil
  bound := nofun
  alone := nofun

end Service

end Yasio
