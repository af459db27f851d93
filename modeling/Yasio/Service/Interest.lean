import Yasio.Service.SocketMoves

/-!
# Write interest

`do_write` watches for writing while the kernel's buffer is full, and `pollout_registerred_` mirrors
what is watched for on the socket of the transport.
-/

namespace Yasio

open Function (update)

theorem Sockets.interest_modEvent {t : Sockets} {k : SockId} (hopen : t.sock k ≠ none)
    (add remove : Interest) :
    (t.modEvent k add remove).interest k = (t.interest k).mod add remove := by
  obtain ⟨fd, hfd⟩ := Option.ne_none_iff_exists'.1 hopen
  have hsock : (t.modEvent k add remove).sock k = some fd := hfd
  unfold interest
  rw [hsock, hfd]
  unfold modEvent
  rw [hfd]
  exact (PollWatcher.interest_modEvent _ _ _ _ _).trans (if_pos rfl)

open Sockets

namespace Service

variable {s t : Service} {b : Block} {i : ℕ} {inetPton : Host → Option Ip}

/-- `pollout_registerred_` of `b` is what the watcher has for its socket. -/
def Mirrors (s : Service) (b : Block) : Prop :=
  (s.tx b).pollout = (s.interest (s.built b).sock).write

/-! ## The end of do_write -/

theorem Mirrors.afterWrite (h : s.Mirrors b) (hopen : s.sock (s.built b).sock ≠ none)
    (pending : List SendOp) (error : Int) : (s.afterWrite b pending error).Mirrors b := by
  have hmod : ∀ add remove,
      ((s.modEvent (s.built b).sock add remove).interest (s.built b).sock) =
        (s.interest (s.built b).sock).mod add remove := fun add remove =>
    interest_modEvent (t := s.toSockets) hopen add remove
  unfold Mirrors at h ⊢
  unfold Service.afterWrite
  by_cases hfull : pending ≠ [] ∧ (error = EWOULDBLOCK ∨ error = EAGAIN ∨ error = ENOBUFS)
  · simp only [if_pos hfull, Function.update_self]
    cases hp : (s.tx b).pollout with
    | false =>
      rw [if_neg Bool.false_ne_true]
      refine Eq.trans ?_ (congrArg Interest.write (hmod { write := true } .none)).symm
      simp [Interest.mod, Interest.none]
    | true =>
      rw [if_pos rfl]
      exact hp.symm.trans h
  · simp only [if_neg hfull, Function.update_self]
    cases hp : (s.tx b).pollout with
    | false =>
      rw [if_neg Bool.false_ne_true]
      exact hp.symm.trans h
    | true =>
      rw [if_pos rfl]
      refine Eq.trans ?_ (congrArg Interest.write (hmod .none { write := true })).symm
      simp [Interest.mod, Interest.none]

/-- The socket is watched for writing, or the loop does not wait. -/
def Awake (s : Service) (b : Block) : Prop :=
  (s.tx b).pollout = true ∧ (s.interest (s.built b).sock).write = true ∨ s.waitDuration = 0

/-- `do_write` whose last test of the queue finds operations does not go to sleep on them. -/
theorem Mirrors.awake_afterWrite (h : s.Mirrors b) (hopen : s.sock (s.built b).sock ≠ none)
    {pending : List SendOp} (hpending : pending ≠ []) (error : Int) :
    (s.afterWrite b pending error).Awake b := by
  by_cases hfull : error = EWOULDBLOCK ∨ error = EAGAIN ∨ error = ENOBUFS
  · left
    have hpollout : ((s.afterWrite b pending error).tx b).pollout = true := by
      unfold Service.afterWrite
      simp only [if_pos (And.intro hpending hfull), Function.update_self]
    have hmirrors := h.afterWrite hopen pending error
    unfold Mirrors at hmirrors
    exact ⟨hpollout, hmirrors.symm.trans hpollout⟩
  · right
    unfold Service.afterWrite
    simp only [if_neg (show ¬ (pending ≠ [] ∧ _) from fun hand => hfull hand.2), if_neg hpending]

/-- `do_write` that returns `true` ends with its last test of the queue. -/
theorem exists_afterWrite {send : RawSend} (htrue : s.doWrite b send = (t, true)) :
    ∃ (u : Service) (pending : List SendOp) (error : Int), u.toSockets = s.toSockets ∧
      u.tx = s.tx ∧ u.built = s.built ∧ s.sock (s.built b).sock ≠ none ∧
        t = u.afterWrite b pending error := by
  unfold Service.doWrite at htrue
  dsimp only at htrue
  split at htrue
  · cases htrue
  · next hopen =>
    split at htrue
    · cases htrue
      exact ⟨s, [], 0, rfl, rfl, rfl, hopen, rfl⟩
    · next op rest hqueue =>
      split at htrue
      · cases htrue
      · next left error hcall =>
        cases htrue
        refine ⟨s.recordSent b op send, left.toList ++ rest, error, ?_, ?_, ?_, hopen, rfl⟩
        · cases send <;> rfl
        · cases send <;> rfl
        · cases send <;> rfl

/-! ## The turn of a transport -/

theorem mirrors_congr (hsockets : t.toSockets = s.toSockets) (htx : t.tx = s.tx)
    (hbuilt : t.built = s.built) : t.Mirrors b ↔ s.Mirrors b := by
  unfold Mirrors
  rw [hsockets, htx, hbuilt]

theorem Mirrors.doWrite (h : s.Mirrors b) {send : RawSend} {ok : Bool}
    (hwrite : s.doWrite b send = (t, ok)) : t.Mirrors b := by
  cases ok with
  | true =>
    obtain ⟨u, pending, error, hsockets, htx, hbuilt, hopen, rfl⟩ := exists_afterWrite hwrite
    apply Mirrors.afterWrite
    · exact (mirrors_congr hsockets htx hbuilt).2 h
    · rw [hsockets, hbuilt]
      exact hopen
  | false =>
    unfold Service.doWrite at hwrite
    dsimp only at hwrite
    split at hwrite
    · cases hwrite
      exact h
    · split at hwrite
      · cases hwrite
      · split at hwrite
        · cases hwrite
          exact h
        · cases hwrite

/-- Reading changes neither what is watched for nor the queues. -/
theorem beforeRead_frame (s : Service) (b : Block) (a : TransportAnswers) :
    (s.beforeRead b a).toSockets = s.toSockets ∧ (s.beforeRead b a).tx = s.tx ∧
      (s.beforeRead b a).built = s.built := by
  unfold beforeRead
  dsimp only
  split
  · cases a.handshake <;> exact ⟨rfl, rfl, rfl⟩
  · unfold receiveFrom
    dsimp only
    split <;> exact ⟨rfl, rfl, rfl⟩

theorem doRead_frame {a : TransportAnswers} {ok : Bool} (h : s.doRead b a = .ok (t, ok)) :
    t.toSockets = s.toSockets ∧ t.tx = s.tx ∧ t.built = s.built := by
  unfold Service.doRead at h
  dsimp only at h
  split at h
  · cases h
    exact ⟨rfl, rfl, rfl⟩
  · rw [← (s.beforeRead_frame b a).1, ← (s.beforeRead_frame b a).2.1,
      ← (s.beforeRead_frame b a).2.2]
    generalize s.beforeRead b a = u at h
    split at h
    · cases h
      exact ⟨rfl, rfl, rfl⟩
    generalize Rx.doRead _ _ _ _ _ = r at h
    cases r with
    | error e => cases h
    | ok r =>
      have h : u.afterRead b r = (t, ok) := by simpa [Except.map] using h
      rw [← show (u.afterRead b r).1 = t from congrArg Prod.fst h]
      unfold afterRead
      cases r.verdict <;> exact ⟨rfl, rfl, rfl⟩

/-- After `do_read` and `do_write` the flag of the transport still mirrors the watcher. -/
theorem Mirrors.exists_turnEnd (h : s.Mirrors b) (n : ℕ) (a : TransportAnswers) :
    ∃ s', Settled b (s.atRead b a) s' ∧ TurnEnd n b a.tail s' (s.visitTransport n b a) ∧
      s'.Mirrors b := by
  have hread : ∀ {u : Service} {ok : Bool}, s.doRead b a = .ok (u, ok) → u.Mirrors b := by
    intro u ok hu
    obtain ⟨hsockets, htx, hbuilt⟩ := doRead_frame hu
    exact (mirrors_congr hsockets htx hbuilt).2 h
  have hends : ∀ {u : Service} (ok : Bool), Settled b (s.atRead b a) u → u.Mirrors b →
      ∃ s', Settled b (s.atRead b a) s' ∧ TurnEnd n b a.tail s' (u.endTransport n b a.tail ok) ∧
        s'.Mirrors b := by
    intro u ok hu hmirrors
    unfold endTransport
    cases ok with
    | false => exact ⟨u, hu, .dropped, hmirrors⟩
    | true =>
      rw [if_pos rfl]
      split
      · let base : IoBase :=
          { u.io b with
            error := if (u.io b).error = 0 then Errc.shutdownByLocalhost else (u.io b).error }
        exact ⟨u.setIo b base, hu.trans (.setIo rfl), .dropped, hmirrors⟩
      · next hasked => exact ⟨u, hu, .kept (by simpa using hasked), hmirrors⟩
  unfold visitTransport
  match hu : s.doRead b a with
  | .error e =>
    obtain ⟨hsockets, htx, hbuilt⟩ := s.beforeRead_frame b a
    rw [atRead_of_error hu]
    exact ⟨_, .refl b _, .thrown, (mirrors_congr hsockets htx hbuilt).2 h⟩
  | .ok (u, false) => exact hends false (settled_doRead hu) (hread hu)
  | .ok (u, true) =>
    exact hends _ ((settled_doRead hu).trans (settled_doWrite a.send))
      ((hread hu).doWrite (t := (u.doWrite b a.send).1) rfl)

/-! ## The invariant -/

/-- Each transport has its own open socket, whose interest its flag mirrors, and the channel whose
socket it is on has nothing to connect. -/
structure Mirrored (s : Service) : Prop extends s.Placed where
  opened : ∀ b ∈ s.transports, s.sock (s.built b).sock ≠ none
  mirrors : ∀ b ∈ s.transports, s.Mirrors b
  single : ∀ b ∈ s.transports, ∀ b' ∈ s.transports, (s.built b).sock = (s.built b').sock → b = b'
  connected : ∀ b ∈ s.transports, (s.built b).sock < s.channelCount →
    (s.chan (s.built b).sock).state = .opened

/-- What a step that is not about the transport `b` leaves of it. -/
structure Kept (b : Block) (s t : Service) : Prop where
  built : (t.built b).sock = (s.built b).sock
  pollout : (t.tx b).pollout = (s.tx b).pollout
  sock : t.sock (s.built b).sock = s.sock (s.built b).sock
  interest : t.interest (s.built b).sock = s.interest (s.built b).sock
  state : (s.built b).sock < s.channelCount →
    (t.chan (s.built b).sock).state = (s.chan (s.built b).sock).state

theorem Kept.mirrors (h : Kept b s t) (hb : s.Mirrors b) : t.Mirrors b := by
  unfold Mirrors at hb ⊢
  rw [h.built, h.pollout, h.interest]
  exact hb

theorem Kept.of_same (hsockets : t.toSockets = s.toSockets) (hbuilt : t.built = s.built)
    (hpollout : (t.tx b).pollout = (s.tx b).pollout)
    (hstate : ∀ i, (t.chan i).state = (s.chan i).state) : Kept b s t := by
  refine ⟨by rw [hbuilt], hpollout, ?_, ?_, fun _ => hstate _⟩
  · rw [hsockets]
  · rw [hsockets]

/-- A step that is about the transport `c` at most. -/
theorem Mirrored.of_kept (h : s.Mirrored) (ht : t.Placed) (hcount : t.channelCount = s.channelCount)
    (c : Block) (hkept : ∀ b ∈ t.transports, b ≠ c → b ∈ s.transports ∧ Kept b s t)
    (hopened : c ∈ t.transports → t.sock (t.built c).sock ≠ none)
    (hmirrors : c ∈ t.transports → t.Mirrors c)
    (hsingle : c ∈ t.transports → ∀ b ∈ s.transports, b ≠ c → (s.built b).sock ≠ (t.built c).sock)
    (hconnected : c ∈ t.transports → (t.built c).sock < s.channelCount →
      (t.chan (t.built c).sock).state = .opened) : t.Mirrored := by
  refine ⟨ht, ?_, ?_, ?_, ?_⟩
  · intro b hb
    by_cases hc : b = c
    · subst hc
      exact hopened hb
    · obtain ⟨hmem, hk⟩ := hkept b hb hc
      rw [hk.built, hk.sock]
      exact h.opened b hmem
  · intro b hb
    by_cases hc : b = c
    · subst hc
      exact hmirrors hb
    · obtain ⟨hmem, hk⟩ := hkept b hb hc
      exact hk.mirrors (h.mirrors b hmem)
  · intro b hb b' hb' hsame
    by_cases hc : b = c
    · by_cases hc' : b' = c
      · rw [hc, hc']
      · obtain ⟨hmem, hk⟩ := hkept b' hb' hc'
        subst hc
        exact absurd (hk.built.symm.trans hsame.symm) (hsingle hb b' hmem hc')
    · obtain ⟨hmem, hk⟩ := hkept b hb hc
      by_cases hc' : b' = c
      · subst hc'
        exact absurd (hk.built.symm.trans hsame) (hsingle hb' b hmem hc)
      · obtain ⟨hmem', hk'⟩ := hkept b' hb' hc'
        exact h.single b hmem b' hmem' (hk.built.symm.trans (hsame.trans hk'.built))
  · intro b hb hlt
    rw [hcount] at hlt
    by_cases hc : b = c
    · subst hc
      exact hconnected hb hlt
    · obtain ⟨hmem, hk⟩ := hkept b hb hc
      rw [hk.built] at hlt ⊢
      rw [hk.state hlt]
      exact h.connected b hmem hlt

/-- A step that is about no transport. -/
theorem Mirrored.of_all (h : s.Mirrored) (ht : t.Placed) (hcount : t.channelCount = s.channelCount)
    (hkept : ∀ b ∈ t.transports, b ∈ s.transports ∧ Kept b s t) : t.Mirrored := by
  have hfresh : s.freshBlock ∉ t.transports := fun hmem =>
    h.sound.ne_freshBlock (hkept _ hmem).1 rfl
  exact h.of_kept ht hcount s.freshBlock (fun b hb _ => hkept b hb) (fun hmem => absurd hmem hfresh)
    (fun hmem => absurd hmem hfresh) (fun hmem => absurd hmem hfresh) fun hmem => absurd hmem hfresh

/-- No transport is on a socket that is closed or opened for something else: not on the socket of a
channel whose masks are taken up, nor on that of a client channel one of whose other transports is
closed. -/
def SocketsKept (s : Service) : Action → Prop
  | .transport a => ∀ x ∈ s.transportTurn, s.closes x.1 x.2 a = true →
      testbits (s.kind (s.built x.2).ctx) Ycm.client = true →
        ∀ b ∈ s.transports, b ≠ x.2 → (s.built b).sock ≠ (s.built x.2).ctx
  | .channel _ => ∀ i ∈ s.channelTurn,
      (s.chan i).opOpen = true ∨
          testbits (s.kind i) Ycm.client = false ∧ (s.chan i).opClose = true →
        ∀ b ∈ s.transports, (s.built b).sock ≠ i
  | _ => True

instance (s : Service) (a : Action) : Decidable (s.SocketsKept a) := by
  unfold SocketsKept
  induction a using Action.casesOn <;> infer_instance

theorem chan_dropTransport (hclient : testbits (s.kind (s.built b).ctx) Ycm.client = false)
    (n tail : ℕ) : (s.dropTransport n b tail).chan = s.chan := by
  unfold dropTransport handleClose
  dsimp only
  rw [if_neg]
  · rfl
  · rw [show testbits _ Ycm.client = false from hclient]
    exact Bool.false_ne_true

theorem Mirrored.visitTransport (h : s.Mirrored) {n : ℕ} (hb : s.transports[n]? = some b)
    (a : TransportAnswers) (ht : (s.visitTransport n b a).Placed)
    (hcond : s.closes n b a = true → testbits (s.kind (s.built b).ctx) Ycm.client = true →
      ∀ b' ∈ s.transports, b' ≠ b → (s.built b').sock ≠ (s.built b).ctx) :
    (s.visitTransport n b a).Mirrored := by
  have hmem : b ∈ s.transports := List.mem_of_getElem? hb
  obtain ⟨s', hs', hend, hmirrors⟩ := (h.mirrors b hmem).exists_turnEnd n a
  have htouched : Touched b s s' := (s.touched_atRead (b := b) a).trans hs'.toTouched
  have hpool : s'.toPool = s.toPool := htouched.pool
  have hchan : s'.chan = s.chan := congrArg Channels.chan htouched.channels
  have hkind : s'.kind = s.kind := congrArg Channels.kind htouched.channels
  have hcount : s'.channelCount = s.channelCount :=
    congrArg Channels.channelCount htouched.channels
  have hbuilt : s'.built = s.built := congrArg Pool.built hpool
  have hmoves := moves_touched htouched
  have hne : ∀ b' ∈ s.transports, b' ≠ b → (s.built b').sock ≠ (s.built b).sock :=
    fun b' hb' hne hsame => hne (h.single b' hb' b hmem hsame)
  have hkept : ∀ b' ∈ s.transports, b' ≠ b → Kept b' s s' := by
    intro b' hb' hother
    have hspares := Moves.spares hmoves h.sockets (hne b' hb' hother) (h.bound b' hb').2.1
    exact ⟨by rw [hbuilt], by rw [htouched.tx b' hother], hspares.sock, hspares.interest,
      fun _ => by rw [hchan]⟩
  have hstays : ∀ {u : Service}, u.Placed → u.toPool = s'.toPool → u.tx = s'.tx →
      u.toSockets = s'.toSockets → u.chan = s'.chan → u.channelCount = s'.channelCount →
        u.Mirrored := by
    intro u hplaced hp htx hsockets hchan' hcount'
    have hbuilt' : u.built = s.built := (congrArg Pool.built hp).trans hbuilt
    refine h.of_kept hplaced (hcount'.trans hcount) b (fun b' hb' hother => ?_) (fun _ => ?_)
      (fun _ => ?_) (fun _ b' hb' hother => ?_) (fun _ hlt => ?_)
    · rw [hp, hpool] at hb'
      obtain ⟨hb₁, hb₂, hb₃, hb₄, hb₅⟩ := hkept b' hb' hother
      refine ⟨hb', by rw [hbuilt'], by rw [htx, hb₂], by rw [hsockets, hb₃], by rw [hsockets, hb₄],
        fun hlt => ?_⟩
      rw [hchan', hb₅ hlt]
    · rw [hbuilt', hsockets, htouched.sock_eq]
      exact h.opened b hmem
    · exact (mirrors_congr hsockets htx (congrArg Pool.built hp)).2 hmirrors
    · rw [hbuilt']
      exact hne b' hb' hother
    · rw [hbuilt'] at hlt ⊢
      rw [hchan', hchan]
      exact h.connected b hmem hlt
  generalize hu : s.visitTransport n b a = u at hend ht
  cases hend with
  | thrown | kept hasked => exact hstays ht rfl rfl rfl rfl rfl
  | dropped =>
    have hcloses : s.closes n b a = true :=
      closes_dropTransport hb (congrArg Pool.transports hpool) hu
    have hout : ∀ b' ∈ (s'.dropTransport n b a.tail).transports, b' ∈ s.transports ∧ b' ≠ b := by
      intro b' hb'
      obtain ⟨chan, io, sockets, heq, -⟩ := s'.exists_dropTransport n b a.tail
      rw [heq] at hb'
      exact (Pool.mem_release h.sound hb).1 (hpool ▸ hb')
    refine h.of_all ht ?_ fun b' hb' => ?_
    · obtain ⟨chan, io, sockets, heq, -⟩ := s'.exists_dropTransport n b a.tail
      rw [heq]
      exact hcount
    · obtain ⟨hb', hother⟩ := hout b' hb'
      obtain ⟨hb₁, hb₂, hb₃, hb₄, hb₅⟩ := hkept b' hb' hother
      have hspared :
          Spares (s.built b').sock s'.toSockets (s'.dropTransport n b a.tail).toSockets := by
        apply Moves.spares (s'.moves_dropTransport n b a.tail) (Moves.sound hmoves h.sockets)
        · rintro (heq | ⟨heq, hclient⟩)
          · rw [hbuilt] at heq
            exact hne b' hb' hother heq
          · rw [hbuilt] at heq hclient
            rw [hkind] at hclient
            exact hcond hcloses hclient b' hb' hother heq
        · exact (h.bound b' hb').2.1.trans_le (Moves.frame hmoves).1
      have hstate : (s.built b').sock < s.channelCount →
          ((s'.dropTransport n b a.tail).chan (s.built b').sock) = s'.chan (s.built b').sock := by
        intro hlt
        by_cases hctx : (s.built b').sock = (s.built b).ctx
        · have hclient : testbits (s'.kind (s'.built b).ctx) Ycm.client = false := by
            rw [hbuilt, hkind]
            cases hclient : testbits (s.kind (s.built b).ctx) Ycm.client with
            | false => rfl
            | true => exact absurd hctx (hcond hcloses hclient b' hb' hother)
          rw [chan_dropTransport hclient]
        · obtain ⟨chan, io, sockets, heq, hsame⟩ := s'.exists_dropTransport n b a.tail
          rw [heq]
          exact hsame _ (by rw [hbuilt]; exact hctx)
      obtain ⟨chan, io, sockets, heq, -⟩ := s'.exists_dropTransport n b a.tail
      refine ⟨hb', ?_, ?_, hspared.sock.trans hb₃, hspared.interest.trans hb₄, fun hlt => ?_⟩
      · rw [heq]
        change (s'.built b').sock = _
        rw [hbuilt]
      · rw [heq]
        change (update s'.tx b {} b').pollout = _
        rw [Function.update_of_ne hother]
        exact hb₂
      · rw [hstate hlt]
        exact hb₅ hlt

/-! ## The turn of a channel -/

/-- A turn of channel `i` makes no transport, or one on an open socket that is not watched for
writing. -/
def Fitted (i : ℕ) (s t : Service) : Prop :=
  t.toPool = s.toPool ∧ t.tx = s.tx ∨
    t.tx = update s.tx s.freshBlock {} ∧
      ∃ k, (t.built s.freshBlock).sock = k ∧ t.sock k ≠ none ∧ (t.interest k).write = false ∧
        (k = i → (t.chan i).state = .opened)

theorem write_tuneNew {t : Sockets} {k : SockId} (hopen : t.sock k ≠ none)
    (hwrite : (t.interest k).write = false) (client : Bool) (sockPeer : SockId → Endpoint) :
    ({ tuneNew client k t with sockPeer } : Sockets).sock k ≠ none ∧
      (({ tuneNew client k t with sockPeer } : Sockets).interest k).write = false := by
  cases client with
  | true => exact ⟨hopen, hwrite⟩
  | false =>
    refine ⟨hopen, ?_⟩
    refine (congrArg Interest.write (interest_modEvent hopen { read := true } .none)).trans ?_
    simp [Interest.mod, Interest.none, hwrite]

theorem fitted_establish {u : Service} (hpool : u.toPool = s.toPool) (htx : u.tx = s.tx)
    {client : Bool} (hclient : testbits (u.kind i) Ycm.client = client) {k : SockId}
    (hopen : u.sock k ≠ none) (hwrite : (u.interest k).write = false)
    (hne : client = false → k ≠ i) (interval : ℕ) (ok : Bool) :
    Fitted i s (u.establish i k interval ok) := by
  have hfresh : u.freshBlock = s.freshBlock := congrArg Pool.freshBlock hpool
  have hbuilt := congrArg (fun p => (Pool.built p u.freshBlock).sock)
    (u.toPool_establish (i := i) k interval ok)
  have htx' := (connected_establish (s := u) (i := i) k interval ok).tx
  rw [hfresh] at htx'
  obtain ⟨sockPeer, hsockets⟩ := u.sockets_establish hclient k interval ok
  obtain ⟨hsock, hinterest⟩ := write_tuneNew (t := u.toSockets) hopen hwrite client sockPeer
  refine .inr ⟨by rw [htx', htx], k, ?_, ?_, ?_, fun hk => ?_⟩
  · rw [← hfresh]
    refine hbuilt.trans ?_
    exact congrArg Built.sock (Pool.built_connect_freshBlock (p := u.toPool) _)
  · rw [hsockets]
    exact hsock
  · rw [hsockets]
    exact hinterest
  · rw [state_establish, hclient]
    cases client with
    | true => rfl
    | false => exact absurd hk (hne rfl)

/-- A socket that was opened a moment ago is not watched. -/
theorem interest_openSock {t : Sockets} (h : t.Sound) {k : SockId} {fd : Fd}
    (hfd : t.fdFree fd = true) : (t.openSock k fd).interest k = .none := by
  unfold Sockets.interest
  rw [show (t.openSock k fd).sock k = some fd from Function.update_self _ _ _]
  exact h.interest_of_fdFree hfd

theorem left_unbound {s₁ : Service} (h : Resolves i s s₁) :
    (s₁.unbound i).toPool = s.toPool ∧ (s₁.unbound i).tx = s.tx := by
  have hres : s₁.toPool = s.toPool ∧ s₁.tx = s.tx := by
    obtain ⟨net, queries, options, error, rfl⟩ := h
    exact ⟨rfl, rfl⟩
  rw [← hres.1, ← hres.2]
  unfold unbound
  dsimp only
  split <;> exact ⟨rfl, rfl⟩

theorem fitted_clientTurn {a : ChannelAnswers} (hs : s.toSockets.Sound) (hlt : i < s.nextSock)
    (hclient : testbits (s.kind i) Ycm.client = true) (h : ClientTurn i a s t) : Fitted i s t := by
  have hres : ∀ {s₁ : Service}, Resolves i s s₁ → s₁.toPool = s.toPool ∧ s₁.tx = s.tx := by
    rintro s₁ ⟨net, queries, options, error, rfl⟩
    exact ⟨rfl, rfl⟩
  cases h with
  | idle hstate | pending hstate hready => exact .inl ⟨rfl, rfl⟩
  | waits hstate h herror => exact .inl (hres h)
  | unresolved hstate h error =>
    obtain ⟨hpool, htx⟩ := hres h
    exact .inl ⟨hpool, htx⟩
  | noSocket hstate h error | refused hstate h fd hfd error | starts hstate h fd hfd =>
    obtain ⟨hpool, htx⟩ := left_unbound h
    rw [Fitted, ← hpool, ← htx]
    exact .inl ⟨rfl, rfl⟩
  | @connects hstate s₁ h fd hfd =>
    let u := (s₁.unbound i).attempted i fd
    have hsound : (s₁.unbound i).toSockets.Sound :=
      Moves.sound (s₁.moves_unbound i).1 (sockets_resolves h ▸ hs)
    have hopen : u.sock i ≠ none := by
      rw [(moves_connecting hlt h hfd).2]
      exact nofun
    have hwatch : u.interest i = .none := by
      have hinterest := interest_openSock (k := i) hsound hfd
      exact hinterest
    have hclient' : testbits ((u.modEvent i { read := true } .none).kind i) Ycm.client = true := by
      rw [show (u.modEvent i { read := true } .none).kind = s.kind from
        (s₁.kind_unbound i).trans (Bare.of_resolves h).kind]
      exact hclient
    refine fitted_establish (u := u.modEvent i { read := true } .none) (left_unbound h).1
      (left_unbound h).2 hclient' hopen ?_ nofun _ _
    refine (congrArg Interest.write (interest_modEvent (t := u.toSockets) hopen _ _)).trans ?_
    rw [hwatch]
    rfl
  | completes hstate hready =>
    let u := (s.ask i connectReady).modEvent i .none { write := true }
    have hopen : s.sock i ≠ none := sock_of_ready hready
    have hwrite : (u.interest i).write = false := by
      refine (congrArg Interest.write
        (interest_modEvent (t := s.toSockets) hopen .none { write := true })).trans ?_
      simp [Interest.mod]
    obtain ⟨timers, heq⟩ := (u.establish i i a.interval a.dgramConnect).exists_cancelTimer
      (.connect i)
    rw [heq]
    have hclient' : testbits (u.kind i) Ycm.client = true := hclient
    exact fitted_establish (u := u) rfl rfl hclient' hopen hwrite nofun a.interval a.dgramConnect
  | fails hstate hready error =>
    obtain ⟨timers, heq⟩ :=
      ((s.ask i connectReady).handleConnectFailed i error).exists_cancelTimer (.connect i)
    rw [heq]
    exact .inl ⟨rfl, rfl⟩

theorem fitted_serverTurn {a : ChannelAnswers} (hs : s.toSockets.Sound) (hlt : i < s.nextSock)
    (hclient : testbits (s.kind i) Ycm.client = false) (h : ServerTurn i a s t) : Fitted i s t := by
  have hnew : ∀ {fd : Fd} (peer : Endpoint), s.fdFree fd = true →
      (s.toSockets.newSock fd peer).sock s.nextSock ≠ none ∧
        ((s.toSockets.newSock fd peer).interest s.nextSock).write = false := by
    intro fd peer hfd
    have hwatch := interest_openSock (k := s.nextSock) hs hfd
    refine ⟨?_, congrArg Interest.write hwatch⟩
    rw [show (s.toSockets.newSock fd peer).sock s.nextSock = some fd from
      Function.update_self _ _ _]
    exact nofun
  have hne : s.nextSock ≠ i := Nat.ne_of_gt hlt
  cases h with
  | closed hstate | unready hready | nothing hready | lost hready => exact .inl ⟨rfl, rfl⟩
  | accepts hready fd hfd =>
    obtain ⟨hopen, hwrite⟩ := hnew a.acceptPeer hfd
    exact fitted_establish (u := (s.ask i { read := true }).newSock fd a.acceptPeer) rfl rfl hclient
      hopen hwrite (fun _ => hne) _ _
  | datagram hready b hfind =>
    have hreceived := received_handleInput (i := i)
      (s := (s.ask i { read := true }).deliver i a.peer b) b a.datagram.data a.input
    exact .inl ⟨hreceived.pool, hreceived.tx⟩
  | newPeer hready hfind fd hfd =>
    let u := s.ask i { read := true }
    have hreceived := received_handleInput (i := i) (s := (u.acceptPeer i a.peer fd a).deliver i
      a.peer s.freshBlock) s.freshBlock a.datagram.data a.input
    obtain ⟨chan, udp, sockPeer, transportMap, mapKey, client, -, heq⟩ :=
      acceptPeer_eq (s := u) hclient a.peer fd a
    obtain ⟨hopen, hwrite⟩ := hnew .unspec hfd
    obtain ⟨hsock, hinterest⟩ := write_tuneNew hopen hwrite client sockPeer
    have hsockets : (((u.acceptPeer i a.peer fd a).deliver i a.peer s.freshBlock).handleInput
        s.freshBlock a.datagram.data a.input).toSockets =
          { tuneNew client s.nextSock (s.toSockets.newSock fd .unspec) with sockPeer } := by
      rw [hreceived.sockets]
      change (u.acceptPeer i a.peer fd a).toSockets = _
      rw [heq]
      rfl
    have htx := (connected_acceptPeer (s := u) (i := i) a.peer fd a).tx
    refine .inr ⟨hreceived.tx.trans htx, s.nextSock, ?_, ?_, ?_, fun hk => absurd hk hne⟩
    · rw [hreceived.pool]
      change ((u.acceptPeer i a.peer fd a).toPool.built s.freshBlock).sock = s.nextSock
      rw [u.toPool_acceptPeer a.peer fd a]
      exact congrArg Built.sock (Pool.built_connect_freshBlock (p := s.toPool) _)
    · rw [hsockets]
      exact hsock
    · rw [hsockets]
      exact hinterest

theorem Fitted.of_left {s₁ : Service} (hpool : s₁.toPool = s.toPool) (htx : s₁.tx = s.tx)
    (h : Fitted i s₁ t) : Fitted i s t := by
  unfold Fitted at h ⊢
  rwa [hpool, htx] at h

theorem fitted_visitChannel (inetPton : Host → Option Ip) (hs : s.toSockets.Sound)
    (hlt : i < s.nextSock) (n : ℕ) (a : ChannelAnswers) :
    Fitted i s (s.visitChannel inetPton n i a) := by
  cases hclient : testbits (s.kind i) Ycm.client with
  | true =>
    obtain ⟨t, hturn, ht⟩ := exists_clientTurn inetPton n a hclient
    have hsockets := s.sockets_takeOpen i
    have htx : (s.takeOpen i).tx = s.tx := by
      unfold Service.takeOpen
      split <;> rfl
    have hfit : Fitted i s t := by
      apply Fitted.of_left (s.toPool_takeOpen i) htx
      exact fitted_clientTurn (hsockets ▸ hs) (hsockets ▸ hlt) (s.kind_takeOpen i ▸ hclient) hturn
    rcases ht with ⟨-, ht⟩ | ⟨-, ht⟩
    · rw [ht]
      exact hfit
    · rw [ht]
      exact hfit
  | false =>
    obtain ⟨t, hturn, ht⟩ := exists_serverTurn inetPton n a hclient
    have hfit : Fitted i s t := by
      rcases hturn with rfl | ⟨s₁, hmask, hserver⟩
      · exact .inl ⟨rfl, rfl⟩
      · obtain ⟨hpool, hnext⟩ := pool_maskTurn hmask
        have htx : s₁.tx = s.tx := by cases hmask <;> rfl
        have hclient' : testbits (s₁.kind i) Ycm.client = false := by
          rw [kind_maskTurn hmask]
          exact hclient
        apply Fitted.of_left hpool htx
        exact fitted_serverTurn (Moves.sound (moves_maskTurn hlt hmask) hs) (hnext ▸ hlt) hclient'
          hserver
    rcases ht with ht | ht
    · rw [ht]
      exact hfit
    · rw [ht]
      exact hfit

/-- The turn of a client channel that is connected and has no request does nothing. -/
theorem visitChannel_of_opened (inetPton : Host → Option Ip)
    (hclient : testbits (s.kind i) Ycm.client = true) (hstate : (s.chan i).state = .opened)
    (hopen : (s.chan i).opOpen = false) (n : ℕ) (a : ChannelAnswers) :
    ∃ ops phase, s.visitChannel inetPton n i a = { s with channelOps := ops, phase := phase } := by
  obtain ⟨t, hturn, ht⟩ := exists_clientTurn inetPton n a hclient
  rw [takeOpen_of_not_opOpen hopen] at hturn
  have hidle : t = s := by
    cases hturn with
    | idle hidle | pending hidle hready => rfl
    | waits hresolving h herror | unresolved hresolving h error | noSocket hresolving h error
    | refused hresolving h fd hfd error | starts hresolving h fd hfd
    | connects hresolving h fd hfd =>
      cases hstate.symm.trans hresolving
    | completes hconnecting hready | fails hconnecting hready error =>
      cases hstate.symm.trans hconnecting
  rcases ht with ⟨-, ht⟩ | ⟨-, ht⟩
  · rw [ht, hidle]
    exact ⟨_, _, rfl⟩
  · rw [ht, hidle]
    exact ⟨_, _, rfl⟩

/-- The turn of a server channel whose masks are clear leaves its own socket and state. -/
theorem spares_of_unmasked (inetPton : Host → Option Ip) (hs : s.toSockets.Sound)
    (hlt : i < s.nextSock) (hclient : testbits (s.kind i) Ycm.client = false)
    (hopen : (s.chan i).opOpen = false) (hclose : (s.chan i).opClose = false) (n : ℕ)
    (a : ChannelAnswers) :
    Spares i s.toSockets (s.visitChannel inetPton n i a).toSockets ∧
      ((s.visitChannel inetPton n i a).chan i).state = (s.chan i).state := by
  obtain ⟨t, hturn, ht⟩ := exists_serverTurn inetPton n a hclient
  have hleft : Spares i s.toSockets t.toSockets ∧ (t.chan i).state = (s.chan i).state := by
    rcases hturn with rfl | ⟨s₁, hmask, hserver⟩
    · exact ⟨.refl _ _, rfl⟩
    · have hnone : s₁ = s := by
        cases hmask with
        | none hopen' hclose' => rfl
        | closes hopen' hclose' => cases hclose.symm.trans hclose'
        | noSocket hopen' | unbound hopen' fd hfd | listens hopen' fd hsocket hfd =>
          cases hopen.symm.trans hopen'
      rw [hnone] at hserver
      refine ⟨Moves.spares (moves_serverTurn hclient hserver) hs (Nat.not_le.2 hlt) hlt, ?_⟩
      cases hserver with
      | closed hstate | unready hready | nothing hready | lost hready => rfl
      | accepts hready fd hfd =>
        let u := (s.ask i { read := true }).newSock fd a.acceptPeer
        have hclient' : testbits (u.kind i) Ycm.client = false := hclient
        have hstate := u.state_establish (i := i) s.nextSock a.interval true
        rw [hclient', if_neg Bool.false_ne_true] at hstate
        exact hstate
      | datagram hready b hfind =>
        unfold handleInput
        split
        · split <;> rfl
        · split <;> rfl
      | newPeer hready hfind fd hfd =>
        have hstate := state_acceptPeer (s := s.ask i { read := true }) hclient a.peer fd a
        refine Eq.trans ?_ hstate
        unfold handleInput
        split
        · split <;> rfl
        · split <;> rfl
  rcases ht with ht | ht
  · rw [ht]
    exact hleft
  · rw [ht]
    exact hleft

theorem Mirrored.visitChannel (h : s.Mirrored) {n : ℕ} (hi : s.channelOps[n]? = some i)
    (a : ChannelAnswers) (ht : (s.visitChannel inetPton n i a).Placed)
    (hcond : (s.chan i).opOpen = true ∨
        testbits (s.kind i) Ycm.client = false ∧ (s.chan i).opClose = true →
      ∀ b ∈ s.transports, (s.built b).sock ≠ i) : (s.visitChannel inetPton n i a).Mirrored := by
  have hlt : i < s.channelCount := h.ops i (List.mem_of_getElem? hi)
  have hlt' : i < s.nextSock := hlt.trans_le h.count
  have hmoves := moves_visitChannel inetPton hlt' n a
  have hjoined := joined_visitChannel (s := s) (i := i) inetPton n a
  have hfitted := fitted_visitChannel inetPton h.sockets hlt' n a
  have hframe : (s.visitChannel inetPton n i a).channelCount = s.channelCount ∧
      ∀ j, j ≠ i → (s.visitChannel inetPton n i a).chan j = s.chan j := by
    obtain ⟨u, hturn, hu⟩ := s.exists_channelTurn inetPton n i a
    rcases hu with hu | hu
    · rw [hu]
      exact ⟨hturn.frame.channelCount, hturn.frame.chan⟩
    · rw [hu]
      exact ⟨hturn.frame.channelCount, hturn.frame.chan⟩
  -- a transport on the channel's own socket: the channel is connected and its masks are clear
  have hown : ∀ b ∈ s.transports, (s.built b).sock = i →
      Spares i s.toSockets (s.visitChannel inetPton n i a).toSockets ∧
        ((s.visitChannel inetPton n i a).chan i).state = (s.chan i).state ∧
          (testbits (s.kind i) Ycm.client = true →
            (s.visitChannel inetPton n i a).toPool = s.toPool) := by
    intro b hb hsock
    have hopen : (s.chan i).opOpen = false := by
      cases hopen : (s.chan i).opOpen with
      | false => rfl
      | true => exact absurd hsock (hcond (.inl hopen) b hb)
    have hstate : (s.chan i).state = .opened := by
      rw [← hsock]
      exact h.connected b hb (hsock ▸ hlt)
    cases hclient : testbits (s.kind i) Ycm.client with
    | true =>
      obtain ⟨ops, phase, heq⟩ := visitChannel_of_opened inetPton hclient hstate hopen n a
      rw [heq]
      exact ⟨.refl _ _, rfl, fun _ => rfl⟩
    | false =>
      have hclose : (s.chan i).opClose = false := by
        cases hclose : (s.chan i).opClose with
        | false => rfl
        | true => exact absurd hsock (hcond (.inr ⟨hclient, hclose⟩) b hb)
      obtain ⟨hspares, hsame⟩ :=
        spares_of_unmasked inetPton h.sockets hlt' hclient hopen hclose n a
      exact ⟨hspares, hsame, nofun⟩
  generalize s.visitChannel inetPton n i a = t at *
  have hbuilt : ∀ b ∈ s.transports, (t.built b).sock = (s.built b).sock := by
    intro b hb
    rcases hjoined with ⟨hpool, -⟩ | ⟨built, -, hjoined⟩
    · rw [hpool]
    · rw [hjoined.other b (h.sound.ne_freshBlock hb)]
  have hpollout : ∀ b ∈ s.transports, (t.tx b).pollout = (s.tx b).pollout := by
    intro b hb
    rcases hfitted with ⟨-, htx⟩ | ⟨htx, -⟩
    · rw [htx]
    · rw [htx, Function.update_of_ne (h.sound.ne_freshBlock hb)]
  have hkept : ∀ b ∈ s.transports, Kept b s t := by
    intro b hb
    by_cases hsock : (s.built b).sock = i
    · obtain ⟨hspares, hstate, -⟩ := hown b hb hsock
      rw [← hsock] at hspares hstate
      exact ⟨hbuilt b hb, hpollout b hb, hspares.sock, hspares.interest, fun _ => hstate⟩
    · have hbound := (h.bound b hb).2.1
      have hspares := Moves.spares hmoves h.sockets
        (not_or.2 ⟨hsock, Nat.not_le.2 hbound⟩) hbound
      exact ⟨hbuilt b hb, hpollout b hb, hspares.sock, hspares.interest,
        fun _ => by rw [hframe.2 _ hsock]⟩
  rcases hjoined with ⟨hpool, -⟩ | ⟨built, hbuiltOn, hjoined⟩
  · refine h.of_all ht hframe.1 fun b hb => ?_
    rw [hpool] at hb
    exact ⟨hb, hkept b hb⟩
  · have hfresh : s.freshBlock ∈ t.transports := by
      rw [hjoined.transports]
      exact List.mem_append_right _ (List.mem_singleton.2 rfl)
    rcases hfitted with ⟨hpool, -⟩ | ⟨htx, k, hk, hopen, hwrite, hstate⟩
    · rw [hpool] at hfresh
      exact absurd rfl (h.sound.ne_freshBlock hfresh)
    · refine h.of_kept ht hframe.1 s.freshBlock (fun b hb hne => ?_) (fun _ => ?_) (fun _ => ?_)
        (fun _ b hb _ hsame => ?_) (fun _ hlt₁ => ?_)
      · rw [hjoined.transports, List.mem_append, List.mem_singleton] at hb
        have hb := hb.resolve_right hne
        exact ⟨hb, hkept b hb⟩
      · rw [hk]
        exact hopen
      · unfold Mirrors
        rw [hk, htx, Function.update_self, hwrite]
      · have hsame : (s.built b).sock = built.sock := hsame.trans hjoined.sock
        cases hclient : testbits (s.kind i) Ycm.client with
        | true =>
          have hpool := (hown b hb (hsame.trans (hbuiltOn.own hclient).1)).2.2 hclient
          rw [hpool] at hfresh
          exact absurd rfl (h.sound.ne_freshBlock hfresh)
        | false =>
          have hbound := (h.bound b hb).2.1
          rw [hsame, (hbuiltOn.new hclient).1] at hbound
          exact Nat.lt_irrefl _ hbound
      · have hsock := hjoined.sock
        rw [hk] at hlt₁ hsock ⊢
        cases hclient : testbits (s.kind i) Ycm.client with
        | true =>
          obtain rfl : k = i := hsock.trans (hbuiltOn.own hclient).1
          exact hstate rfl
        | false =>
          rw [hsock, (hbuiltOn.new hclient).1] at hlt₁
          exact absurd hlt₁ (Nat.not_lt.2 h.count)

/-! ## Runs -/

theorem Mirrored.timerTurn (h : s.Mirrored) {n : ℕ} (hturn : TimerTurn n s t) (ht : t.Placed) :
    t.Mirrored := by
  cases hturn with
  | ends timers htimers
  | userDone m hlast
  | userAgain m hlast time
  | late i hlast hexpired hstate =>
    exact h.of_all ht rfl fun b hb => ⟨hb, .of_same rfl rfl rfl fun _ => rfl⟩
  | timeout i hlast hexpired hstate =>
    refine h.of_all ht rfl fun b hb => ⟨hb, ?_⟩
    have hlt := h.timers i (List.mem_of_getLast? hlast)
    have hne : (s.built b).sock ≠ i := by
      rintro rfl
      exact hstate (h.connected b hb hlt)
    have hmove : Move (· = i) s.toSockets (s.toSockets.closeSock i) :=
      Move.close (K := (· = i)) i rfl
    have hspares := hmove.spares h.sockets hne (h.bound b hb).2.1
    refine ⟨rfl, rfl, hspares.sock, hspares.interest, fun _ => ?_⟩
    exact congrArg IoBase.state (Function.update_of_ne hne _ _)

theorem pollout_enqueue (op : SendOp) (dest : Option Endpoint) (b' : Block) :
    ((s.enqueue b op dest).tx b').pollout = (s.tx b').pollout := by
  change (update s.tx b _ b').pollout = _
  by_cases hb : b' = b
  · subst hb
    rw [Function.update_self]
  · rw [Function.update_of_ne hb]

theorem Mirrored.effect (h : s.Mirrored) {a : Action} (henabled : s.enabled a = true)
    (hcond : s.SocketsKept a) : (s.effect inetPton a).Mirrored := by
  have hplaced : (s.effect inetPton a).Placed := h.toPlaced.effect henabled
  -- The invariant reads the sockets, the pool, the pollout flags and the channels' states.
  have hsame : ∀ {t : Service}, t.Placed → t.channelCount = s.channelCount →
      t.toPool = s.toPool → t.toSockets = s.toSockets →
        (∀ b, (t.tx b).pollout = (s.tx b).pollout) →
          (∀ i, (t.chan i).state = (s.chan i).state) → t.Mirrored := by
    intro t ht hcount hpool hsockets hpollout hstate
    refine h.of_all ht hcount fun b hb => ⟨hpool ▸ hb, ?_⟩
    exact .of_same hsockets (congrArg Pool.built hpool) (hpollout b) hstate
  cases a with
  | transport a =>
    obtain ⟨n, hn, ⟨-, heq⟩ | ⟨b, hb, heq⟩⟩ := transport_cases inetPton henabled
    · rw [heq] at hplaced ⊢
      exact hsame hplaced rfl rfl rfl (fun _ => rfl) fun _ => rfl
    · rw [heq] at hplaced ⊢
      exact h.visitTransport hb a hplaced (hcond (n, b) (mem_transportTurn hn hb))
  | channel a =>
    obtain ⟨n, hn, ⟨-, heq⟩ | ⟨i, hi, heq⟩⟩ := channel_cases inetPton henabled
    · rw [heq] at hplaced ⊢
      exact hsame hplaced rfl rfl rfl (fun _ => rfl) fun _ => rfl
    · rw [heq] at hplaced ⊢
      exact h.visitChannel hi a hplaced (hcond i (mem_channelTurn hn hi))
  | timer again =>
    obtain ⟨n, hn, heq⟩ := timer_cases inetPton henabled
    rw [heq] at hplaced ⊢
    exact h.timerTurn (exists_timerTurn n again) hplaced
  | poll answer =>
    exact h.of_all hplaced rfl fun b hb => ⟨hb, rfl, rfl, rfl, rfl, fun _ => rfl⟩
  | openMask n => exact hsame hplaced rfl rfl rfl (fun _ => rfl) (s.state_openMask n)
  | closeChannel i =>
    exact hsame hplaced rfl rfl rfl (fun _ => rfl) (state_setChan (s.state_closedChan i))
  | stop => exact hsame hplaced rfl rfl rfl (fun _ => rfl) s.state_stop
  | answer n result =>
    cases result with
    | ok result => exact hsame hplaced rfl rfl rfl (fun _ => rfl) fun _ => rfl
    | error error =>
      exact hsame hplaced rfl rfl rfl (fun _ => rfl) (s.state_storeAnswer n (.error error))
  -- A packet is queued; asking for write events is left to the next turn of the worker.
  | write b data dest =>
    exact hsame hplaced rfl rfl rfl (pollout_enqueue _ dest) fun _ => rfl
  | writeQueue data dest =>
    exact hsame hplaced rfl rfl rfl (pollout_enqueue _ dest) fun _ => rfl
  | udpConnect b ok =>
    obtain ⟨udp, sockPeer, heq, -⟩ := s.exists_udpConnect b ok
    dsimp only [Service.effect] at hplaced ⊢
    rw [heq] at hplaced ⊢
    exact h.of_all hplaced rfl fun b hb => ⟨hb, rfl, rfl, rfl, rfl, fun _ => rfl⟩
  | udpDisconnect b =>
    exact h.of_all hplaced rfl fun b hb => ⟨hb, rfl, rfl, rfl, rfl, fun _ => rfl⟩
  | cancelTimer n =>
    obtain ⟨timers, heq⟩ := s.exists_cancelTimer (.user n)
    dsimp only [Service.effect] at hplaced ⊢
    rw [heq] at hplaced ⊢
    exact hsame hplaced rfl rfl rfl (fun _ => rfl) fun _ => rfl
  | join =>
    obtain ⟨events, heq, -⟩ := s.exists_join
    dsimp only [Service.effect] at hplaced ⊢
    rw [heq] at hplaced ⊢
    exact hsame hplaced rfl rfl rfl (fun _ => rfl) fun _ => rfl
  | finishStop =>
    have hnil := h.toOrderly.transports_of_finishStop henabled
    dsimp only [Service.effect] at hplaced ⊢
    rw [h.toOrderly.finishStop_eq henabled] at hplaced ⊢
    refine h.of_all hplaced rfl fun b hb => ?_
    have hb : b ∈ s.transports := hb
    rw [hnil] at hb
    cases hb
  | _ => exact hsame hplaced rfl rfl rfl (fun _ => rfl) fun _ => rfl

theorem mirrored_fresh (channelCount : ℕ) (options : Options) (uparams : ℕ → UnpackParams) :
    (Service.fresh channelCount options uparams).Mirrored :=
  ⟨placed_fresh channelCount options uparams, nofun, nofun, nofun, nofun⟩

theorem Mirrors.awake_doWrite (h : s.Mirrors b) {send : RawSend}
    (hwrite : s.doWrite b send = (t, true)) (hqueue : (t.tx b).sendQueue ≠ []) : t.Awake b := by
  obtain ⟨u, pending, error, hsockets, htx, hbuilt, hopen, rfl⟩ := exists_afterWrite hwrite
  have hpending : pending ≠ [] := by
    rintro rfl
    apply hqueue
    unfold Service.afterWrite
    simp
  apply Mirrors.awake_afterWrite
  · exact (mirrors_congr hsockets htx hbuilt).2 h
  · rw [hsockets, hbuilt]
    exact hopen
  · exact hpending

end Service

/-- While no transport is on a socket that is closed or opened for something else, the flag of each
transport mirrors the watcher, and no `do_write` goes to sleep on operations that it leaves, nor on
those that another thread adds before its last test of the queue. -/
theorem awake_of_run {inetPton : Host → Option Ip} {channelCount : ℕ} {options : Options}
    {uparams : ℕ → UnpackParams} {as : List Action} {s : Service}
    (hrun : Machine.run (step inetPton) as (.fresh channelCount options uparams) = some s)
    (hcond : Machine.Meets (step inetPton) Service.SocketsKept as
      (.fresh channelCount options uparams)) :
    ∀ b ∈ s.transports,
      ((s.tx b).pollout = true ↔ (s.interest (s.built b).sock).write = true) ∧
        ∀ a u, s.doRead b a = .ok (u, true) →
          (∀ send t, u.doWrite b send = (t, true) → (t.tx b).sendQueue ≠ [] → t.Awake b) ∧
            ∀ pending error, pending ≠ [] → (u.afterWrite b pending error).Awake b := by
  have h : s.Mirrored := by
    refine Machine.invariant_of_meets (I := Service.Mirrored) ?_
      (Service.mirrored_fresh channelCount options uparams) hcond hrun
    intro s a s' hs hcond hstep
    obtain ⟨henabled, rfl⟩ := step_eq_some.1 hstep
    exact hs.effect henabled hcond
  intro b hb
  have hmirrors := h.mirrors b hb
  refine ⟨Bool.eq_iff_iff.1 hmirrors, fun a u hread => ?_⟩
  obtain ⟨hsockets, htx, hbuilt⟩ := Service.doRead_frame hread
  have hu : u.Mirrors b := (Service.mirrors_congr hsockets htx hbuilt).2 hmirrors
  have hopen : u.sock (u.built b).sock ≠ none := by
    rw [hsockets, hbuilt]
    exact h.opened b hb
  exact ⟨fun send t hwrite hqueue => hu.awake_doWrite hwrite hqueue,
    fun pending error hpending => hu.awake_afterWrite hopen hpending error⟩

/-- The kernel's buffer is full when the first transport of channel 0 writes. -/
def writeToFull : List Action :=
  connectFirst ++
    [.write 0 [1] none, .frame 2, .poll (some fun _ => {}), .transport { send := .fail 11 }]

theorem awake_of_run_writeToFull :
    ∃ s u t, Machine.run (step fun _ => some (.v4 1)) writeToFull
        (.fresh 1 { noDispatch := true } fun _ => {}) = some s ∧
      (s.doRead 0 {} = .ok (u, true) ∧ u.doWrite 0 (.sent 0) = (t, true) ∧
        (t.tx 0).sendQueue ≠ []) ∧
        (s.interest (s.built 0).sock).write = true ∧ t.Awake 0 := by
  obtain ⟨s, hrun, hmem, hpollout, hread⟩ := Machine.exists_of_any (step fun _ => some (.v4 1))
    writeToFull (.fresh 1 { noDispatch := true } fun _ => {})
    (fun s => 0 ∈ s.transports ∧ (s.tx 0).pollout = true ∧
      (s.doRead 0 {}).toOption.any (fun r => r.2 && (r.1.doWrite 0 (.sent 0)).2 &&
        decide (((r.1.doWrite 0 (.sent 0)).1.tx 0).sendQueue ≠ [])) = true)
    (by decide +kernel)
  obtain ⟨hmirrors, hawake⟩ := awake_of_run hrun (by decide +kernel) 0 hmem
  cases hok : s.doRead 0 {} with
  | error e =>
    rw [hok] at hread
    cases hread
  | ok r =>
    obtain ⟨u, ok⟩ := r
    rw [hok] at hread
    obtain ⟨⟨rfl, htrue⟩, hqueue⟩ : (ok = true ∧ (u.doWrite 0 (.sent 0)).2 = true) ∧
        ((u.doWrite 0 (.sent 0)).1.tx 0).sendQueue ≠ [] := by
      simpa [Except.toOption] using hread
    have hdone : u.doWrite 0 (.sent 0) = ((u.doWrite 0 (.sent 0)).1, true) := Prod.ext rfl htrue
    exact ⟨s, u, _, hrun, ⟨hok, hdone, hqueue⟩, hmirrors.1 hpollout,
      (hawake {} u hok).1 (.sent 0) _ hdone hqueue⟩

/-- The channel is opened again between `process_transports` and `process_channels`: its socket is
another one, and the first transport writes to a full buffer without asking for write interest. -/
theorem asleep_after_reopen :
    ∃ s, Machine.run (step fun _ => some (.v4 1))
        (writeToFull ++
          [.openKind 0 Yck.tcpClient, .openTest 0, .openMask 0, .openInsert 0, .transport {},
            .channel { now := 3, socket := .ok 6 }, .channel {}, .timer none, .endEvents, .frame 4,
            .poll (some fun _ => {}), .transport { send := .fail 11 }])
        (.fresh 1 { noDispatch := true } fun _ => {}) = some s ∧
      0 ∈ s.transports ∧ (s.tx 0).sendQueue ≠ [] ∧ (s.tx 0).pollout = true ∧
        (s.interest (s.built 0).sock).write = false ∧ s.waitDuration ≠ 0 :=
  Machine.exists_of_any _ _ _ _ (by decide +kernel)

end Yasio
