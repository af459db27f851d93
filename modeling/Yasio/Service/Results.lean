import Mathlib.Data.List.Chain
import Yasio.Service.ConnectTimer

/-!
# The results of the attempts

An attempt of a client channel begins when `process_channels` takes a request up, and has its result
with the `YEK_ON_OPEN` event that it fires.
-/

namespace Yasio

open Function (update)

/-- The next request is taken up after exactly one result, or after none at most if the service was
stopped meanwhile. -/
structure TakeUp.Precedes (x y : TakeUp) : Prop where
  le : x.results ≤ y.results
  once : y.results ≤ x.results + 1
  result : x.stopping = false → x.stops = y.stops → y.results = x.results + 1

namespace Service

variable {s t u : Service} {i j : ℕ} {b : Block} {a : TransportAnswers}
variable {inetPton : Host → Option Ip}

/-- The requests of channel `i` that were taken up. -/
def takenOf (s : Service) (i : ℕ) : List TakeUp := s.taken.filter fun x => x.channel = i

/-- An attempt of channel `i` is under way. -/
def Trying (s : Service) (i : ℕ) : Prop :=
  (s.chan i).state = .resolving ∨ (s.chan i).state = .connecting ∨
    ∃ b, s.Links i b ∧ (s.io b).state ≠ .opened

/-- The service was stopped when the request was taken up, or has been since. -/
def Interrupted (s : Service) (x : TakeUp) : Prop := x.stopping = true ∨ x.stops ≠ s.stops

instance (s : Service) (x : TakeUp) : Decidable (s.Interrupted x) :=
  inferInstanceAs (Decidable (_ ∨ _))

/-! ## The tally -/

/-- The requests of channel `i` and its results. -/
structure Tally (s : Service) (i : ℕ) : Prop where
  stops : ∀ x ∈ s.takenOf i, x.stops ≤ s.stops
  stopping : s.stopFlag = true → ∀ x ∈ s.takenOf i, s.Interrupted x
  none : s.takenOf i = [] → s.results i = 0 ∧ ¬ s.Trying i
  chain : (s.takenOf i).IsChain TakeUp.Precedes
  first : ∀ x ∈ (s.takenOf i).head?, x.results = 0
  last : ∀ x ∈ (s.takenOf i).getLast?,
    s.results i = x.results ∧ (s.Trying i ∨ s.Interrupted x) ∨
      s.results i = x.results + 1 ∧ ¬ s.Trying i

theorem Tally.results_of_trying (h : s.Tally i) (htrying : s.Trying i) :
    ∀ x ∈ (s.takenOf i).getLast?, s.results i = x.results := by
  intro x hx
  rcases h.last x hx with ⟨hresults, -⟩ | ⟨-, hnot⟩
  · exact hresults
  · exact absurd htrying hnot

theorem Tally.takenOf_ne_nil (h : s.Tally i) (htrying : s.Trying i) : s.takenOf i ≠ [] :=
  fun hnil => (h.none hnil).2 htrying

/-- What a step leaves that neither takes up a request nor stops the service. -/
structure Unstopped (i : ℕ) (s t : Service) : Prop where
  taken : t.takenOf i = s.takenOf i
  stops : t.stops = s.stops
  stopFlag : t.stopFlag = true → s.stopFlag = true

theorem Unstopped.refl (i : ℕ) (s : Service) : Unstopped i s s := ⟨rfl, rfl, id⟩

theorem Unstopped.trans (h : Unstopped i s t) (h' : Unstopped i t u) : Unstopped i s u :=
  ⟨h'.taken.trans h.taken, h'.stops.trans h.stops, fun hflag => h.stopFlag (h'.stopFlag hflag)⟩

theorem Unstopped.interrupted (h : Unstopped i s t) {x : TakeUp} :
    t.Interrupted x ↔ s.Interrupted x := by
  unfold Interrupted
  rw [h.stops]

/-- The parts of the tally that do not depend on the results. -/
theorem Tally.step (h : s.Tally i) (ht : Unstopped i s t)
    (hnone : s.takenOf i = [] → t.results i = 0 ∧ ¬ t.Trying i)
    (hlast : ∀ x ∈ (s.takenOf i).getLast?,
      t.results i = x.results ∧ (t.Trying i ∨ s.Interrupted x) ∨
        t.results i = x.results + 1 ∧ ¬ t.Trying i) : t.Tally i := by
  refine ⟨?_, ?_, ?_, ?_, ?_, ?_⟩
  · rw [ht.taken, ht.stops]
    exact h.stops
  · rw [ht.taken]
    exact fun hflag x hx => ht.interrupted.2 (h.stopping (ht.stopFlag hflag) x hx)
  · rw [ht.taken]
    exact hnone
  · rw [ht.taken]
    exact h.chain
  · rw [ht.taken]
    exact h.first
  · rw [ht.taken]
    intro x hx
    rw [ht.interrupted]
    exact hlast x hx

/-- The attempt goes on, or there is none before and after. -/
theorem Tally.same (h : s.Tally i) (ht : Unstopped i s t) (hresults : t.results i = s.results i)
    (htrying : t.Trying i ↔ s.Trying i) : t.Tally i := by
  apply h.step ht
  · rw [hresults, htrying]
    exact h.none
  · rw [hresults, htrying]
    exact h.last

/-- The attempt has its result. -/
theorem Tally.result (h : s.Tally i) (htrying : s.Trying i) (ht : Unstopped i s t)
    (hresults : t.results i = s.results i + 1) (hdone : ¬ t.Trying i) : t.Tally i := by
  apply h.step ht
  · exact fun hnil => absurd hnil (h.takenOf_ne_nil htrying)
  · intro x hx
    right
    exact ⟨by rw [hresults, h.results_of_trying htrying x hx], hdone⟩

/-- The attempt, if there was one, ends without a result. -/
theorem Tally.lost (h : s.Tally i) (ht : Unstopped i s t) (hresults : t.results i = s.results i)
    (hdone : ¬ t.Trying i)
    (hinterrupted : s.Trying i → ∀ x ∈ (s.takenOf i).getLast?, s.Interrupted x) : t.Tally i := by
  apply h.step ht
  · intro hnil
    exact ⟨hresults.trans (h.none hnil).1, hdone⟩
  · intro x hx
    rw [hresults]
    rcases h.last x hx with ⟨heq, htrying | hx'⟩ | ⟨heq, -⟩
    · exact .inl ⟨heq, .inr (hinterrupted htrying x hx)⟩
    · exact .inl ⟨heq, .inr hx'⟩
    · exact .inr ⟨heq, hdone⟩

/-- A request is taken up when no attempt is under way. -/
theorem Tally.takeOpen (h : s.Tally i)
    (hdone : (s.chan i).opOpen = true → ¬ s.Trying i) : (s.takeOpen i).Tally i := by
  unfold Service.takeOpen
  split
  · next hopen =>
    let y : TakeUp :=
      { channel := i, results := s.results i, stops := s.stops, stopping := s.stopFlag }
    let t : Service :=
      { s.setChan i { s.chan i with opOpen := false, state := .resolving } with
        taken := s.taken ++ [y] }
    change t.Tally i
    have htaken : t.takenOf i = s.takenOf i ++ [y] := by
      unfold takenOf
      simp [t, y]
    have htrying : t.Trying i := by
      left
      change (update s.chan i _ i).state = _
      rw [Function.update_self]
    have hlast : ∀ x ∈ (s.takenOf i).getLast?, x.Precedes y := by
      intro x hx
      rcases h.last x hx with ⟨heq, htry | hinterrupted⟩ | ⟨heq, -⟩
      · exact absurd htry (hdone hopen)
      · refine ⟨heq.ge, heq.le.trans (Nat.le_succ _), fun hstopping hstops => ?_⟩
        rcases hinterrupted with hx' | hx'
        · cases hstopping.symm.trans hx'
        · exact absurd hstops hx'
      · exact ⟨heq.ge.trans' (Nat.le_succ _), heq.le, fun _ _ => heq⟩
    refine ⟨?_, ?_, ?_, ?_, ?_, ?_⟩
    · rw [htaken]
      intro x hx
      rcases List.mem_append.1 hx with hx | hx
      · exact h.stops x hx
      · rw [List.mem_singleton.1 hx]
        exact Nat.le_refl _
    · rw [htaken]
      intro hflag x hx
      rcases List.mem_append.1 hx with hx | hx
      · exact h.stopping hflag x hx
      · rw [List.mem_singleton.1 hx]
        exact .inl hflag
    · rw [htaken]
      exact fun hnil => absurd hnil (List.append_ne_nil_of_right_ne_nil _ (List.cons_ne_nil _ _))
    · rw [htaken]
      refine List.isChain_append.2 ⟨h.chain, List.isChain_singleton y, ?_⟩
      intro x hx z hz
      obtain rfl : z = y := by simpa using hz.symm
      exact hlast x hx
    · rw [htaken]
      intro x hx
      cases hnil : s.takenOf i with
      | nil =>
        rw [hnil] at hx
        obtain rfl : y = x := by simpa using hx
        exact (h.none hnil).1
      | cons z zs =>
        apply h.first x
        rw [hnil] at hx ⊢
        exact hx
    · rw [htaken]
      intro x hx
      obtain rfl : y = x := by simpa using hx
      exact .inl ⟨rfl, .inl htrying⟩
  · exact h

/-- After another stop every request that was taken up is interrupted. -/
theorem Tally.stop (h : s.Tally i) (htaken : t.takenOf i = s.takenOf i)
    (hstops : t.stops = s.stops + 1) (hresults : t.results i = s.results i)
    (htrying : t.Trying i ↔ s.Trying i) : t.Tally i := by
  have hinterrupted : ∀ x ∈ s.takenOf i, t.Interrupted x := by
    intro x hx
    right
    have hle := h.stops x hx
    omega
  refine ⟨?_, ?_, ?_, ?_, ?_, ?_⟩
  · rw [htaken, hstops]
    exact fun x hx => (h.stops x hx).trans (Nat.le_succ _)
  · rw [htaken]
    exact fun _ => hinterrupted
  · rw [htaken, hresults, htrying]
    exact h.none
  · rw [htaken]
    exact h.chain
  · rw [htaken]
    exact h.first
  · rw [htaken, hresults, htrying]
    intro x hx
    rcases h.last x hx with ⟨heq, -⟩ | hx'
    · exact .inl ⟨heq, .inr (hinterrupted x (List.mem_of_getLast? hx))⟩
    · exact .inr hx'

/-! ## Results -/

/-- A result of channel `i`. -/
abbrev isResult (i : ℕ) (e : Event) : Prop := e.kind = .onOpen ∧ e.channel = i

theorem results_of_fires {es : List Event} (hfired : t.fired = s.fired ++ es)
    (hes : ∀ e ∈ es, ¬ isResult i e) : t.results i = s.results i := by
  unfold results
  rw [hfired, List.countP_append, Nat.add_eq_left, List.countP_eq_zero]
  intro e he hresult
  exact hes e he (of_decide_eq_true hresult)

theorem results_of_fire {e : Event} (hfired : t.fired = s.fired ++ [e]) (he : isResult i e) :
    t.results i = s.results i + 1 := by
  unfold results
  have hpos : decide (e.kind = .onOpen ∧ e.channel = i) = true := decide_eq_true he
  rw [hfired, List.countP_append, List.countP_singleton, if_pos hpos]

theorem trying_congr (hlinks : ∀ b, t.Links i b ↔ s.Links i b)
    (hio : ∀ b, s.Links i b → (t.io b).state = (s.io b).state)
    (hstate : (t.chan i).state = (s.chan i).state) : t.Trying i ↔ s.Trying i := by
  have hexists : (∃ b, t.Links i b ∧ (t.io b).state ≠ .opened) ↔
      ∃ b, s.Links i b ∧ (s.io b).state ≠ .opened := by
    constructor
    · rintro ⟨b, hb, hne⟩
      have hb := (hlinks b).1 hb
      exact ⟨b, hb, hio b hb ▸ hne⟩
    · rintro ⟨b, hb, hne⟩
      exact ⟨b, (hlinks b).2 hb, (hio b hb).symm ▸ hne⟩
  unfold Trying
  rw [hstate, hexists]

theorem not_trying_of_closed (hstate : (s.chan i).state = .closed ∨ (s.chan i).state = .opened)
    (hlinks : ∀ b, s.Links i b → (s.io b).state = .opened) : ¬ s.Trying i := by
  rintro (hresolving | hconnecting | ⟨b, hb, hne⟩)
  · rcases hstate with hstate | hstate <;> cases hstate.symm.trans hresolving
  · rcases hstate with hstate | hstate <;> cases hstate.symm.trans hconnecting
  · exact hne (hlinks b hb)

/-! ## The turn of a transport -/

/-- The handshake of `b` ends in its turn. -/
def handshakeEnds (s : Service) (b : Block) (a : TransportAnswers) : Bool :=
  (s.sock (s.built b).sock).isSome && (s.built b).cls = .ssl && (s.io b).state ≠ .opened &&
    a.handshake ≠ .pending

theorem unstopped_touched (h : Touched b s t) : Unstopped i s t := by
  refine ⟨?_, h.notes.2.2.2, ?_⟩
  · unfold takenOf
    rw [h.notes.2.2.1]
  · rw [show t.stopFlag = s.stopFlag by rw [show t.stopFlag = t.toLoop.stopFlag from rfl, h.loop]]
    exact id

theorem unstopped_dropTransport (s : Service) (n : ℕ) (b : Block) (tail : ℕ) :
    Unstopped i s (s.dropTransport n b tail) := by
  obtain ⟨chan, io, sockets, heq, -⟩ := s.exists_dropTransport n b tail
  rw [heq]
  exact ⟨rfl, rfl, id⟩

theorem results_dropTransport (s : Service) (n : ℕ) (b : Block) (tail : ℕ) :
    (s.dropTransport n b tail).results i = s.results i := by
  obtain ⟨chan, io, sockets, heq, -⟩ := s.exists_dropTransport n b tail
  rw [heq]
  have hclose : ∀ e ∈ s.closeEvents b, ¬ isResult i e := by
    rintro e he ⟨hkind, -⟩
    unfold closeEvents at he
    split at he
    · rw [List.mem_singleton.1 he] at hkind
      cases hkind
    · cases he
  exact results_of_fires rfl hclose

/-- What `do_read` does before the framing announces the end of a handshake and nothing else. -/
theorem atRead_cases (s : Service) (b : Block) (a : TransportAnswers) :
    (s.handshakeEnds b a = false ∧ (s.atRead b a).fired = s.fired ∧ (s.atRead b a).io = s.io) ∨
      (s.handshakeEnds b a = true ∧ a.handshake = .complete ∧
        (s.atRead b a).fired = s.fired ++ [s.transportEvent b .onOpen 0] ∧
          ((s.atRead b a).io b).state = .opened) ∨
        (s.handshakeEnds b a = true ∧ a.handshake = .failed ∧ (s.atRead b a).io = s.io ∧
          (s.atRead b a).fired = s.fired ++
            (if testbits (s.kind (s.built b).ctx) Ycm.client then
              [s.channelEvent (s.built b).ctx Errc.sslHandshakeFailed] else [])) := by
  unfold atRead handshakeEnds
  cases hsock : s.sock (s.built b).sock with
  | none =>
    rw [if_pos rfl]
    exact .inl ⟨rfl, rfl, rfl⟩
  | some fd =>
    rw [if_neg nofun]
    unfold beforeRead
    dsimp only
    split
    · next hssl =>
      have hssl' : ((s.built b).cls = .ssl) ∧ (s.io b).state ≠ .opened := hssl
      cases hhandshake : a.handshake with
      | pending =>
        left
        exact ⟨by simp, rfl, rfl⟩
      | complete =>
        right
        left
        refine ⟨by simp [hssl'], rfl, rfl, ?_⟩
        change (update s.io b { s.io b with state := .opened } b).state = .opened
        rw [Function.update_self]
      | failed =>
        right
        right
        exact ⟨by simp [hssl'], rfl, rfl, rfl⟩
    · next hssl =>
      left
      refine ⟨?_, ?_, ?_⟩
      · have hssl' : ¬ ((s.built b).cls = .ssl ∧ (s.io b).state ≠ .opened) := hssl
        by_cases hcls : (s.built b).cls = .ssl
        · have hopened : (s.io b).state = .opened := not_not.1 fun hne => hssl' ⟨hcls, hne⟩
          simp [hopened]
        · simp [hcls]
      · unfold receiveFrom
        dsimp only
        split <;> rfl
      · unfold receiveFrom
        dsimp only
        split <;> rfl

/-- A failed handshake ends the transport. -/
theorem visitTransport_of_failed (n : ℕ) (hends : s.handshakeEnds b a = true)
    (hfailed : a.handshake = .failed) :
    ∃ error, s.visitTransport n b a = ((s.atRead b a).setIo b
      { (s.atRead b a).io b with error }).dropTransport n b a.tail := by
  unfold handshakeEnds at hends
  simp only [Bool.and_eq_true, decide_eq_true_eq] at hends
  obtain ⟨⟨⟨hsock, hcls⟩, hstate⟩, -⟩ := hends
  have hopen : s.sock (s.built b).sock ≠ none := Option.isSome_iff_ne_none.1 hsock
  have hread : s.doRead b a = .ok ((s.beforeRead b a).setIo b
      { (s.beforeRead b a).io b with error := Errc.sslHandshakeFailed }, false) := by
    unfold Service.doRead
    rw [if_neg hopen, if_pos ⟨hcls, hstate, hfailed⟩]
  refine ⟨Errc.sslHandshakeFailed, ?_⟩
  unfold visitTransport atRead
  rw [hread, if_neg hopen]
  rfl

theorem results_atRead_of_ne (hctx : (s.built b).ctx ≠ i) (a : TransportAnswers) :
    (s.atRead b a).results i = s.results i := by
  rcases s.atRead_cases b a with ⟨-, hfired, -⟩ | ⟨-, -, hfired, -⟩ | ⟨-, -, -, hfired⟩
  · exact results_of_fires (hfired.trans (List.append_nil _).symm) nofun
  · refine results_of_fires hfired ?_
    rintro e he ⟨-, hchannel⟩
    rw [List.mem_singleton.1 he] at hchannel
    exact hctx hchannel
  · refine results_of_fires hfired ?_
    rintro e he ⟨-, hchannel⟩
    split at he
    · rw [List.mem_singleton.1 he] at hchannel
      exact hctx hchannel
    · cases he

theorem results_settled (h : Settled b s t) : t.results i = s.results i := by
  obtain ⟨es, hfired, hes⟩ := h.packets
  refine results_of_fires hfired ?_
  rintro e he ⟨hkind, -⟩
  cases (hes e he).symm.trans hkind

/-- The turn of a transport of another channel. -/
theorem Tally.visitOther (h : s.Tally i) (hs : s.toPool.Sound) {n : ℕ}
    (hb : s.transports[n]? = some b) (hctx : (s.built b).ctx ≠ i) (a : TransportAnswers) :
    (s.visitTransport n b a).Tally i := by
  obtain ⟨s', hs', hend⟩ := s.exists_turnEnd (b := b) n a
  have htouched : Touched b s s' := (s.touched_atRead (b := b) a).trans hs'.toTouched
  have hresults : s'.results i = s.results i :=
    (results_settled hs').trans (results_atRead_of_ne hctx a)
  have hchan : s'.chan = s.chan := congrArg Channels.chan htouched.channels
  have hbuilt : s'.built = s.built := congrArg Pool.built htouched.pool
  have hne : ∀ b', s.Links i b' → b' ≠ b := by
    rintro b' hb' rfl
    exact hctx hb'.2
  have hunstopped : Unstopped i s s' := unstopped_touched htouched
  have htrying : s'.Trying i ↔ s.Trying i :=
    trying_congr (links_of_pool htouched.pool) (fun b' hb' => by rw [htouched.io b' (hne b' hb')])
      (by rw [hchan])
  generalize s.visitTransport n b a = t at hend
  cases hend with
  | thrown | kept hasked =>
    exact h.same ⟨hunstopped.taken, hunstopped.stops, hunstopped.stopFlag⟩ hresults htrying
  | dropped =>
    apply h.same (hunstopped.trans (unstopped_dropTransport s' n b a.tail))
    · exact (results_dropTransport s' n b a.tail).trans hresults
    · refine Iff.trans (trying_congr (fun b' => ?_) (fun b' hb' => ?_) ?_) htrying
      · rw [links_dropTransport (htouched.pool ▸ hs) (htouched.pool ▸ hb)]
        constructor
        · exact And.left
        · exact fun hb' => ⟨hb', hne b' ((links_of_pool htouched.pool b').1 hb')⟩
      · have hlinked := (links_of_pool htouched.pool b').1 hb'
        rw [(s'.dropTransport_frame n b a.tail).2.2 b' (hne b' hlinked)]
      · obtain ⟨chan, io, sockets, heq, hsame⟩ := s'.exists_dropTransport n b a.tail
        rw [heq]
        exact congrArg IoBase.state (hsame i (by rw [hbuilt]; exact hctx.symm))

/-- The turn of a transport of the channel. -/
theorem Tally.visitOwn (h : s.Tally i) (hiso : s.Isolated i) (hs : s.toPool.Sound)
    (hclient : s.takenOf i ≠ [] → testbits (s.kind i) Ycm.client = true) {n : ℕ}
    (hb : s.transports[n]? = some b) (hctx : (s.built b).ctx = i)
    (hcond : (s.io b).state ≠ .opened → s.closes n b a = true → s.handshakeEnds b a = false →
      ∀ x ∈ (s.takenOf i).getLast?, s.Interrupted x) :
    (s.visitTransport n b a).Tally i := by
  have hlink : s.Links i b := ⟨List.mem_of_getElem? hb, hctx⟩
  have hgone : ∀ {t : Service}, t.toPool = s.toPool → t.chan = s.chan →
      ¬ (t.dropTransport n b a.tail).Trying i := by
    intro t hpool hchan
    apply not_trying_of_closed
    · rcases t.state_dropTransport n b a.tail i with hsame | ⟨-, hclosed⟩
      · right
        rw [hsame, hchan]
        exact hiso.opened b hlink
      · exact .inl hclosed
    · intro b' hb'
      obtain ⟨hl, hne⟩ := (links_dropTransport (hpool ▸ hs) (hpool ▸ hb)).1 hb'
      exact absurd (hiso.one b' b ((links_of_pool hpool b').1 hl) hlink) hne
  cases hends : s.handshakeEnds b a with
  | true =>
    have hstate : (s.io b).state ≠ .opened := by
      unfold handshakeEnds at hends
      simp only [Bool.and_eq_true, decide_eq_true_eq] at hends
      exact hends.1.2
    have htrying : s.Trying i := .inr (.inr ⟨b, hlink, hstate⟩)
    rcases s.atRead_cases b a with ⟨hno, -⟩ | ⟨-, -, hfired, hopen⟩ | ⟨-, hfailed, -, hfired⟩
    · cases hno.symm.trans hends
    · obtain ⟨s', hs', hend⟩ := s.exists_turnEnd (b := b) n a
      have htouched : Touched b s s' := (s.touched_atRead (b := b) a).trans hs'.toTouched
      have hresults : s'.results i = s.results i + 1 :=
        (results_settled hs').trans (results_of_fire hfired ⟨rfl, hctx⟩)
      have hchan : s'.chan = s.chan := congrArg Channels.chan htouched.channels
      have hunstopped : Unstopped i s s' := unstopped_touched htouched
      have hdone : ¬ s'.Trying i := by
        apply not_trying_of_closed
        · right
          rw [hchan]
          exact hiso.opened b hlink
        · intro b' hb'
          rw [hiso.one b' b ((links_of_pool htouched.pool b').1 hb') hlink, hs'.state b, hopen]
      generalize s.visitTransport n b a = t at hend
      cases hend with
      | thrown | kept hasked =>
        exact h.result htrying ⟨hunstopped.taken, hunstopped.stops, hunstopped.stopFlag⟩ hresults
          hdone
      | dropped =>
        exact h.result htrying (hunstopped.trans (unstopped_dropTransport s' n b a.tail))
          ((results_dropTransport s' n b a.tail).trans hresults) (hgone htouched.pool hchan)
    · obtain ⟨error, hvisit⟩ := visitTransport_of_failed n hends hfailed
      have htouched : Touched b s (s.atRead b a) := s.touched_atRead (b := b) a
      have hkind : testbits (s.kind (s.built b).ctx) Ycm.client = true := by
        rw [hctx]
        exact hclient (h.takenOf_ne_nil htrying)
      rw [hkind, if_pos rfl] at hfired
      have hread : Unstopped i s (s.atRead b a) := unstopped_touched htouched
      have hunstopped : Unstopped i s ((s.atRead b a).setIo b { (s.atRead b a).io b with error }) :=
        ⟨hread.taken, hread.stops, hread.stopFlag⟩
      rw [hvisit]
      apply h.result htrying
      · exact hunstopped.trans (unstopped_dropTransport _ n b a.tail)
      · exact (results_dropTransport _ n b a.tail).trans (results_of_fire hfired ⟨rfl, hctx⟩)
      · exact hgone htouched.pool (congrArg Channels.chan htouched.channels)
  | false =>
    rcases s.atRead_cases b a with ⟨-, hfired, hio⟩ | ⟨htrue, -⟩ | ⟨htrue, -⟩
    · obtain ⟨s', hs', hend⟩ := s.exists_turnEnd (b := b) n a
      have htouched : Touched b s s' := (s.touched_atRead (b := b) a).trans hs'.toTouched
      have hresults : s'.results i = s.results i :=
        (results_settled hs').trans (results_of_fires (hfired.trans (List.append_nil _).symm) nofun)
      have hchan : s'.chan = s.chan := congrArg Channels.chan htouched.channels
      have hunstopped : Unstopped i s s' := unstopped_touched htouched
      have htrying : s'.Trying i ↔ s.Trying i :=
        trying_congr (links_of_pool htouched.pool) (fun b' _ => by rw [hs'.state b', hio])
          (by rw [hchan])
      generalize hvisit : s.visitTransport n b a = t at hend
      cases hend with
      | thrown | kept hasked =>
        exact h.same ⟨hunstopped.taken, hunstopped.stops, hunstopped.stopFlag⟩ hresults htrying
      | dropped =>
        apply h.lost (hunstopped.trans (unstopped_dropTransport s' n b a.tail))
        · exact (results_dropTransport s' n b a.tail).trans hresults
        · exact hgone htouched.pool hchan
        · intro htry
          have hstate : (s.io b).state ≠ .opened := by
            have hopened := hiso.opened b hlink
            rcases htry with hresolving | hconnecting | ⟨b', hb', hne⟩
            · cases hopened.symm.trans hresolving
            · cases hopened.symm.trans hconnecting
            · rwa [hiso.one b' b hb' hlink] at hne
          have hcloses := closes_dropTransport hb (congrArg Pool.transports htouched.pool) hvisit
          exact hcond hstate hcloses hends
    · cases hends.symm.trans htrue
    · cases hends.symm.trans htrue

/-! ## The turn of the channel -/

/-- What the tally reads besides the state of the channel. -/
def accounts (s : Service) :
    Pool × (Block → IoBase) × List Event × List TakeUp × ℕ × Bool :=
  (s.toPool, s.io, s.fired, s.taken, s.stops, s.stopFlag)

theorem unstopped_of_accounts (h : t.accounts = s.accounts) : Unstopped i s t := by
  have htaken : t.taken = s.taken := congrArg (fun c => c.2.2.2.1) h
  have hflag : t.stopFlag = s.stopFlag := congrArg (fun c => c.2.2.2.2.2) h
  refine ⟨?_, congrArg (fun c => c.2.2.2.2.1) h, ?_⟩
  · unfold takenOf
    rw [htaken]
  · rw [hflag]
    exact id

theorem results_of_accounts (h : t.accounts = s.accounts) : t.results i = s.results i := by
  have hfired : t.fired = s.fired := congrArg (fun c => c.2.2.1) h
  unfold results
  rw [hfired]

theorem Tally.congr (h : s.Tally i) (ha : t.accounts = s.accounts)
    (hstate : (t.chan i).state = (s.chan i).state) : t.Tally i := by
  have hpool : t.toPool = s.toPool := congrArg Prod.fst ha
  have hio : t.io = s.io := congrArg (fun c => c.2.1) ha
  exact h.same (unstopped_of_accounts ha) (results_of_accounts ha)
    (trying_congr (links_of_pool hpool) (fun b _ => by rw [hio]) hstate)

/-- The attempt goes on. -/
theorem Tally.goes (h : s.Tally i) (htrying : s.Trying i) (ha : t.accounts = s.accounts)
    (hstill : t.Trying i) : t.Tally i :=
  h.same (unstopped_of_accounts ha) (results_of_accounts ha) (iff_of_true hstill htrying)

/-- The attempt fails. -/
theorem Tally.failed (h : s.Tally i) (htrying : s.Trying i) (hlinks : ∀ b, ¬ s.Links i b)
    (ha : u.accounts = s.accounts) (error : Int) : (u.handleConnectFailed i error).Tally i := by
  have hunstopped := unstopped_of_accounts (i := i) ha
  have hpool : u.toPool = s.toPool := congrArg Prod.fst ha
  apply h.result htrying
  · exact ⟨hunstopped.taken, hunstopped.stops, hunstopped.stopFlag⟩
  · rw [← results_of_accounts (i := i) ha]
    exact results_of_fire (e := u.channelEvent i error) rfl ⟨rfl, rfl⟩
  · apply not_trying_of_closed
    · exact .inl (state_handleConnectFailed u i error)
    · exact fun b hb => absurd ((links_of_pool hpool b).1 hb) (hlinks b)

theorem establish_accounts (s : Service) {i : ℕ} {client : Bool}
    (hclient : testbits (s.kind i) Ycm.client = client) (k : SockId) (interval : ℕ) (ok : Bool) :
    (∃ e, isResult i e ∧ (s.establish i k interval ok).fired =
        s.fired ++ if testbits (s.kind i) Ycm.ssl then [] else [e]) ∧
      (s.establish i k interval ok).io = update s.io s.freshBlock
        { state := if TransportClass.ofKind (s.kind i) = .ssl then .connecting else .opened } ∧
        Unstopped j s (s.establish i k interval ok) := by
  obtain ⟨udp, sockPeer, heq⟩ := s.establish_eq hclient k interval ok
  have hbuilt : ((s.allocateTransport i k interval).built s.freshBlock).ctx = i :=
    congrArg Built.ctx (Pool.built_allocate_freshBlock (p := s.toPool) _)
  let u : Service :=
    { s.allocateTransport i k interval with
      chan := update s.chan i (s.connectedChan i client)
      udp
      toSockets := { tuneNew client k s.toSockets with sockPeer } }
  have hfired : (u.activeTransport s.freshBlock).fired = s.fired ++
      if testbits (s.kind i) Ycm.ssl then [] else [u.transportEvent s.freshBlock .onOpen 0] := by
    change s.fired ++ (if testbits (s.kind ((s.allocateTransport i k interval).built
      s.freshBlock).ctx) Ycm.ssl then [] else _) = _
    rw [hbuilt]
  rw [heq]
  exact ⟨⟨u.transportEvent s.freshBlock .onOpen 0, ⟨rfl, hbuilt⟩, hfired⟩, rfl, rfl, rfl, id⟩

/-- The attempt makes a connection: this is its result, or a handshake begins. -/
theorem Tally.established (h : s.Tally i) (htrying : s.Trying i) (hlinks : ∀ b, ¬ s.Links i b)
    (hs : s.toPool.Sound) (ha : u.accounts = s.accounts)
    (hclient : testbits (u.kind i) Ycm.client = true)
    (hssl : testbits (u.kind i) Ycm.ssl = true → testbits (u.kind i) Ycm.tcp = true)
    (interval : ℕ) (ok : Bool) : (u.establish i i interval ok).Tally i := by
  have hpool : u.toPool = s.toPool := congrArg Prod.fst ha
  have hjoined : Joined u (u.establish i i interval ok) (u.newBuilt i i interval) :=
    .of_connect (u.toPool_establish i interval ok)
  have hlinks' : ∀ b, (u.establish i i interval ok).Links i b ↔ b = u.freshBlock := by
    intro b
    rw [hjoined.links_iff (hpool ▸ hs), links_of_pool hpool]
    simp [hlinks b, newBuilt]
  have hstate : ((u.establish i i interval ok).chan i).state = .opened := by
    rw [u.chan_establish hclient i interval ok, Function.update_self]
    rfl
  obtain ⟨⟨e, he, hfired⟩, hio, hunstopped⟩ := u.establish_accounts (j := i) hclient i interval ok
  have hunstopped := (unstopped_of_accounts (i := i) ha).trans hunstopped
  have hresults := results_of_accounts (i := i) ha
  generalize u.establish i i interval ok = t at *
  have hfresh : (t.io u.freshBlock).state =
      if TransportClass.ofKind (u.kind i) = .ssl then .connecting else .opened := by
    rw [hio, Function.update_self]
  cases hkind : testbits (u.kind i) Ycm.ssl with
  | true =>
    rw [hkind, if_pos rfl] at hfired
    have hcls : TransportClass.ofKind (u.kind i) = .ssl := by
      unfold TransportClass.ofKind
      rw [if_pos (hssl hkind), if_pos hkind]
    rw [if_pos hcls] at hfresh
    apply h.same hunstopped ((results_of_fires hfired (by simp)).trans hresults)
    refine iff_of_true (.inr (.inr ⟨u.freshBlock, (hlinks' _).2 rfl, ?_⟩)) htrying
    rw [hfresh]
    simp
  | false =>
    rw [hkind, if_neg Bool.false_ne_true] at hfired
    rw [if_neg (TransportClass.ofKind_ne_ssl hkind)] at hfresh
    apply h.result htrying hunstopped
    · rw [results_of_fire hfired he, hresults]
    · apply not_trying_of_closed (.inr hstate)
      intro b hb
      rw [(hlinks' b).1 hb, hfresh]

theorem accounts_resolves (h : Resolves i s t) : t.accounts = s.accounts := by
  obtain ⟨net, queries, options, error, rfl⟩ := h
  rfl

theorem accounts_unbound (s : Service) (i : ℕ) : (s.unbound i).accounts = s.accounts := by
  unfold unbound
  dsimp only
  split <;> rfl

theorem Tally.cancelTimer (h : s.Tally i) (k : TimerId) : (s.cancelTimer k).Tally i := by
  obtain ⟨timers, heq⟩ := s.exists_cancelTimer k
  rw [heq]
  exact h.congr rfl rfl

/-- The turn of a client channel whose request, if there was one, has been taken up. -/
theorem Tally.clientTurn {a : ChannelAnswers} (h : s.Tally i) (hiso : s.Isolated i)
    (hs : s.toPool.Sound) (hclient : testbits (s.kind i) Ycm.client = true)
    (hssl : testbits (s.kind i) Ycm.ssl = true → testbits (s.kind i) Ycm.tcp = true)
    (hturn : ClientTurn i a s t) : t.Tally i := by
  have hlinks : (s.chan i).state ≠ .opened → ∀ b, ¬ s.Links i b :=
    fun hne b hb => hne (hiso.opened b hb)
  have hresolving : (s.chan i).state = .resolving → s.Trying i ∧ ∀ b, ¬ s.Links i b := by
    intro hstate
    refine ⟨.inl hstate, hlinks ?_⟩
    rw [hstate]
    exact nofun
  have hconnecting : (s.chan i).state = .connecting → s.Trying i ∧ ∀ b, ¬ s.Links i b := by
    intro hstate
    refine ⟨.inr (.inl hstate), hlinks ?_⟩
    rw [hstate]
    exact nofun
  cases hturn with
  | idle | pending => exact h
  | waits hstate hres herror => exact h.congr (accounts_resolves hres) (gen_resolves hres).2
  | unresolved hstate hres error =>
    obtain ⟨htrying, hnone⟩ := hresolving hstate
    exact h.failed htrying hnone (accounts_resolves hres) error
  | @noSocket hstate s₁ hres error =>
    obtain ⟨htrying, hnone⟩ := hresolving hstate
    exact h.failed htrying hnone ((s₁.accounts_unbound i).trans (accounts_resolves hres)) error
  | @refused hstate s₁ hres fd hfd error =>
    obtain ⟨htrying, hnone⟩ := hresolving hstate
    exact h.failed (u := (s₁.unbound i).attempted i fd) htrying hnone
      ((s₁.accounts_unbound i).trans (accounts_resolves hres)) error
  | @starts hstate s₁ hres fd hfd =>
    obtain ⟨htrying, -⟩ := hresolving hstate
    apply h.goes (t := ((s₁.unbound i).attempted i fd).awaitConnect i a) htrying
    · exact (s₁.accounts_unbound i).trans (accounts_resolves hres)
    · right
      left
      change (update (s₁.unbound i).chan i _ i).state = .connecting
      rw [Function.update_self]
      exact s₁.state_unbound i
  | @connects hstate s₁ hres fd hfd =>
    obtain ⟨htrying, hnone⟩ := hresolving hstate
    let u := ((s₁.unbound i).attempted i fd).modEvent i { read := true } .none
    have hkind : u.kind = s.kind := (s₁.kind_unbound i).trans (Bare.of_resolves hres).kind
    exact h.established (u := u) htrying hnone hs
      ((s₁.accounts_unbound i).trans (accounts_resolves hres)) (hkind ▸ hclient) (hkind ▸ hssl)
      a.interval a.dgramConnect
  | completes hstate hready =>
    obtain ⟨htrying, hnone⟩ := hconnecting hstate
    have hest := h.established (u := (s.ask i connectReady).modEvent i .none { write := true })
      htrying hnone hs rfl hclient hssl a.interval a.dgramConnect
    exact hest.cancelTimer (.connect i)
  | fails hstate hready error =>
    obtain ⟨htrying, hnone⟩ := hconnecting hstate
    have hfailed := h.failed (u := s.ask i connectReady) htrying hnone rfl error
    exact hfailed.cancelTimer (.connect i)

/-- The visit of the channel itself. -/
theorem Tally.visitSelf (h : s.Tally i) (hiso : s.Isolated i) (hs : s.toPool.Sound) {n : ℕ}
    (hphase : s.phase = .channels n) (hi : s.channelOps[n]? = some i) (a : ChannelAnswers)
    (hopen : (s.chan i).state = .resolving ∨ (s.chan i).state = .connecting →
      (s.chan i).opOpen = false)
    (hssl : testbits (s.kind i) Ycm.ssl = true → testbits (s.kind i) Ycm.tcp = true) :
    (s.visitChannel inetPton n i a).Tally i := by
  cases hclient : testbits (s.kind i) Ycm.client with
  | false =>
    rw [visitChannel_of_no_role inetPton n a hclient (hiso.kind hclient)]
    exact h.congr rfl rfl
  | true =>
    have hdrop := mem_drop_channelOps hi
    have hnone : (s.chan i).opOpen = true → ∀ b, ¬ s.Links i b := fun hmask b hb =>
      (hiso.masked hmask).channels hphase hdrop b hb.1 hb.2
    have hdone : (s.chan i).opOpen = true → ¬ s.Trying i := by
      intro hmask
      have hne : ¬ ((s.chan i).state = .resolving ∨ (s.chan i).state = .connecting) :=
        fun hstate => Bool.false_ne_true ((hopen hstate).symm.trans hmask)
      rintro (hresolving | hconnecting | ⟨b, hb, -⟩)
      · exact hne (.inl hresolving)
      · exact hne (.inr hconnecting)
      · exact hnone hmask b hb
    have hpool := s.toPool_takeOpen i
    have hkind := s.kind_takeOpen i
    obtain ⟨t, hturn, ht⟩ := exists_clientTurn inetPton n a hclient
    have htally : t.Tally i := by
      refine (h.takeOpen hdone).clientTurn (hiso.takeOpen hnone).1 (hpool ▸ hs) ?_ ?_ hturn
      · exact hkind ▸ hclient
      · exact hkind ▸ hssl
    rcases ht with ⟨-, ht⟩ | ⟨-, ht⟩
    · rw [ht]
      exact htally.congr rfl rfl
    · rw [ht]
      exact htally.congr rfl rfl

/-! ## The turns of the other channels -/

theorem unstopped_part (hij : j ≠ i) (h : Part inetPton j s t) : Unstopped i s t := by
  cases h with
  | resolve now =>
    obtain ⟨net, queries, options, error, heq⟩ := Resolves.doResolve inetPton j now s
    rw [heq]
    exact ⟨rfl, rfl, id⟩
  | take x hx =>
    refine ⟨?_, rfl, id⟩
    unfold takenOf
    rw [List.filter_append, List.append_right_eq_self, List.filter_eq_nil_iff]
    intro y hy hchannel
    rw [List.mem_singleton.1 hy] at hchannel
    exact hij (hx.symm.trans (of_decide_eq_true hchannel))
  | setChan base | closeSock | openSock fd hfd | modEvent add remove | fire error | ask events
  | timers timers | attempt left unclosed sockPeer | note armed timeouts => exact ⟨rfl, rfl, id⟩

theorem unstopped_quiet (hij : j ≠ i) (h : Quiet inetPton j s t) : Unstopped i s t := by
  induction h with
  | refl => exact .refl i s
  | tail _ hpart ih => exact ih.trans (unstopped_part hij hpart)

theorem unstopped_of_history {fired : List Event} {seen : List Seen}
    (hhistory : t.toHistory = { s.toHistory with fired, seen }) (hflag : t.stopFlag = s.stopFlag) :
    Unstopped i s t := by
  have htaken : t.toHistory.taken = s.taken := by rw [hhistory]
  have hstops : t.toHistory.stops = s.stops := by rw [hhistory]
  refine ⟨?_, hstops, ?_⟩
  · unfold takenOf
    rw [htaken]
  · rw [hflag]
    exact id

theorem unstopped_connected (h : Connected j b s t) : Unstopped i s t :=
  unstopped_of_history h.history h.stopFlag

theorem unstopped_received (h : Received j b s t) : Unstopped i s t :=
  unstopped_of_history h.history h.stopFlag

theorem unstopped_channelTurn {a : ChannelAnswers} (hij : j ≠ i)
    (h : ChannelTurn inetPton j a s t) : Unstopped i s t := by
  cases h with
  | quiet hq => exact unstopped_quiet hij hq
  | @connect s₁ _ hq ok hq' =>
    exact ((unstopped_quiet hij hq).trans (unstopped_connected (connected_establish j a.interval
      ok))).trans (unstopped_quiet hij hq')
  | @accept s₁ hq fd hfd hkind =>
    have hnew : Unstopped i s₁ (s₁.newSock fd a.acceptPeer) := ⟨rfl, rfl, id⟩
    exact ((unstopped_quiet hij hq).trans hnew).trans
      (unstopped_connected (connected_establish _ a.interval true))
  | lost hq htakes hfind hgranted =>
    have hunstopped := unstopped_quiet hij hq
    exact ⟨hunstopped.taken, hunstopped.stops, hunstopped.stopFlag⟩
  | @datagram s₁ hq htakes b hfind =>
    have hdeliver : Unstopped i s₁ (s₁.deliver j a.peer b) := ⟨rfl, rfl, id⟩
    exact ((unstopped_quiet hij hq).trans hdeliver).trans
      (unstopped_received (received_handleInput (i := j) b _ _))
  | @newPeer s₁ hq htakes fd hfind hfd =>
    have hdeliver : ∀ u : Service, Unstopped i u (u.deliver j a.peer s₁.freshBlock) :=
      fun u => ⟨rfl, rfl, id⟩
    exact (((unstopped_quiet hij hq).trans (unstopped_connected (connected_acceptPeer a.peer fd
      a))).trans (hdeliver _)).trans (unstopped_received (received_handleInput (i := j) _ _ _))

theorem results_apart (h : Apart i s t) : t.results i = s.results i := by
  obtain ⟨es, hfired, hes⟩ := h.fires
  exact results_of_fires hfired hes

/-! ## The timers -/

/-- The timer of channel `i` waits only while the channel is connecting. -/
structure Alarm (s : Service) (i : ℕ) : Prop where
  nodup : s.timerQueue.Nodup
  timer : .connect i ∈ s.timerQueue → (s.chan i).state = .connecting

theorem Alarm.of_aside (h : s.Alarm i) (ha : Aside i s t)
    (hstate : (s.chan i).state = .connecting → (t.chan i).state = .connecting) : t.Alarm i :=
  ⟨ha.nodup h.nodup, fun hmem => hstate (h.timer ((ha.timer h.nodup).1 hmem))⟩

theorem Alarm.takeOpen (h : s.Alarm i)
    (hopen : (s.chan i).state = .connecting → (s.chan i).opOpen = false) :
    (s.takeOpen i).Alarm i := by
  apply h.of_aside (.of_clocks (s.clocks_takeOpen i))
  intro hstate
  rwa [takeOpen_of_not_opOpen (hopen hstate)]

/-- The end of a connect that was waited for takes the timer from the queue, if it has not
expired. -/
theorem Alarm.cancelTimer (h : s.Alarm i) (hclocks : u.clocks = s.clocks)
    (hexpired : u.expired (.connect i) = false) : (u.cancelTimer (.connect i)).Alarm i := by
  have htimers : u.toTimers = s.toTimers := congrArg Prod.fst hclocks
  have hnodup : u.timerQueue.Nodup := by
    rw [htimers]
    exact h.nodup
  refine ⟨nodup_cancelTimer hnodup _, fun hmem => ?_⟩
  rw [mem_cancelTimer hnodup] at hmem
  simp [hexpired] at hmem

theorem Alarm.clientTurn {a : ChannelAnswers} (h : s.Alarm i)
    (hexpired : (s.chan i).state = .connecting → s.ready i connectReady = true →
      s.expired (.connect i) = false) (hturn : ClientTurn i a s t) : t.Alarm i := by
  have hidle : ∀ {u : Service}, (s.chan i).state = .resolving → u.clocks = s.clocks →
      u.Alarm i := by
    intro u hstate hclocks
    apply h.of_aside (.of_clocks hclocks)
    rw [hstate]
    exact nofun
  cases hturn with
  | idle hstate | pending hstate hready => exact h
  | waits hstate hres herror => exact hidle hstate (clocks_resolves hres)
  | @unresolved hstate s₁ hres error =>
    exact hidle hstate ((s₁.clocks_handleConnectFailed i error).trans (clocks_resolves hres))
  | @noSocket hstate s₁ hres error =>
    exact hidle hstate ((s₁.clocks_unbound i).trans (clocks_resolves hres))
  | @refused hstate s₁ hres fd hfd error =>
    exact hidle hstate ((s₁.clocks_unbound i).trans (clocks_resolves hres))
  | @starts hstate s₁ hres fd hfd =>
    have hattempted : ((s₁.unbound i).attempted i fd).Alarm i :=
      hidle hstate ((s₁.clocks_unbound i).trans (clocks_resolves hres))
    let u := ((s₁.unbound i).attempted i fd).expiresAt (.connect i)
      (a.now + ((s₁.unbound i).attempted i fd).options.connectTimeout)
    refine ⟨nodup_scheduleTimer (s := u) hattempted.nodup (.connect i), fun _ => ?_⟩
    change (update (s₁.unbound i).chan i _ i).state = .connecting
    rw [Function.update_self]
    exact s₁.state_unbound i
  | @connects hstate s₁ hres fd hfd =>
    exact hidle hstate ((clocks_establish _ i i a.interval a.dgramConnect).trans
      ((s₁.clocks_unbound i).trans (clocks_resolves hres)))
  | completes hstate hready =>
    let u := (s.ask i connectReady).modEvent i .none { write := true }
    apply h.cancelTimer (u := u.establish i i a.interval a.dgramConnect)
    · exact u.clocks_establish i i a.interval a.dgramConnect
    · obtain ⟨udp, sockPeer, heq⟩ := u.establish_eq (i := i) rfl i a.interval a.dgramConnect
      rw [heq]
      exact hexpired hstate hready
  | fails hstate hready error =>
    exact h.cancelTimer (u := (s.ask i connectReady).handleConnectFailed i error) rfl
      (hexpired hstate hready)

/-- The visit of the channel itself. -/
theorem Alarm.visitSelf (h : s.Alarm i) (n : ℕ) (a : ChannelAnswers)
    (hopen : (s.chan i).state = .connecting → (s.chan i).opOpen = false)
    (hexpired : (s.chan i).state = .connecting → s.ready i connectReady = true →
      s.expired (.connect i) = false)
    (hkind : testbits (s.kind i) Ycm.client = false → testbits (s.kind i) Ycm.server = false) :
    (s.visitChannel inetPton n i a).Alarm i := by
  cases hclient : testbits (s.kind i) Ycm.client with
  | false =>
    rw [visitChannel_of_no_role inetPton n a hclient (hkind hclient)]
    exact h.of_aside (.of_clocks rfl) id
  | true =>
    obtain ⟨t, hturn, ht⟩ := exists_clientTurn inetPton n a hclient
    have halarm : t.Alarm i := by
      refine (h.takeOpen hopen).clientTurn (fun hstate => ?_) hturn
      have htake := takeOpen_of_connecting hstate
      rw [htake] at hstate ⊢
      exact hexpired hstate
    rcases ht with ⟨-, ht⟩ | ⟨-, ht⟩
    · rw [ht]
      exact halarm.of_aside (.of_clocks rfl) id
    · rw [ht]
      exact halarm.of_aside (.of_clocks rfl) id

theorem Alarm.visitTransport (h : s.Alarm i) (n : ℕ) (b : Block)
    (hstate : (s.built b).ctx = i → (s.chan i).state ≠ .connecting) (a : TransportAnswers) :
    (s.visitTransport n b a).Alarm i := by
  obtain ⟨hclocks, hchan⟩ := s.clocks_visitTransport n b a
  apply h.of_aside (.of_clocks hclocks)
  rcases hchan i with hsame | ⟨hctx, -⟩
  · rw [hsame]
    exact id
  · exact fun hconnecting => absurd hconnecting (hstate hctx)

theorem Alarm.timerTurn (h : s.Alarm i) {n : ℕ} (hturn : TimerTurn n s t) : t.Alarm i := by
  cases hturn with
  | ends timers htimers =>
    rcases htimers with rfl | rfl
    · exact ⟨h.nodup, h.timer⟩
    · exact ⟨nodup_sortTimers h.nodup, fun hmem => h.timer (mem_sortTimers.1 hmem)⟩
  | userDone m hlast => exact h.of_aside (.dropLast hlast nofun) id
  | userAgain m hlast time =>
    have hdrop := h.of_aside (.dropLast hlast nofun) id
    refine ⟨?_, fun hmem => hdrop.timer ?_⟩
    · apply List.Nodup.append hdrop.nodup (List.nodup_singleton _)
      rw [List.disjoint_singleton]
      exact fun hmem => ((mem_dropLast h.nodup hlast _).1 hmem).2 rfl
    · rcases List.mem_append.1 hmem with hmem | hmem
      · exact hmem
      · cases List.mem_singleton.1 hmem
  | late j hlast hexpired hstate =>
    exact ⟨h.nodup.sublist (List.dropLast_sublist _),
      fun hmem => h.timer ((mem_dropLast h.nodup hlast _).1 hmem).1⟩
  | timeout j hlast hexpired hstate =>
    refine ⟨h.nodup.sublist (List.dropLast_sublist _), fun hmem => ?_⟩
    obtain ⟨hmem, hne⟩ := (mem_dropLast h.nodup hlast _).1 hmem
    have hij : i ≠ j := fun heq => hne (congrArg TimerId.connect heq)
    change (update s.chan j _ i).state = .connecting
    rw [Function.update_of_ne hij]
    exact h.timer hmem

/-- The turn of a timer: the timer of the channel ends its attempt. -/
theorem Tally.timerTurn (h : s.Tally i) (hiso : s.Isolated i)
    (halarm : s.Alarm i) {n : ℕ} (hturn : TimerTurn n s t) : t.Tally i := by
  cases hturn with
  | ends | userDone | userAgain | late => exact h.congr rfl rfl
  | timeout j hlast hexpired hstate =>
    let u : Service := { s with timerQueue := s.timerQueue.dropLast }
    have hfailed : (u.handleConnectFailed j ETIMEDOUT).Tally i := by
      by_cases hij : j = i
      · subst hij
        have hconnecting := halarm.timer (List.mem_of_getLast? hlast)
        apply h.failed (u := u) (.inr (.inl hconnecting)) _ rfl
        exact fun b hb => hstate (hiso.opened b hb)
      · apply h.same (t := u.handleConnectFailed j ETIMEDOUT) ⟨rfl, rfl, id⟩
        · have hother : ∀ e ∈ [u.channelEvent j ETIMEDOUT], ¬ isResult i e := by
            rintro e he ⟨-, hchannel⟩
            rw [List.mem_singleton.1 he] at hchannel
            exact hij hchannel
          exact results_of_fires rfl hother
        · refine trying_congr (fun _ => Iff.rfl) (fun _ _ => rfl) (congrArg IoBase.state ?_)
          exact Function.update_of_ne (Ne.symm hij) _ _
    exact hfailed.congr rfl rfl

/-! ## Steps -/

/-- The invariant of the attempts of channel `i`. -/
structure Attempting (s : Service) (i : ℕ) : Prop where
  alarm : s.Alarm i
  client : s.takenOf i ≠ [] → testbits (s.kind i) Ycm.client = true
  ssl : testbits (s.kind i) Ycm.ssl = true → testbits (s.kind i) Ycm.tcp = true
  tally : s.Tally i

/-- A step that is not about the attempts of the channel. -/
theorem Attempting.same (h : s.Attempting i) (ht : Unstopped i s t)
    (hresults : t.results i = s.results i) (htrying : t.Trying i ↔ s.Trying i)
    (hstate : (t.chan i).state = (s.chan i).state) (hkind : t.kind = s.kind)
    (haside : Aside i s t) : t.Attempting i := by
  refine ⟨h.alarm.of_aside haside hstate.trans, ?_, ?_, h.tally.same ht hresults htrying⟩
  · rw [ht.taken, hkind]
    exact h.client
  · rw [hkind]
    exact h.ssl

theorem Attempting.congr (h : s.Attempting i) (ha : t.accounts = s.accounts)
    (hstate : (t.chan i).state = (s.chan i).state) (hkind : t.kind = s.kind)
    (hclocks : t.clocks = s.clocks) : t.Attempting i := by
  have hpool : t.toPool = s.toPool := congrArg Prod.fst ha
  have hio : t.io = s.io := congrArg (fun c => c.2.1) ha
  apply h.same (unstopped_of_accounts ha) (results_of_accounts ha) _ hstate hkind
    (.of_clocks hclocks)
  exact trying_congr (links_of_pool hpool) (fun b _ => by rw [hio]) hstate

theorem unstopped_visitTransport (s : Service) (n : ℕ) (b : Block) (a : TransportAnswers) :
    Unstopped i s (s.visitTransport n b a) := by
  obtain ⟨s', hs', hend⟩ := s.exists_turnEnd (b := b) n a
  have hunstopped : Unstopped i s s' :=
    unstopped_touched ((s.touched_atRead (b := b) a).trans hs'.toTouched)
  generalize s.visitTransport n b a = t at hend
  cases hend with
  | thrown | kept hasked => exact ⟨hunstopped.taken, hunstopped.stops, hunstopped.stopFlag⟩
  | dropped => exact hunstopped.trans (unstopped_dropTransport s' n b a.tail)

theorem Attempting.visitTransport (h : s.Attempting i) (hiso : s.Isolated i)
    (hs : s.toPool.Sound) {n : ℕ} (hb : s.transports[n]? = some b) (a : TransportAnswers)
    (hcond : (s.built b).ctx = i → (s.io b).state ≠ .opened → s.closes n b a = true →
      s.handshakeEnds b a = false → ∀ x ∈ (s.takenOf i).getLast?, s.Interrupted x) :
    (s.visitTransport n b a).Attempting i := by
  refine ⟨?_, ?_, ?_, ?_⟩
  · apply h.alarm.visitTransport n b
    intro hctx hconnecting
    have hopened := hiso.opened b ⟨List.mem_of_getElem? hb, hctx⟩
    cases hopened.symm.trans hconnecting
  · rw [(unstopped_visitTransport s n b a).taken, kind_visitTransport]
    exact h.client
  · rw [kind_visitTransport]
    exact h.ssl
  · by_cases hctx : (s.built b).ctx = i
    · exact h.tally.visitOwn hiso hs h.client hb hctx (hcond hctx)
    · exact h.tally.visitOther hs hb hctx a

theorem Attempting.visitSelf (h : s.Attempting i) (hiso : s.Isolated i) (hs : s.toPool.Sound)
    {n : ℕ} (hphase : s.phase = .channels n) (hi : s.channelOps[n]? = some i) (a : ChannelAnswers)
    (hopen : (s.chan i).state = .resolving ∨ (s.chan i).state = .connecting →
      (s.chan i).opOpen = false)
    (hexpired : (s.chan i).state = .connecting → s.ready i connectReady = true →
      s.expired (.connect i) = false) : (s.visitChannel inetPton n i a).Attempting i := by
  refine ⟨?_, ?_, ?_, ?_⟩
  · exact h.alarm.visitSelf n a (fun hconnecting => hopen (.inr hconnecting)) hexpired hiso.kind
  · rw [kind_visitChannel]
    cases hclient : testbits (s.kind i) Ycm.client with
    | true => exact fun _ => rfl
    | false =>
      rw [visitChannel_of_no_role inetPton n a hclient (hiso.kind hclient), ← hclient]
      exact h.client
  · rw [kind_visitChannel]
    exact h.ssl
  · exact h.tally.visitSelf hiso hs hphase hi a hopen h.ssl

theorem Attempting.visitChannel (h : s.Attempting i) (hs : s.toPool.Sound) (hi : i < s.nextSock)
    (n : ℕ) (hij : j ≠ i) (a : ChannelAnswers) : (s.visitChannel inetPton n j a).Attempting i := by
  obtain ⟨t, hturn, ht⟩ := s.exists_channelTurn inetPton n j a
  have hapart : Apart i s t := .of_channelTurn hij hi hs hturn
  have hstate : (t.chan i).state = (s.chan i).state := by rw [hturn.frame.chan i hij.symm]
  have hunstopped : Unstopped i s t := unstopped_channelTurn hij hturn
  have htrying : t.Trying i ↔ s.Trying i := trying_congr hapart.links hapart.io hstate
  have hresults : t.results i = s.results i := results_apart hapart
  have haside : Aside i s (s.visitChannel inetPton n j a) := .visitChannel hij n a
  rcases ht with ht | ht
  · rw [ht] at haside ⊢
    exact h.same ⟨hunstopped.taken, hunstopped.stops, hunstopped.stopFlag⟩ hresults htrying hstate
      hturn.frame.kind haside
  · rw [ht] at haside ⊢
    exact h.same ⟨hunstopped.taken, hunstopped.stops, hunstopped.stopFlag⟩ hresults htrying hstate
      hturn.frame.kind haside

theorem Attempting.timerTurn (h : s.Attempting i) (hiso : s.Isolated i) {n : ℕ}
    (hturn : TimerTurn n s t) : t.Attempting i := by
  have hframe : t.kind = s.kind ∧ t.takenOf i = s.takenOf i := by
    cases hturn <;> exact ⟨rfl, rfl⟩
  refine ⟨h.alarm.timerTurn hturn, ?_, ?_, h.tally.timerTurn hiso h.alarm hturn⟩
  · rw [hframe.1, hframe.2]
    exact h.client
  · rw [hframe.1]
    exact h.ssl

/-- The invariant of the attempts of channel `i`, with what it rests on. -/
structure Counted (s : Service) (i : ℕ) : Prop extends s.Reopened i where
  attempting : s.Attempting i

end Service

/-- A transport of channel `i` is not closed before its handshake has ended, unless the service was
stopped since the request was taken up; no open request is taken up while the channel is resolving
or connecting, and no connect ends after its timer has expired; and the channel is opened for SSL
over TCP only. -/
def ResultsKept (i : ℕ) (s : Service) : Action → Prop
  | .transport a => ∀ x ∈ s.transportTurn, (s.built x.2).ctx = i → (s.io x.2).state ≠ .opened →
      s.closes x.1 x.2 a = true → s.handshakeEnds x.2 a = false →
        ∀ y ∈ (s.takenOf i).getLast?, s.Interrupted y
  | .channel _ => i ∈ s.channelTurn →
      ((s.chan i).state = .resolving ∨ (s.chan i).state = .connecting →
          (s.chan i).opOpen = false) ∧
        ((s.chan i).state = .connecting → s.ready i connectReady = true →
          s.expired (.connect i) = false)
  | .openKind j kind => j = i → testbits kind Ycm.ssl = true → testbits kind Ycm.tcp = true
  | _ => True

instance (i : ℕ) (s : Service) (a : Action) : Decidable (ResultsKept i s a) := by
  unfold ResultsKept
  induction a using Action.casesOn <;> infer_instance

namespace Service

variable {s : Service} {i : ℕ} {inetPton : Host → Option Ip}

theorem Counted.effect (h : s.Counted i) {a : Action} (henabled : s.enabled a = true)
    (hcond : OpensAhead i s a ∧ ResultsKept i s a) (hclient : OpensClient i a) :
    (s.effect inetPton a).Counted i := by
  refine ⟨h.toReopened.effect henabled hcond.1 hclient, ?_⟩
  have hiso := h.isolated
  have hatt := h.attempting
  have hkept := hcond.2
  -- A flag of a channel does not count as a result.
  have hmasks : ∀ {j : ℕ} {base : IoBase}, base.state = (s.chan j).state →
      (s.setChan j base).Attempting i := by
    intro j base hstate
    exact hatt.congr rfl (state_setChan hstate i) rfl rfl
  cases a with
  | transport a =>
    obtain ⟨n, hn, ⟨-, heq⟩ | ⟨b, hb, heq⟩⟩ := transport_cases inetPton henabled
    · exact heq ▸ hatt.congr rfl rfl rfl rfl
    · exact heq ▸ hatt.visitTransport hiso h.sound hb a (hkept (n, b) (mem_transportTurn hn hb))
  | channel a =>
    obtain ⟨n, hn, ⟨-, heq⟩ | ⟨j, hj, heq⟩⟩ := channel_cases inetPton henabled
    · exact heq ▸ hatt.congr rfl rfl rfl rfl
    · rw [heq]
      by_cases hij : j = i
      · subst hij
        obtain ⟨hopen, hexpired⟩ := hkept (mem_channelTurn hn hj)
        exact hatt.visitSelf hiso h.sound hn hj a hopen hexpired
      · exact hatt.visitChannel h.sound hiso.lt n hij a
  | timer again =>
    obtain ⟨n, -, heq⟩ := timer_cases inetPton henabled
    exact heq ▸ hatt.timerTurn hiso (exists_timerTurn n again)
  | openKind j kind =>
    have htally : (s.openKind j kind).Tally i := hatt.tally.congr rfl rfl
    refine ⟨hatt.alarm.of_aside (.of_clocks rfl) id, fun hne => ?_, ?_, htally⟩
    · change testbits (update s.kind j kind i) Ycm.client = true
      by_cases hij : i = j
      · subst hij
        rw [Function.update_self]
        exact hclient rfl
      · rw [Function.update_of_ne hij]
        exact hatt.client hne
    · change testbits (update s.kind j kind i) Ycm.ssl = true →
        testbits (update s.kind j kind i) Ycm.tcp = true
      by_cases hij : i = j
      · subst hij
        rw [Function.update_self]
        exact hkept rfl
      · rw [Function.update_of_ne hij]
        exact hatt.ssl
  | openMask n =>
    have hset : (s.setChan (s.opening n).1
        { s.chan (s.opening n).1 with opClose := false, opOpen := true }).Attempting i := hmasks rfl
    exact hset.congr rfl rfl rfl rfl
  | closeChannel j => exact hmasks (s.state_closedChan j)
  -- The stop lets every attempt end without its result.
  | stop =>
    have hstate := s.state_stop i
    refine ⟨hatt.alarm.of_aside (.of_clocks rfl) hstate.trans, hatt.client, hatt.ssl, ?_⟩
    apply hatt.tally.stop (t := s.stop) rfl rfl rfl
    exact trying_congr (fun _ => Iff.rfl) (fun _ _ => rfl) hstate
  | answer n result =>
    cases result with
    | ok result => exact hatt.congr rfl rfl rfl rfl
    | error error =>
      exact hatt.congr rfl (s.state_storeAnswer n (.error error) i) rfl rfl
  | closeTransport b =>
    refine hatt.same ⟨rfl, rfl, id⟩ rfl ?_ rfl rfl (.of_clocks rfl)
    refine trying_congr (fun _ => Iff.rfl) (fun b' _ => ?_) rfl
    change (update s.io b { s.io b with opClose := true } b').state = _
    by_cases hb : b' = b
    · subst hb
      rw [Function.update_self]
    · rw [Function.update_of_ne hb]
  | udpConnect b ok =>
    obtain ⟨udp, sockPeer, heq, -⟩ := s.exists_udpConnect b ok
    dsimp only [Service.effect]
    rw [heq]
    exact hatt.congr rfl rfl rfl rfl
  | expiresFromNow n time =>
    have hne : TimerId.user n ≠ .connect i := by simp
    exact hatt.same ⟨rfl, rfl, id⟩ rfl Iff.rfl rfl rfl (.expiresAt hne time)
  | scheduleTimer n time =>
    have hne : TimerId.user n ≠ .connect i := by simp
    exact hatt.same ⟨rfl, rfl, id⟩ rfl Iff.rfl rfl rfl (.scheduleTimer hne time)
  | cancelTimer n =>
    have haside : Aside i s (s.cancelTimer (.user n)) := .cancelTimer (by simp)
    obtain ⟨timers, heq⟩ := s.exists_cancelTimer (.user n)
    dsimp only [Service.effect]
    rw [heq] at haside ⊢
    exact hatt.same ⟨rfl, rfl, id⟩ rfl Iff.rfl rfl rfl haside
  | join =>
    obtain ⟨events, heq, -⟩ := s.exists_join
    dsimp only [Service.effect]
    rw [heq]
    exact hatt.congr rfl rfl rfl rfl
  | finishStop =>
    dsimp only [Service.effect]
    rw [h.toOrderly.finishStop_eq henabled]
    refine ⟨⟨List.nodup_nil, by simp⟩, hatt.client, hatt.ssl, ?_⟩
    exact hatt.tally.same ⟨rfl, rfl, by simp⟩ rfl Iff.rfl
  | _ => exact hatt.congr rfl rfl rfl rfl

theorem counted_fresh {channelCount : ℕ} (hi : i < channelCount) (options : Options)
    (uparams : ℕ → UnpackParams) : (Service.fresh channelCount options uparams).Counted i := by
  refine ⟨reopened_fresh hi options uparams, ⟨List.nodup_nil, nofun⟩, ?_, ?_, ?_⟩
  · exact fun hne => absurd rfl hne
  · exact fun hssl => absurd hssl (by decide : testbits 0 Ycm.ssl ≠ true)
  · refine ⟨nofun, nofun, fun _ => ⟨rfl, ?_⟩, .nil, nofun, nofun⟩
    apply not_trying_of_closed (.inl rfl)
    exact fun b hb => nomatch hb.1

end Service

/-- Every request of a client channel that was taken up has had exactly one result when the next
one is taken up, and the last one has had one unless it is still under way; only an attempt during
which the service was stopped can end without a result. -/
theorem results_of_run {inetPton : Host → Option Ip} {channelCount : ℕ} {options : Options}
    {uparams : ℕ → UnpackParams} {as : List Action} {s : Service} {i : ℕ} (hi : i < channelCount)
    (hclient : ∀ a ∈ as, OpensClient i a)
    (hrun : Machine.run (step inetPton) as (.fresh channelCount options uparams) = some s)
    (hcond : Machine.Meets (step inetPton) (fun s a => OpensAhead i s a ∧ ResultsKept i s a) as
      (.fresh channelCount options uparams)) :
    (s.takenOf i).IsChain TakeUp.Precedes ∧ (∀ x ∈ (s.takenOf i).head?, x.results = 0) ∧
      (s.takenOf i = [] → s.results i = 0) ∧
        ∀ x ∈ (s.takenOf i).getLast?,
          s.results i = x.results ∧ (s.Trying i ∨ s.Interrupted x) ∨
            s.results i = x.results + 1 ∧ ¬ s.Trying i := by
  have h : s.Counted i := by
    refine Machine.invariant_of_meets (I := fun s => Service.Counted s i) ?_ ?_
      (hcond.and_of_forall hclient) hrun
    · intro s a s' hs hcond hstep
      obtain ⟨henabled, rfl⟩ := step_eq_some.1 hstep
      exact hs.effect henabled hcond.1 hcond.2
    · exact Service.counted_fresh hi options uparams
  have htally := h.attempting.tally
  exact ⟨htally.chain, htally.first, fun hnil => (htally.none hnil).1, htally.last⟩

/-- Channel 0 connects, is closed by the user, and connects again. -/
def connectAgain : List Action :=
  connectFirst ++
    [.closeChannel 0, .frame 2, .poll (some fun _ => {}), .transport {}, .transport {},
      .timer none, .endEvents, .openKind 0 Yck.tcpClient, .openTest 0, .openMask 0, .openInsert 0,
      .frame 3, .poll (some fun _ => {}), .transport {}, .channel { now := 3, socket := .ok 6 }]

theorem results_of_run_connectAgain :
    ∃ s, Machine.run (step fun _ => some (.v4 1)) connectAgain
        (.fresh 1 { noDispatch := true } fun _ => {}) = some s ∧
      ((s.takenOf 0).map TakeUp.results = [0, 1] ∧ s.results 0 = 2) ∧
        (s.takenOf 0).IsChain TakeUp.Precedes := by
  obtain ⟨s, hrun, hs⟩ := Machine.exists_of_any (step fun _ => some (.v4 1)) connectAgain
    (.fresh 1 { noDispatch := true } fun _ => {})
    (fun s => (s.takenOf 0).map TakeUp.results = [0, 1] ∧ s.results 0 = 2) (by decide +kernel)
  exact ⟨s, hrun, hs,
    (results_of_run Nat.zero_lt_one (by decide +kernel) hrun (by decide +kernel)).1⟩

/-- The user closes channel 0 during its SSL handshake and opens it again. -/
def closeHandshake : List Action :=
  [.start, .setHost 0 ['a'], .setPort 0 443, .openKind 0 Yck.sslClient, .openTest 0, .openMask 0,
    .openInsert 0, .frame 1, .poll (some fun _ => {}), .transport {}, .channel { socket := .ok 5 },
    .channel {}, .timer none, .endEvents, .closeChannel 0, .frame 2, .poll (some fun _ => {}),
    .transport {}, .transport {}, .timer none, .endEvents, .openKind 0 Yck.sslClient, .openTest 0,
    .openMask 0, .openInsert 0, .frame 3, .poll (some fun _ => {}), .transport {},
    .channel { now := 3, socket := .ok 6 }]

/-- The transport is closed without any event, and the next request is taken up when the first one
has had no result. -/
theorem no_result_of_closeHandshake :
    ∃ s, Machine.run (step fun _ => some (.v4 1)) closeHandshake
        (.fresh 1 { noDispatch := true } fun _ => {}) = some s ∧
      s.takenOf 0 = [⟨0, 0, 0, false⟩, ⟨0, 0, 0, false⟩] ∧
        ¬ (s.takenOf 0).IsChain TakeUp.Precedes := by
  obtain ⟨s, hrun, hs⟩ := Machine.exists_of_any (step fun _ => some (.v4 1)) closeHandshake
    (.fresh 1 { noDispatch := true } fun _ => {})
    (fun s => s.takenOf 0 = [⟨0, 0, 0, false⟩, ⟨0, 0, 0, false⟩]) (by decide +kernel)
  refine ⟨s, hrun, hs, fun hchain => ?_⟩
  rw [hs, List.isChain_pair] at hchain
  exact absurd (hchain.result rfl rfl) (by decide)

end Yasio
