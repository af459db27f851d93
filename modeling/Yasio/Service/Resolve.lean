import Yasio.Service.PoolSteps

/-!
# The addresses that a channel connects to

`do_resolve` returns 0 with addresses of the current host and port as long as no resolver thread
answers for a host or a port that the channel has given up without a flag to tell so, and the
answers are addresses with the port that was asked for.
-/

namespace Yasio

open Function (update)

/-! ## The addresses of one channel -/

namespace Net

/-- The addresses are those of the host and the port, or a flag says that they are not. -/
structure Current (net : Net) : Prop where
  inet : ∀ r ∈ net.remoteEps, r.ep ≠ .unspec ∨ net.hostDirty = true
  host : ∀ r ∈ net.remoteEps, r.host = net.remoteHost ∨ net.hostDirty = true
  port : ∀ r ∈ net.remoteEps,
    r.ep.port = net.remotePort ∨ net.portDirty = true ∨ net.hostDirty = true

/-- The addresses are those of the host and the port. -/
structure Fresh (net : Net) : Prop where
  inet : ∀ r ∈ net.remoteEps, r.ep ≠ .unspec
  host : ∀ r ∈ net.remoteEps, r.host = net.remoteHost
  port : ∀ r ∈ net.remoteEps, r.ep.port = net.remotePort

variable {net : Net}

theorem Fresh.current (h : net.Fresh) : net.Current :=
  ⟨fun r hr => .inl (h.inet r hr), fun r hr => .inl (h.host r hr),
    fun r hr => .inl (h.port r hr)⟩

theorem Fresh.of_nil (h : net.remoteEps = []) : net.Fresh := by
  constructor <;> simp [h]

theorem Current.setHost (h : net.Current) (host : Host) : (net.setHost host).Current := by
  unfold Net.setHost
  split
  · exact ⟨fun _ _ => .inr rfl, fun _ _ => .inr rfl, fun _ _ => .inr (.inr rfl)⟩
  · exact h

theorem Current.setPort (h : net.Current) (port : ℕ) : (net.setPort port).Current := by
  unfold Net.setPort
  split
  · exact h
  · split
    · exact ⟨h.inet, h.host, fun _ _ => .inr (.inl rfl)⟩
    · exact h

theorem port_setPort {ep : Endpoint} (h : ep ≠ .unspec) (port : ℕ) :
    (ep.setPort port).port = port := by
  cases ep with
  | unspec => exact absurd rfl h
  | in4 addr port => rfl
  | in6 port flowinfo addr scopeId pad => rfl

theorem setPort_ne_unspec {ep : Endpoint} (h : ep ≠ .unspec) (port : ℕ) :
    ep.setPort port ≠ .unspec := by
  cases ep with
  | unspec => exact absurd rfl h
  | in4 addr port => exact nofun
  | in6 port flowinfo addr scopeId pad => exact nofun

/-- Once the host has been taken up, only the port can be wrong. -/
theorem Current.refreshHost (h : net.Current) (inetPton : Host → Option Ip) :
    (net.refreshHost inetPton).Current ∧ (net.refreshHost inetPton).hostDirty = false := by
  unfold Net.refreshHost
  cases hd : net.hostDirty with
  | false => exact ⟨h, hd⟩
  | true =>
    refine ⟨⟨?_, ?_, ?_⟩, rfl⟩ <;>
    · intro r hr
      simp only [if_true, List.mem_map] at hr
      obtain ⟨ip, -, rfl⟩ := hr
      cases ip <;> simp [Ip.endpoint, Endpoint.port]

theorem Current.refreshPort (h : net.Current) (hd : net.hostDirty = false) :
    net.refreshPort.Fresh := by
  have hinet : ∀ r ∈ net.remoteEps, r.ep ≠ .unspec := fun r hr =>
    (h.inet r hr).resolve_right (by rw [hd]; decide)
  unfold Net.refreshPort
  cases hp : net.portDirty with
  | false =>
    refine ⟨hinet, fun r hr => ?_, fun r hr => ?_⟩
    · simpa [hd] using h.host r hr
    · simpa [hd, hp] using h.port r hr
  | true =>
    refine ⟨?_, ?_, ?_⟩ <;>
    · intro r hr
      simp only [if_true, List.mem_map] at hr
      obtain ⟨r', hr', rfl⟩ := hr
      first
        | exact setPort_ne_unspec (hinet r' hr') _
        | simpa [hd] using h.host r' hr'
        | exact port_setPort (hinet r' hr') _

theorem Current.refresh (h : net.Current) (inetPton : Host → Option Ip) :
    (net.refreshHost inetPton).refreshPort.Fresh :=
  (h.refreshHost inetPton).1.refreshPort (h.refreshHost inetPton).2

end Net

namespace Service

variable {inetPton : Host → Option Ip} {s : Service}

/-- Every channel has current addresses. -/
def Current (s : Service) : Prop := ∀ i, (s.net i).Current

theorem Current.setNet (h : s.Current) {i : ℕ} {net : Net} (hnet : net.Current) :
    (s.setNet i net).Current := by
  intro j
  by_cases hj : j = i
  · subst hj
    simpa [Service.setNet] using hnet
  · simpa [Service.setNet, hj] using h j

theorem fresh_setNet {i : ℕ} {net : Net} (hnet : net.Fresh) : ((s.setNet i net).net i).Fresh := by
  rwa [show (s.setNet i net).net i = net from Function.update_self _ _ _]

/-- `update_dns_status` changes no address. -/
theorem net_updateDnsStatus (i : ℕ) :
    ∃ time, s.updateDnsStatus.net i = { s.net i with querySuccessTime := time } := by
  unfold updateDnsStatus
  split
  · by_cases hi : i < s.channelCount
    · exact ⟨0, if_pos hi⟩
    · exact ⟨(s.net i).querySuccessTime, if_neg hi⟩
  · exact ⟨(s.net i).querySuccessTime, rfl⟩

theorem Current.updateDnsStatus (h : s.Current) : s.updateDnsStatus.Current := by
  intro i
  obtain ⟨time, heq⟩ := s.net_updateDnsStatus i
  rw [heq]
  exact ⟨(h i).inet, (h i).host, (h i).port⟩

theorem fresh_updateDnsStatus {i : ℕ} (h : (s.net i).Fresh) : (s.updateDnsStatus.net i).Fresh := by
  obtain ⟨time, heq⟩ := s.net_updateDnsStatus i
  rw [heq]
  exact ⟨h.inet, h.host, h.port⟩

/-- `do_resolve` leaves the addresses of the channel fresh, and all others current. -/
theorem Current.doResolve (h : s.Current) (inetPton : Host → Option Ip) (i now : ℕ) :
    (s.doResolve inetPton i now).1.Current ∧ ((s.doResolve inetPton i now).1.net i).Fresh := by
  let s₁ := s.setNet i ((s.net i).refreshHost inetPton).refreshPort
  have hfresh := (h i).refresh inetPton
  have h₁ : s₁.Current ∧ (s₁.net i).Fresh :=
     ⟨h.setNet hfresh.current, fresh_setNet hfresh⟩
  have h₂ : s₁.updateDnsStatus.Current ∧ (s₁.updateDnsStatus.net i).Fresh :=
    ⟨h₁.1.updateDnsStatus, fresh_updateDnsStatus h₁.2⟩
  have hquery : ∀ t : Service, t.Current ∧ (t.net i).Fresh →
      let t' := (if (t.net i).remoteHost ≠ [] then
          if (t.chan i).error = 0 then (t.startQuery i, false) else (t, false)
        else (t.setChan i { t.chan i with error := Errc.noAvailableAddress }, false)).1
      t'.Current ∧ (t'.net i).Fresh := by
    intro t ht
    dsimp only
    split
    · split
      · exact ht
      · exact ht
    · exact ht
  unfold Service.doResolve
  dsimp only
  split
  · split
    · exact h₁
    · split
      · exact h₂
      · split
        · exact h₂
        · have hnil : { s₁.updateDnsStatus.net i with remoteEps := [] }.Fresh := .of_nil rfl
          apply hquery
          exact ⟨h₂.1.setNet hnil.current, fresh_setNet hnil⟩
  · exact hquery s₁ h₁

/-! ## Steps -/

/-- A part of a step that touches the addresses by `do_resolve` only. -/
inductive ResolvePart (inetPton : Host → Option Ip) : Service → Service → Prop
  | same {s s' : Service} (net : s'.net = s.net) (options : s'.options = s.options)
      (channelCount : s'.channelCount = s.channelCount) : ResolvePart inetPton s s'
  | resolve (s : Service) (i now : ℕ) : ResolvePart inetPton s (s.doResolve inetPton i now).1

/-- A chain of such parts. -/
abbrev ResolveChain (inetPton : Host → Option Ip) : Service → Service → Prop :=
  Relation.ReflTransGen (ResolvePart inetPton)

theorem chain_of_eq {s' : Service} (net : s'.net = s.net) (options : s'.options = s.options)
    (channelCount : s'.channelCount = s.channelCount) : ResolveChain inetPton s s' :=
  .single (.same net options channelCount)

theorem chain_of_quiet {i : ℕ} {s' : Service} (h : Quiet inetPton i s s') :
    ResolveChain inetPton s s' := by
  induction h with
  | refl => exact .refl
  | tail _ hpart ih =>
    refine ih.tail ?_
    cases hpart with
    | resolve now => exact .resolve _ i now
    | _ => exact .same rfl rfl rfl

theorem options_udpConnect (b : Block) (ok : Bool) : (s.udpConnect b ok).options = s.options := by
  obtain ⟨udp, sockPeer, heq, -⟩ := s.exists_udpConnect b ok
  rw [heq]

theorem options_configureRemote (b : Block) (peer : Endpoint) (ok : Bool) :
    (s.configureRemote b peer ok).options = s.options := by
  unfold configureRemote
  dsimp only
  split
  · rfl
  · split
    · exact options_udpConnect b ok
    · rfl

theorem options_handleConnectSucceed (b : Block) (ok : Bool) :
    (s.handleConnectSucceed b ok).options = s.options := by
  unfold handleConnectSucceed
  dsimp only
  split
  · split
    · exact options_configureRemote b _ ok
    · rfl
  · rfl

theorem options_acceptPeer (i : ℕ) (peer : Endpoint) (fd : Fd) (a : ChannelAnswers) :
    (s.acceptPeer i peer fd a).options = s.options := by
  unfold acceptPeer
  dsimp only
  split
  · exact options_configureRemote _ peer _
  · exact (options_handleConnectSucceed _ true).trans (options_configureRemote _ peer _)

theorem options_handleInput (b : Block) (data : List UInt8) (error : Option ℕ) :
    (s.handleInput b data error).options = s.options := by
  unfold handleInput
  split
  · split <;> rfl
  · split <;> rfl

theorem chain_establish (i : ℕ) (k : SockId) (interval : ℕ) (ok : Bool) :
    ResolveChain inetPton s (s.establish i k interval ok) :=
  have h := connected_establish (i := i) k interval ok
  chain_of_eq h.net (options_handleConnectSucceed _ ok) h.channelCount

theorem chain_handleInput (b : Block) (data : List UInt8) (error : Option ℕ) :
    ResolveChain inetPton s (s.handleInput b data error) :=
  have h := received_handleInput (i := 0) b data error
  chain_of_eq h.net (options_handleInput b data error) h.channelCount

theorem chain_newSock (fd : Fd) (peer : Endpoint) :
    ResolveChain inetPton s (s.newSock fd peer) := chain_of_eq rfl rfl rfl

theorem chain_deliver (i : ℕ) (peer : Endpoint) (b : Block) :
    ResolveChain inetPton s (s.deliver i peer b) := chain_of_eq rfl rfl rfl

theorem chain_acceptPeer (i : ℕ) (peer : Endpoint) (fd : Fd) (a : ChannelAnswers) :
    ResolveChain inetPton s (s.acceptPeer i peer fd a) :=
  have h := connected_acceptPeer (i := i) peer fd a
  chain_of_eq h.net (options_acceptPeer i peer fd a) h.channelCount

theorem chain_visitChannel (n i : ℕ) (a : ChannelAnswers) :
    ResolveChain inetPton s (s.visitChannel inetPton n i a) := by
  obtain ⟨t, hturn, ht⟩ := s.exists_channelTurn inetPton n i a
  have hchain : ResolveChain inetPton s t := by
    cases hturn with
    | quiet hq => exact chain_of_quiet hq
    | connect hq ok hq' =>
      exact ((chain_of_quiet hq).trans (chain_establish i i a.interval ok)).trans
        (chain_of_quiet hq')
    | accept hq fd hfd hkind =>
      exact ((chain_of_quiet hq).trans (chain_newSock fd a.acceptPeer)).trans
        (chain_establish i _ a.interval true)
    | lost hq htakes hfind hgranted => exact (chain_of_quiet hq).trans (chain_of_eq rfl rfl rfl)
    | datagram hq htakes b hfind =>
      exact ((chain_of_quiet hq).trans (chain_deliver i a.peer b)).trans (chain_handleInput b _ _)
    | newPeer hq htakes fd hfind hfd =>
      exact (((chain_of_quiet hq).trans (chain_acceptPeer i a.peer fd a)).trans
        (chain_deliver i a.peer _)).trans (chain_handleInput _ _ _)
  rcases ht with ht | ht
  · exact hchain.trans (chain_of_eq (by rw [ht]) (by rw [ht]) (by rw [ht]))
  · exact hchain.trans (chain_of_eq (by rw [ht]) (by rw [ht]) (by rw [ht]))

theorem chain_visitTransport (n : ℕ) (b : Block) (a : TransportAnswers) :
    ResolveChain inetPton s (s.visitTransport n b a) := by
  obtain ⟨s', hs, hend⟩ := s.exists_turnEnd (b := b) n a
  have ht : Touched b s s' := (s.touched_atRead (b := b) a).trans hs.toTouched
  have hs' : ResolveChain inetPton s s' :=
    chain_of_eq (congrArg Channels.net ht.channels)
      ((congrArg Loop.options ht.loop).trans rfl) (congrArg Channels.channelCount ht.channels)
  generalize s.visitTransport n b a = t at hend
  cases hend with
  | thrown => exact hs'.trans (chain_of_eq rfl rfl rfl)
  | kept hasked => exact hs'.trans (chain_of_eq rfl rfl rfl)
  | dropped =>
    obtain ⟨chan, io, sockets, heq, -⟩ := s'.exists_dropTransport n b a.tail
    rw [heq]
    exact hs'.trans (chain_of_eq rfl rfl rfl)

end Service

/-- The actions that do more to the addresses or the options than call `do_resolve`. -/
def Action.renames : Action → Bool
  | .answer _ _ | .setHost _ _ | .setPort _ _ | .setLocal _ _ _ | .setMcast _ _ | .setDnsDirty =>
    true
  | _ => false

namespace Service

variable {inetPton : Host → Option Ip} {s : Service}

theorem chain_effect {a : Action} (henabled : s.enabled a = true) (hnames : a.renames = false) :
    ResolveChain inetPton s (s.effect inetPton a) := by
  cases a with
  | answer n result | setHost i host | setPort i port | setLocal i host port | setMcast i flag
  | setDnsDirty => cases hnames
  | transport a =>
    obtain ⟨n, -, ⟨-, heq⟩ | ⟨b, -, heq⟩⟩ := transport_cases inetPton henabled
    · rw [heq]
      exact chain_of_eq rfl rfl rfl
    · rw [heq]
      exact chain_visitTransport n b a
  | channel a =>
    obtain ⟨n, -, ⟨-, heq⟩ | ⟨i, -, heq⟩⟩ := channel_cases inetPton henabled
    · rw [heq]
      exact chain_of_eq rfl rfl rfl
    · rw [heq]
      exact chain_visitChannel n i a
  | timer again =>
    obtain ⟨n, -, heq⟩ := timer_cases inetPton henabled
    obtain ⟨i, t, phase, ht, -, heq'⟩ := s.exists_processTimer inetPton n again
    rw [heq, heq']
    exact (chain_of_quiet ht).trans (chain_of_eq rfl rfl rfl)
  | udpConnect b ok =>
    obtain ⟨udp, sockPeer, heq, -⟩ := s.exists_udpConnect b ok
    rw [show s.effect inetPton (.udpConnect b ok) = _ from heq]
    exact chain_of_eq rfl rfl rfl
  | cancelTimer n =>
    obtain ⟨timers, heq⟩ := s.exists_cancelTimer (.user n)
    rw [show s.effect inetPton (.cancelTimer n) = _ from heq]
    exact chain_of_eq rfl rfl rfl
  | join =>
    obtain ⟨events, heq, -⟩ := s.exists_join
    rw [show s.effect inetPton .join = _ from heq]
    exact chain_of_eq rfl rfl rfl
  | finishStop =>
    obtain ⟨io, sockets, heq⟩ := s.exists_clearTransports
    dsimp only [Service.effect, finishStop]
    rw [heq]
    exact chain_of_eq rfl rfl rfl
  | _ => exact chain_of_eq rfl rfl rfl

theorem Current.of_chain {s' : Service} (h : s.Current) (hchain : ResolveChain inetPton s s') :
    s'.Current := by
  induction hchain with
  | refl => exact h
  | tail _ hpart ih =>
    cases hpart with
    | same net options channelCount =>
      intro i
      rw [net]
      exact ih i
    | resolve i now => exact (ih.doResolve inetPton i now).1

end Service

/-- The answers of the resolver threads are addresses for the host that the channel has, with its
port, or a flag says that it has given the host or the port up.  The resolver may be the user's own
function, so nothing else is known of its answers. -/
def AnswerCurrent (s : Service) : Action → Prop
  | .answer n (.ok (eps, _)) =>
    let q := s.query n
    let net := s.net q.channel
    net.hostDirty = true ∨
      ∀ ep ∈ eps, ep ≠ .unspec ∧ q.host = net.remoteHost ∧
        (ep.port = net.remotePort ∨ net.portDirty = true)
  | _ => True

instance (s : Service) (a : Action) : Decidable (AnswerCurrent s a) := by
  unfold AnswerCurrent
  split <;> infer_instance

namespace Service

variable {inetPton : Host → Option Ip} {s : Service}

theorem Current.storeAnswer (h : s.Current) {n : ℕ} {result : Except ℕ (List Endpoint × ℕ)}
    (hcond : AnswerCurrent s (.answer n result)) : (s.storeAnswer n result).Current := by
  cases result with
  | error e => exact h
  | ok answer =>
    obtain ⟨eps, now⟩ := answer
    refine Current.setNet (s := { s with queries := s.queries.eraseIdx n }) h ?_
    rcases hcond with hdirty | hanswer
    · exact ⟨fun _ _ => .inr hdirty, fun _ _ => .inr hdirty, fun _ _ => .inr (.inr hdirty)⟩
    · refine ⟨fun r hr => ?_, fun r hr => ?_, fun r hr => ?_⟩
      · obtain ⟨ep, hep, rfl⟩ := List.mem_map.1 hr
        exact .inl (hanswer ep hep).1
      · obtain ⟨ep, hep, rfl⟩ := List.mem_map.1 hr
        exact .inl (hanswer ep hep).2.1
      · obtain ⟨ep, hep, rfl⟩ := List.mem_map.1 hr
        exact (hanswer ep hep).2.2.imp_right .inl

/-- Every step under the condition keeps the addresses current. -/
theorem Current.effect (h : s.Current) {a : Action} (henabled : s.enabled a = true)
    (hcond : AnswerCurrent s a) : (s.effect inetPton a).Current := by
  cases hnames : a.renames with
  | false => exact h.of_chain (chain_effect henabled hnames)
  | true =>
    cases a with
    | answer n result => exact h.storeAnswer hcond
    | setHost i host => exact h.setNet ((h i).setHost host)
    | setPort i port => exact h.setNet ((h i).setPort port)
    | setLocal i host port => exact h.setNet ⟨(h i).inet, (h i).host, (h i).port⟩
    | setMcast i flag => exact h.setNet ⟨(h i).inet, (h i).host, (h i).port⟩
    | setDnsDirty => exact h
    | _ => cases hnames

end Service

/-- Whenever `do_resolve` returns 0, the channel has addresses of its host with its port. -/
theorem doResolve_current {inetPton : Host → Option Ip} {channelCount : ℕ} {options : Options}
    {uparams : ℕ → UnpackParams} {as : List Action} {s : Service}
    (hrun : Machine.run (step inetPton) as (.fresh channelCount options uparams) = some s)
    (hcond : Machine.Meets (step inetPton) AnswerCurrent as (.fresh channelCount options uparams))
    {i now : ℕ} {s' : Service} (hres : (s.takeOpen i).doResolve inetPton i now = (s', true)) :
    ∀ r ∈ (s'.net i).remoteEps,
      r.host = (s'.net i).remoteHost ∧ r.ep.port = (s'.net i).remotePort := by
  have hcurrent : s.Current := by
    refine Machine.invariant_of_meets (I := Service.Current) ?_ ?_ hcond hrun
    · intro s a s' hs hcond hstep
      obtain ⟨henabled, rfl⟩ := step_eq_some.1 hstep
      exact hs.effect henabled hcond
    · exact fun _ => (Net.Fresh.of_nil rfl).current
  have htake : (s.takeOpen i).Current :=
    hcurrent.of_chain (Service.chain_of_quiet (Service.quiet_takeOpen : Quiet inetPton i s _))
  have hfresh := (htake.doResolve inetPton i now).2
  rw [hres] at hfresh
  exact fun r hr => ⟨hfresh.host r hr, hfresh.port r hr⟩

/-- A frame in which only channel 0 has something to do. -/
def resolvingFrame (now : ℕ) : List Action :=
  [.frame now, .poll (some fun _ => {}), .transport {}, .channel {}, .channel {}, .timer none,
    .endEvents]

/-- Channel 0 asks for the address of a host. -/
def askHost : List Action :=
  [.start, .setHost 0 ['a'], .setPort 0 80, .openKind 0 Yck.tcpClient, .openTest 0, .openMask 0,
    .openInsert 0] ++ resolvingFrame 1

theorem doResolve_current_askHost :
    ∃ s s', Machine.run (step fun _ => none) (askHost ++ [.answer 0 (.ok ([.in4 1 80], 2))])
        (.fresh 1 { noDispatch := true } fun _ => {}) = some s ∧
      (s.takeOpen 0).doResolve (fun _ => none) 0 3 = (s', true) ∧ (s'.net 0).remoteEps ≠ [] ∧
        ∀ r ∈ (s'.net 0).remoteEps,
          r.host = (s'.net 0).remoteHost ∧ r.ep.port = (s'.net 0).remotePort := by
  obtain ⟨s, hrun, hres, heps⟩ := Machine.exists_of_any (step fun _ => none)
    (askHost ++ [.answer 0 (.ok ([.in4 1 80], 2))]) (.fresh 1 { noDispatch := true } fun _ => {})
    (fun s => ((s.takeOpen 0).doResolve (fun _ => none) 0 3).2 = true ∧
      (((s.takeOpen 0).doResolve (fun _ => none) 0 3).1.net 0).remoteEps ≠ [])
    (by decide +kernel)
  have hpair : (s.takeOpen 0).doResolve (fun _ => none) 0 3 = (_, true) := Prod.ext rfl hres
  exact ⟨s, _, hrun, hpair, heps, doResolve_current hrun (by decide +kernel) hpair⟩

/-- The host is set anew while the query is under way; a frame takes that up, and the answer for
the old host comes behind it. -/
theorem doResolve_late_answer :
    ∃ s s', Machine.run (step fun _ => none)
        (askHost ++ [.setHost 0 ['b']] ++ resolvingFrame 2 ++
          [.answer 0 (.ok ([.in4 1 80], 3))])
        (.fresh 1 { noDispatch := true } fun _ => {}) = some s ∧
      (s.takeOpen 0).doResolve (fun _ => none) 0 3 = (s', true) ∧
        ∃ r ∈ (s'.net 0).remoteEps, r.host ≠ (s'.net 0).remoteHost := by
  obtain ⟨s, hrun, hres, heps⟩ := Machine.exists_of_any (step fun _ => none)
    (askHost ++ [.setHost 0 ['b']] ++ resolvingFrame 2 ++ [.answer 0 (.ok ([.in4 1 80], 3))])
    (.fresh 1 { noDispatch := true } fun _ => {})
    (fun s => ((s.takeOpen 0).doResolve (fun _ => none) 0 3).2 = true ∧
      ∃ r ∈ (((s.takeOpen 0).doResolve (fun _ => none) 0 3).1.net 0).remoteEps,
        r.host ≠ (((s.takeOpen 0).doResolve (fun _ => none) 0 3).1.net 0).remoteHost)
    (by decide +kernel)
  exact ⟨s, _, hrun, Prod.ext rfl hres, heps⟩

end Yasio
