import Yasio.HttpClient

/-!
# Requests that stay pending

A `send` that finds no channel goes to the pending queue in a step of its own.  Meanwhile the
service may find the queue empty and recycle a channel.
-/

namespace Yasio

namespace HttpClient

variable {s t : HttpClient} {a : HttpAction}

/-- How many calls of `send` are about to take a channel. -/
def takers (s : HttpClient) : ℕ := s.sends.countP fun call => call.2 == .taking

/-- How many calls of `handleNetworkEOF` are yet to look for a pending response. -/
def looks (s : HttpClient) : ℕ :=
  match s.eof with
  | some (_, .finishing _) | some (_, .looking) => 1
  | _ => 0

end HttpClient

/-- A response goes to the pending queue only when others are about to take all the available
channels, or when the service is yet to look for one response more than are pending. -/
def HttpAction.Heard (s : HttpClient) : HttpAction → Prop
  | proceed (_, .pushing) => s.avail.length ≤ s.takers ∨ s.pending.length < s.looks
  | _ => True

instance (s : HttpClient) (a : HttpAction) : Decidable (a.Heard s) := by
  unfold HttpAction.Heard
  split <;> infer_instance

namespace HttpClient

variable {s t : HttpClient} {a : HttpAction}

/-- All available channels are about to be taken, or all pending responses to be looked at. -/
def Attended (s : HttpClient) : Prop :=
  s.avail.length ≤ s.takers ∨ s.pending.length ≤ s.looks

/-- One call of `send` less. -/
theorem takers_erase {call : ℕ × SendPc} (hcall : call ∈ s.sends) :
    s.takers = ({ s with sends := s.sends.erase call } : HttpClient).takers +
      if call.2 = .taking then 1 else 0 := by
  unfold takers
  rw [(List.perm_cons_erase hcall).countP_eq, List.countP_cons]
  simp only [beq_iff_eq]

theorem attended_processSend {r : ℕ} {pc : SendPc}
    (h : s.avail.length ≤ s.takers + (if pc = .taking then 1 else 0) ∨ s.pending.length ≤ s.looks)
    (hheard : pc = .pushing → s.avail.length ≤ s.takers ∨ s.pending.length < s.looks) :
    (processSend s r pc).Attended := by
  cases pc with
  | finishing => exact h
  | opening c => exact h
  | pushing =>
    refine (hheard rfl).imp_right fun hlook => ?_
    change (s.pending ++ [r]).length ≤ s.looks
    rw [List.length_append, List.length_singleton]
    exact hlook
  | taking =>
    rw [if_pos rfl] at h
    cases havail : s.avail with
    | nil =>
      have hempty : (processSend s r .taking).avail = [] := by
        simp only [HttpClient.processSend, havail]
      refine .inl ?_
      rw [hempty]
      exact Nat.zero_le _
    | cons c avail =>
      have htaken : processSend s r .taking =
          { s with avail, sends := (r, .opening c) :: s.sends } := by
        simp only [HttpClient.processSend, havail]
      rw [htaken]
      rw [havail, List.length_cons] at h
      -- One channel less is available, and one `send` less is about to take one.
      refine h.imp_left fun htake => ?_
      exact Nat.le_trans (Nat.le_of_succ_le_succ htake)
        (List.Sublist.countP_le (List.sublist_cons_self _ _))

theorem attended_processEOF {c : ℕ} {pc : EofPc}
    (h : s.avail.length ≤ s.takers ∨
      s.pending.length ≤ ({ s with eof := some (c, pc) } : HttpClient).looks) :
    (processEOF s c pc).Attended := by
  cases pc with
  | finishing r => exact h
  | looking =>
    cases hpending : s.pending with
    | nil =>
      refine .inr ?_
      have hempty : (processEOF s c .looking).pending = [] := by
        simp only [HttpClient.processEOF, hpending]
      rw [hempty]
      exact Nat.zero_le _
    | cons r pending =>
      have hpopped : processEOF s c .looking =
          { s with pending, eof := some (c, .processing r) } := by
        simp only [HttpClient.processEOF, hpending]
      -- The service has looked, and one response less is pending.
      rw [hpopped]
      rw [hpending, List.length_cons] at h
      exact h.imp_right Nat.le_of_succ_le_succ
  | processing r =>
    unfold HttpClient.processEOF Attended
    dsimp only
    split <;> exact h

theorem Attended.step (h : s.Attended) (hheard : a.Heard s) (hstep : step a s = some t) :
    t.Attended := by
  cases a with
  | send valid =>
    obtain rfl := Option.some.inj hstep
    refine h.imp_left fun htake => ?_
    exact Nat.le_trans htake (List.Sublist.countP_le (List.sublist_cons_self _ _))
  | proceed call =>
    by_cases hcall : call ∈ s.sends
    · rw [HttpClient.step, if_pos hcall] at hstep
      obtain rfl := Option.some.inj hstep
      have htakers := takers_erase hcall
      obtain ⟨r, pc⟩ := call
      apply attended_processSend
      · exact h.imp_left fun htake => htakers ▸ htake
      · rintro rfl
        rw [if_neg (by simp), Nat.add_zero] at htakers
        rw [← htakers]
        exact hheard
    · rw [HttpClient.step, if_neg hcall] at hstep
      cases hstep
  | handleNetworkEOF call code location =>
    by_cases hcall : call ∈ s.serving ∧ s.eof = none
    · rw [HttpClient.step, if_pos hcall] at hstep
      obtain rfl := Option.some.inj hstep
      refine h.imp_right fun hlook => ?_
      rw [looks, hcall.2] at hlook
      exact Nat.le_trans hlook (Nat.zero_le _)
    · rw [HttpClient.step, if_neg hcall] at hstep
      cases hstep
  | proceedEOF =>
    obtain ⟨⟨c, pc⟩, heof, rfl⟩ := Option.map_eq_some_iff.1 hstep
    apply attended_processEOF
    exact h.imp_right fun hlook => by rwa [looks, heof] at hlook

/-- When nothing is on its way, nothing is about to take a channel or to look at the queue. -/
theorem Attended.avail_eq_nil (h : s.Attended) (hquiet : s.Quiescent) (hpending : s.pending ≠ []) :
    s.avail = [] := by
  obtain ⟨hsends, heof⟩ := hquiet
  unfold Attended takers looks at h
  rw [hsends, heof] at h
  obtain htake | hlook := h
  · exact List.eq_nil_of_length_eq_zero (Nat.le_zero.1 htake)
  · exact absurd (List.eq_nil_of_length_eq_zero (Nat.le_zero.1 hlook)) hpending

theorem attended_init : init.Attended := .inr (Nat.le_refl 0)

/-- A run in which each response that goes to the pending queue is attended to ends settled. -/
theorem settled_of_run (as : List HttpAction) (s : HttpClient)
    (hheard : Machine.Meets step (fun s a => a.Heard s) as init)
    (hrun : Machine.run step as init = some s) : s.Settled := by
  have hlacks : s.Lacks [] [] :=
    Machine.invariant_of_run (I := fun s => s.Lacks [] []) (fun _ _ _ h hstep => h.step hstep)
      lacks_init hrun
  have hattended : s.Attended := Machine.invariant_of_meets (fun _ _ _ h hC => h.step hC)
    attended_init hheard hrun
  exact ⟨hlacks.perm_channels, hlacks.nodup_finished, hattended.avail_eq_nil⟩

/-- As many requests as there are channels are being served. -/
def allServing : List HttpAction :=
  (List.range MAX_CHANNELS).flatMap fun r =>
    [.send true, .proceed (r, .taking), .proceed (r, .opening r)]

/-- One more request is pending when the service finishes the first one, whose channel it gets. -/
def servedLater : List HttpAction :=
  allServing ++ [.send true, .proceed (21, .taking), .proceed (21, .pushing),
    .handleNetworkEOF (0, 0) 200 none, .proceedEOF, .proceedEOF, .proceedEOF]

theorem settled_servedLater : ∃ s, Machine.run step servedLater init = some s ∧
    ((0, 21) ∈ s.serving ∧ s.finished = [0] ∧ s.pending = []) ∧ s.Settled := by
  obtain ⟨s, hrun, hs⟩ := Machine.exists_of_any step servedLater init
    (fun s => (0, 21) ∈ s.serving ∧ s.finished = [0] ∧ s.pending = []) (by decide +kernel)
  exact ⟨s, hrun, hs, settled_of_run servedLater s (by decide +kernel) hrun⟩

/-- All channels are in use when a request finds none.  Before it is pending, the service finishes
another one, finds nothing pending and recycles the channel. -/
def lastRequest : List HttpAction :=
  allServing ++ [.send true, .proceed (21, .taking),
    .handleNetworkEOF (0, 0) 200 none, .proceedEOF, .proceedEOF, .proceed (21, .pushing)]

theorem not_settled_lastRequest :
    ¬ ∀ (as : List HttpAction) (s : HttpClient), Machine.run step as init = some s →
      s.Settled := by
  intro hall
  obtain ⟨s, hrun, hquiet, hpending, havail⟩ := Machine.exists_of_any step lastRequest init
    (fun s => (s.sends = [] ∧ s.eof = none) ∧ s.pending = [21] ∧ s.avail = [0]) (by decide +kernel)
  have hempty := (hall lastRequest s hrun).pending hquiet (by rw [hpending]; exact nofun)
  cases havail.symm.trans hempty

end HttpClient

end Yasio
