import Yasio.Lib.Machine
import Mathlib.Data.List.Perm.Basic
import Mathlib.Data.List.Nodup
import Mathlib.Data.List.Range
import Mathlib.Logic.Function.Basic

/-!
# `HttpClient`

Requests take a channel or wait in the pending queue.  `send` runs on the threads of the users, and
`handleNetworkEOF` on the thread of the service, for one channel after another.  Each step is what a
thread does under one lock.
-/

namespace Yasio

open Function (update)

/-! ## Responses -/

/-- What `HttpClient` reads of an `HttpResponse`: whether its URI is valid, and how often it was
redirected. -/
structure HttpResponse where
  valid : Bool := false
  redirectCount : ℕ := 0
  deriving DecidableEq, Repr

namespace HttpResponse

def MAX_REDIRECT_COUNT : ℕ := 3

/-- `tryRedirect`, with whether the `location` header is a valid URI when there is one. -/
def tryRedirect (r : HttpResponse) (location : Option Bool) : Bool × HttpResponse :=
  if r.redirectCount < MAX_REDIRECT_COUNT then
    match location with
    | some valid => (valid, { valid, redirectCount := r.redirectCount + 1 })
    | none => (false, r)
  else (false, r)

end HttpResponse

/-! ## The client -/

/-- Where a `send` is in `processResponse`. -/
inductive SendPc
  | finishing
  | taking
  | opening (channel : ℕ)
  | pushing
  deriving DecidableEq, Repr

/-- Where the service is in `handleNetworkEOF`: about to finish the response, to look for a pending
one, or to process the redirected or the pending one. -/
inductive EofPc
  | finishing (response : ℕ)
  | looking
  | processing (response : ℕ)
  deriving DecidableEq, Repr

/-- The client.  A response has the number of the `send` that made it.  `serving` has the channels
that are open, each with its `ud_.ptr`, `sends` the calls of `send`, each with its response, and
`eof` the channel of a call of `handleNetworkEOF`. -/
structure HttpClient where
  avail : List ℕ
  pending : List ℕ := []
  response : ℕ → HttpResponse := fun _ => {}
  made : ℕ := 0
  sends : List (ℕ × SendPc) := []
  serving : List (ℕ × ℕ) := []
  eof : Option (ℕ × EofPc) := none
  finished : List ℕ := []

/-- A call of `send`, the next step of one, a call of `handleNetworkEOF` for an open channel with
the code and the `location` of its response, or the next step of it. -/
inductive HttpAction
  | send (valid : Bool)
  | proceed (call : ℕ × SendPc)
  | handleNetworkEOF (call : ℕ × ℕ) (code : Int) (location : Option Bool)
  | proceedEOF
  deriving DecidableEq, Repr

namespace HttpClient

def MAX_CHANNELS : ℕ := 21

def init : HttpClient := { avail := List.range MAX_CHANNELS }

/-- The next step of a `send`. -/
def processSend (s : HttpClient) (r : ℕ) : SendPc → HttpClient
  | .finishing => { s with finished := s.finished ++ [r] }
  | .taking =>
    match s.avail with
    | c :: avail => { s with avail, sends := (r, .opening c) :: s.sends }
    | [] => { s with sends := (r, .pushing) :: s.sends }
  | .opening c => { s with serving := (c, r) :: s.serving }
  | .pushing => { s with pending := s.pending ++ [r] }

/-- The next step of `handleNetworkEOF` for the channel. -/
def processEOF (s : HttpClient) (c : ℕ) : EofPc → HttpClient
  | .finishing r => { s with finished := s.finished ++ [r], eof := some (c, .looking) }
  | .looking =>
    match s.pending with
    | r :: pending => { s with pending, eof := some (c, .processing r) }
    -- The lock of the pending queue is held until the channel is back.
    | [] => { s with avail := c :: s.avail, eof := none }
  | .processing r =>
    if (s.response r).valid then { s with serving := (c, r) :: s.serving, eof := none }
    -- `processResponse` finishes the response and leaves the channel nowhere.
    else { s with finished := s.finished ++ [r], eof := none }

/-- The redirection of a response. -/
def redirect (s : HttpClient) (r : ℕ) (code : Int) (location : Option Bool) : Bool × HttpResponse :=
  if code = 301 ∨ code = 302 ∨ code = 307 then (s.response r).tryRedirect location
  else (false, s.response r)

def step : HttpAction → HttpClient → Option HttpClient
  | .send valid, s =>
    some { s with
      response := update s.response s.made { valid }
      made := s.made + 1
      sends := (s.made, if valid then .taking else .finishing) :: s.sends }
  | .proceed call, s =>
    if call ∈ s.sends then
      some (processSend { s with sends := s.sends.erase call } call.1 call.2)
    else none
  | .handleNetworkEOF call code location, s =>
    if call ∈ s.serving ∧ s.eof = none then
      let redirected := s.redirect call.2 code location
      some { s with
        serving := s.serving.erase call
        response := update s.response call.2 redirected.2
        eof := some (call.1,
          if redirected.1 then .processing call.2 else .finishing call.2) }
    else none
  | .proceedEOF, s => s.eof.map fun call => processEOF { s with eof := none } call.1 call.2

/-! ## Where channels and responses are -/

end HttpClient

/-- The channel that a `send` has in hand. -/
def SendPc.channel : SendPc → Option ℕ
  | opening c => some c
  | _ => none

/-- The `send` does not finish the response itself. -/
def SendPc.goesOn : SendPc → Bool
  | finishing => false
  | _ => true

/-- The response that `handleNetworkEOF` has in hand. -/
def EofPc.response : EofPc → Option ℕ
  | finishing r | processing r => some r
  | looking => none

/-- The response that is to be served on the channel. -/
def EofPc.next : EofPc → Option ℕ
  | processing r => some r
  | _ => none

namespace HttpClient

/-- The channels, wherever they are. -/
def channels (s : HttpClient) : List ℕ :=
  s.avail ++ s.sends.filterMap (fun call => call.2.channel) ++ s.serving.map Prod.fst ++
    (s.eof.map Prod.fst).toList

/-- The responses, wherever they are. -/
def responses (s : HttpClient) : List ℕ :=
  s.pending ++ s.sends.map Prod.fst ++ s.serving.map Prod.snd ++
    (s.eof.bind fun call => call.2.response).toList ++ s.finished

/-- No `send` and no `handleNetworkEOF` is on its way. -/
def Quiescent (s : HttpClient) : Prop := s.sends = [] ∧ s.eof = none

/-- Every channel is in one place, no response is finished twice, and when nothing is on its way, a
response is pending only if no channel is available. -/
structure Settled (s : HttpClient) : Prop where
  channels : s.channels.Perm (List.range MAX_CHANNELS)
  finished : s.finished.Nodup
  pending : s.Quiescent → s.pending ≠ [] → s.avail = []

/-- The responses that are to be served. -/
def waiting (s : HttpClient) : List ℕ :=
  s.pending ++ (s.sends.filter fun call => call.2.goesOn).map Prod.fst ++
    (s.eof.bind fun call => call.2.next).toList

/-- All channels and responses but these, which are in somebody's hand, are in one place each, and
the responses that are to be served have valid URIs. -/
structure Lacks (s : HttpClient) (cs rs : List ℕ) : Prop where
  channels : ∀ c, (List.range MAX_CHANNELS).count c = cs.count c + s.channels.count c
  responses : ∀ r, (List.range s.made).count r = rs.count r + s.responses.count r
  valid : ∀ r ∈ s.waiting, (s.response r).valid = true

section

variable {β γ : Type} [DecidableEq γ] {x : β} {l : List β}

theorem count_filterMap_cons (f : β → Option γ) (x : β) (l : List β) (a : γ) :
    ((x :: l).filterMap f).count a = (f x).toList.count a + (l.filterMap f).count a := by
  rw [List.filterMap_cons]
  cases f x with
  | none => simp
  | some b => simp [List.count_cons, Nat.add_comm]

variable [BEq β] [LawfulBEq β]

/-- One element less. -/
theorem count_filterMap_erase (f : β → Option γ) (h : x ∈ l) (a : γ) :
    (l.filterMap f).count a = (f x).toList.count a + ((l.erase x).filterMap f).count a := by
  rw [((List.perm_cons_erase h).filterMap f).count_eq a, count_filterMap_cons]

theorem count_map_erase (f : β → γ) (h : x ∈ l) (a : γ) :
    (l.map f).count a = [f x].count a + ((l.erase x).map f).count a := by
  rw [((List.perm_cons_erase h).map f).count_eq a, List.map_cons, ← List.singleton_append,
    List.count_append]

end

variable {s t : HttpClient} {cs rs : List ℕ} {c r : ℕ}

theorem count_channels (s : HttpClient) (c : ℕ) :
    s.channels.count c = s.avail.count c +
      (s.sends.filterMap fun call => call.2.channel).count c + (s.serving.map Prod.fst).count c +
        (s.eof.map Prod.fst).toList.count c := by
  simp only [channels, List.count_append]

theorem count_responses (s : HttpClient) (r : ℕ) :
    s.responses.count r = s.pending.count r + (s.sends.map Prod.fst).count r +
      (s.serving.map Prod.snd).count r + (s.eof.bind fun call => call.2.response).toList.count r +
        s.finished.count r := by
  simp only [responses, List.count_append]

theorem mem_waiting : r ∈ s.waiting ↔ r ∈ s.pending ∨ (∃ pc, (r, pc) ∈ s.sends ∧ pc.goesOn = true) ∨
    ∃ c pc, s.eof = some (c, pc) ∧ pc.next = some r := by
  simp [waiting, Option.bind_eq_some_iff]

theorem lacks_init : init.Lacks [] [] where
  channels := fun c => by simp [channels, init]
  responses := fun r => by simp [responses, init]
  valid := by simp [waiting, init]

/-! Channels and responses go from hand to place. -/

theorem Lacks.finish (h : s.Lacks cs (r :: rs)) :
    ({ s with finished := s.finished ++ [r] } : HttpClient).Lacks cs rs where
  channels := h.channels
  responses := fun a => by
    have ha := h.responses a
    simp only [count_responses, List.count_append, List.count_cons, List.count_nil] at ha ⊢
    omega
  valid := h.valid

theorem Lacks.pend (h : s.Lacks cs (r :: rs)) (hr : (s.response r).valid = true) :
    ({ s with pending := s.pending ++ [r] } : HttpClient).Lacks cs rs where
  channels := h.channels
  responses := fun a => by
    have ha := h.responses a
    simp only [count_responses, List.count_append, List.count_cons, List.count_nil] at ha ⊢
    omega
  valid := fun a ha => by
    simp only [mem_waiting, List.mem_append, List.mem_singleton] at ha
    obtain (hpending | rfl) | hrest := ha
    · exact h.valid a (mem_waiting.2 (.inl hpending))
    · exact hr
    · exact h.valid a (mem_waiting.2 (.inr hrest))

theorem Lacks.serve (h : s.Lacks (c :: cs) (r :: rs)) :
    ({ s with serving := (c, r) :: s.serving } : HttpClient).Lacks cs rs where
  channels := fun a => by
    have ha := h.channels a
    simp only [count_channels, List.map_cons, List.count_cons] at ha ⊢
    omega
  responses := fun a => by
    have ha := h.responses a
    simp only [count_responses, List.map_cons, List.count_cons] at ha ⊢
    omega
  valid := h.valid

theorem Lacks.goOn (pc : SendPc) (h : s.Lacks (pc.channel.toList ++ cs) (r :: rs))
    (hr : pc.goesOn = true → (s.response r).valid = true) :
    ({ s with sends := (r, pc) :: s.sends } : HttpClient).Lacks cs rs where
  channels := fun a => by
    have ha := h.channels a
    simp only [count_channels, count_filterMap_cons, List.count_append] at ha ⊢
    omega
  responses := fun a => by
    have ha := h.responses a
    simp only [count_responses, List.map_cons, List.count_cons] at ha ⊢
    omega
  valid := fun a ha => by
    obtain hpending | ⟨pc', hmem, hgoes⟩ | heof := mem_waiting.1 ha
    · exact h.valid a (mem_waiting.2 (.inl hpending))
    · obtain heq | hmem := List.mem_cons.1 hmem
      · obtain ⟨rfl, rfl⟩ := Prod.mk.inj heq
        exact hr hgoes
      · exact h.valid a (mem_waiting.2 (.inr (.inl ⟨pc', hmem, hgoes⟩)))
    · exact h.valid a (mem_waiting.2 (.inr (.inr heof)))

theorem Lacks.eof (pc : EofPc) (h : s.Lacks (c :: cs) (pc.response.toList ++ rs))
    (hnone : s.eof = none) (hnext : ∀ r, pc.next = some r → (s.response r).valid = true) :
    ({ s with eof := some (c, pc) } : HttpClient).Lacks cs rs where
  channels := fun a => by
    have ha := h.channels a
    simp only [count_channels, hnone, Option.map_none, Option.map_some, Option.toList_none,
      Option.toList_some, List.count_cons, List.count_nil] at ha ⊢
    omega
  responses := fun a => by
    have ha := h.responses a
    simp only [count_responses, hnone, Option.bind_none, Option.bind_some, Option.toList_none,
      List.count_append, List.count_nil] at ha ⊢
    omega
  valid := fun a ha => by
    obtain hpending | hsends | ⟨c', pc', heof, hpc⟩ := mem_waiting.1 ha
    · exact h.valid a (mem_waiting.2 (.inl hpending))
    · exact h.valid a (mem_waiting.2 (.inr (.inl hsends)))
    · obtain ⟨rfl, rfl⟩ := Prod.mk.inj (Option.some.inj heof)
      exact hnext a hpc

theorem Lacks.recycle (h : s.Lacks (c :: cs) rs) :
    ({ s with avail := c :: s.avail } : HttpClient).Lacks cs rs where
  channels := fun a => by
    have ha := h.channels a
    simp only [count_channels, List.count_cons] at ha ⊢
    omega
  responses := h.responses
  valid := h.valid

/-! They go from place to hand. -/

theorem Lacks.take {avail : List ℕ} (h : s.Lacks cs rs) (havail : s.avail = c :: avail) :
    ({ s with avail } : HttpClient).Lacks (c :: cs) rs where
  channels := fun a => by
    have ha := h.channels a
    simp only [count_channels, havail, List.count_cons] at ha ⊢
    omega
  responses := h.responses
  valid := h.valid

theorem Lacks.pop {pending : List ℕ} (h : s.Lacks cs rs) (hpending : s.pending = r :: pending) :
    ({ s with pending } : HttpClient).Lacks cs (r :: rs) ∧ (s.response r).valid = true := by
  refine ⟨⟨h.channels, fun a => ?_, fun a ha => ?_⟩, ?_⟩
  · have ha := h.responses a
    simp only [count_responses, hpending, List.count_cons] at ha ⊢
    omega
  · apply h.valid
    rw [mem_waiting, hpending]
    exact (mem_waiting.1 ha).imp_left (List.mem_cons_of_mem r)
  · apply h.valid
    rw [mem_waiting, hpending]
    exact .inl List.mem_cons_self

theorem Lacks.call {call : ℕ × SendPc} (h : s.Lacks cs rs) (hcall : call ∈ s.sends) :
    ({ s with sends := s.sends.erase call } : HttpClient).Lacks (call.2.channel.toList ++ cs)
        (call.1 :: rs) ∧ (call.2.goesOn = true → (s.response call.1).valid = true) := by
  refine ⟨⟨fun a => ?_, fun a => ?_, fun a ha => ?_⟩, fun hgoes => ?_⟩
  · have ha := h.channels a
    rw [count_channels, count_filterMap_erase (fun call : ℕ × SendPc => call.2.channel) hcall] at ha
    simp only [count_channels, List.count_append]
    omega
  · have ha := h.responses a
    rw [count_responses, count_map_erase Prod.fst hcall] at ha
    simp only [count_responses, List.count_cons, List.count_nil] at ha ⊢
    omega
  · apply h.valid
    rw [mem_waiting]
    obtain hpending | ⟨pc, hmem, hgoes⟩ | heof := mem_waiting.1 ha
    · exact .inl hpending
    · exact .inr (.inl ⟨pc, List.mem_of_mem_erase hmem, hgoes⟩)
    · exact .inr (.inr heof)
  · exact h.valid _ (mem_waiting.2 (.inr (.inl ⟨call.2, hcall, hgoes⟩)))

theorem Lacks.complete {call : ℕ × ℕ} (h : s.Lacks cs rs) (hcall : call ∈ s.serving) :
    ({ s with serving := s.serving.erase call } : HttpClient).Lacks (call.1 :: cs)
      (call.2 :: rs) where
  channels := fun a => by
    have ha := h.channels a
    rw [count_channels, count_map_erase Prod.fst hcall] at ha
    simp only [count_channels, List.count_cons, List.count_nil] at ha ⊢
    omega
  responses := fun a => by
    have ha := h.responses a
    rw [count_responses, count_map_erase Prod.snd hcall] at ha
    simp only [count_responses, List.count_cons, List.count_nil] at ha ⊢
    omega
  valid := h.valid

theorem Lacks.proceed {pc : EofPc} (h : s.Lacks cs rs) (heof : s.eof = some (c, pc)) :
    ({ s with eof := none } : HttpClient).Lacks (c :: cs) (pc.response.toList ++ rs) ∧
      ∀ r, pc.next = some r → (s.response r).valid = true := by
  refine ⟨⟨fun a => ?_, fun a => ?_, fun a ha => ?_⟩, fun r hr => ?_⟩
  · have ha := h.channels a
    simp only [count_channels, heof, Option.map_none, Option.map_some, Option.toList_none,
      Option.toList_some, List.count_cons, List.count_nil] at ha ⊢
    omega
  · have ha := h.responses a
    simp only [count_responses, heof, Option.bind_none, Option.bind_some, Option.toList_none,
      List.count_append, List.count_nil] at ha ⊢
    omega
  · apply h.valid
    rw [mem_waiting]
    obtain hpending | hsends | ⟨_, _, hnone, _⟩ := mem_waiting.1 ha
    · exact .inl hpending
    · exact .inr (.inl hsends)
    · cases hnone
  · exact h.valid r (mem_waiting.2 (.inr (.inr ⟨c, pc, heof, hr⟩)))

/-- What is to be served is somewhere. -/
theorem Lacks.lt_of_waiting (h : s.Lacks cs rs) (hr : r ∈ s.waiting) : r < s.made ∧ r ∉ rs := by
  have hmem : r ∈ s.responses := by
    unfold HttpClient.responses
    simp only [List.mem_append]
    obtain hpending | ⟨pc, hsend, -⟩ | ⟨c, pc, heof, hpc⟩ := mem_waiting.1 hr
    · exact .inl (.inl (.inl (.inl hpending)))
    · exact .inl (.inl (.inl (.inr (List.mem_map_of_mem hsend))))
    · refine .inl (.inr ?_)
      rw [heof, Option.bind_some]
      cases pc with
      | processing q => simpa [EofPc.response] using (Option.some.inj hpc).symm
      | finishing q => cases hpc
      | looking => cases hpc
  have hcount := h.responses r
  have hpos := List.count_pos_iff.2 hmem
  -- A response is counted once, so that one in hand is nowhere else.
  have hone := List.nodup_iff_count_le_one.1 (List.nodup_range (n := s.made)) r
  constructor
  · apply List.mem_range.1
    exact List.count_pos_iff.1 (by omega)
  · exact List.count_eq_zero.1 (by omega)

/-- A response in hand may change. -/
theorem Lacks.update (h : s.Lacks cs rs) (hr : r ∈ rs) (x : HttpResponse) :
    ({ s with response := Function.update s.response r x } : HttpClient).Lacks cs rs where
  channels := h.channels
  responses := h.responses
  valid := fun a ha => by
    have hne : a ≠ r := by
      rintro rfl
      exact (h.lt_of_waiting ha).2 hr
    exact (congrArg HttpResponse.valid (Function.update_of_ne hne _ _)).trans (h.valid a ha)

/-- A new response. -/
theorem Lacks.make (h : s.Lacks cs rs) (x : HttpResponse) :
    ({ s with response := Function.update s.response s.made x, made := s.made + 1 } :
      HttpClient).Lacks cs (s.made :: rs) where
  channels := h.channels
  responses := fun a => by
    have ha := h.responses a
    simp only [count_responses, List.range_succ, List.count_append, List.count_cons,
      List.count_nil] at ha ⊢
    omega
  valid := fun a ha => by
    have hne : a ≠ s.made := by
      rintro rfl
      exact Nat.lt_irrefl _ (h.lt_of_waiting ha).1
    exact (congrArg HttpResponse.valid (Function.update_of_ne hne _ _)).trans (h.valid a ha)

/-! ## Every step -/

theorem Lacks.processSend {pc : SendPc} (h : s.Lacks pc.channel.toList [r])
    (hvalid : pc.goesOn = true → (s.response r).valid = true) :
    (processSend s r pc).Lacks [] [] := by
  cases pc with
  | finishing => exact h.finish
  | taking =>
    have hidle : s.Lacks [] [r] := h
    cases havail : s.avail with
    | cons c avail =>
      have htaken := (hidle.take havail).goOn (.opening c) fun _ => hvalid rfl
      simpa only [HttpClient.processSend, havail] using htaken
    | nil =>
      have hpushing := hidle.goOn .pushing fun _ => hvalid rfl
      simpa only [HttpClient.processSend, havail] using hpushing
  | opening c => exact h.serve
  | pushing => exact h.pend (hvalid rfl)

theorem Lacks.processEOF {pc : EofPc} (h : s.Lacks [c] pc.response.toList) (hnone : s.eof = none)
    (hvalid : ∀ r, pc.next = some r → (s.response r).valid = true) :
    (processEOF s c pc).Lacks [] [] := by
  cases pc with
  | finishing r => exact h.finish.eof .looking hnone nofun
  | looking =>
    have hidle : s.Lacks [c] [] := h
    cases hpending : s.pending with
    | cons r pending =>
      obtain ⟨hpopped, hr⟩ := hidle.pop hpending
      have hnext := hpopped.eof (.processing r) hnone
        fun r' hr' => Option.some.inj hr' ▸ hr
      simpa only [HttpClient.processEOF, hpending] using hnext
    | nil =>
      have hrecycled := hidle.recycle
      simpa only [HttpClient.processEOF, hpending, hnone] using hrecycled
  | processing r =>
    -- What is processed here has a valid URI, so that the channel is not lost.
    have hhand : s.Lacks [c] [r] := h
    have hserved := hhand.serve
    simpa only [HttpClient.processEOF, hvalid r rfl, if_true, hnone] using hserved

/-- A response that was redirected has a valid URI. -/
theorem redirect_valid {code : Int} {location : Option Bool}
    (h : (s.redirect r code location).1 = true) :
    ((s.redirect r code location).2).valid = true := by
  unfold redirect HttpResponse.tryRedirect at h ⊢
  split at h
  · next hcode =>
    rw [if_pos hcode]
    split at h
    · next hcount =>
      rw [if_pos hcount]
      cases location with
      | none => cases h
      | some valid => exact h
    · cases h
  · cases h

theorem Lacks.step {a : HttpAction} (h : s.Lacks [] []) (hstep : step a s = some t) :
    t.Lacks [] [] := by
  cases a with
  | send valid =>
    obtain rfl := Option.some.inj hstep
    have hmade := h.make { valid }
    cases valid with
    | true => exact hmade.goOn .taking fun _ => by simp
    | false => exact hmade.goOn .finishing nofun
  | proceed call =>
    by_cases hcall : call ∈ s.sends
    · rw [HttpClient.step, if_pos hcall] at hstep
      obtain rfl := Option.some.inj hstep
      obtain ⟨hlacks, hvalid⟩ := h.call hcall
      rw [List.append_nil] at hlacks
      exact hlacks.processSend hvalid
    · rw [HttpClient.step, if_neg hcall] at hstep
      cases hstep
  | handleNetworkEOF call code location =>
    by_cases hcall : call ∈ s.serving ∧ s.eof = none
    · rw [HttpClient.step, if_pos hcall] at hstep
      rw [← Option.some.inj hstep]
      have hlacks := (h.complete hcall.1).update List.mem_cons_self
        (s.redirect call.2 code location).2
      cases hredirect : (s.redirect call.2 code location).1 with
      | true =>
        have hvalid : ((s.redirect call.2 code location).2).valid = true := redirect_valid hredirect
        rw [if_pos rfl]
        refine hlacks.eof (.processing call.2) hcall.2 fun r hr => ?_
        obtain rfl := Option.some.inj hr
        exact (congrArg HttpResponse.valid (Function.update_self ..)).trans hvalid
      | false =>
        rw [if_neg Bool.false_ne_true]
        exact hlacks.eof (.finishing call.2) hcall.2 nofun
    · rw [HttpClient.step, if_neg hcall] at hstep
      cases hstep
  | proceedEOF =>
    obtain ⟨⟨c, pc⟩, heof, rfl⟩ := Option.map_eq_some_iff.1 hstep
    obtain ⟨hlacks, hvalid⟩ := h.proceed heof
    rw [List.append_nil] at hlacks
    exact hlacks.processEOF rfl hvalid

/-- When nothing is in anybody's hand, every channel is in one place. -/
theorem Lacks.perm_channels (h : s.Lacks [] []) : s.channels.Perm (List.range MAX_CHANNELS) := by
  apply List.perm_iff_count.2
  intro c
  rw [h.channels c, List.count_nil, Nat.zero_add]

theorem Lacks.perm_responses (h : s.Lacks [] []) : s.responses.Perm (List.range s.made) := by
  apply List.perm_iff_count.2
  intro r
  rw [h.responses r, List.count_nil, Nat.zero_add]

/-- No response is finished twice. -/
theorem Lacks.nodup_finished (h : s.Lacks [] []) : s.finished.Nodup := by
  have hnodup := h.perm_responses.nodup_iff.2 List.nodup_range
  exact (List.nodup_append.1 hnodup).2.1

end HttpClient

end Yasio
