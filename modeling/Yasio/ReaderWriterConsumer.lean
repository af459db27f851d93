import Yasio.ReaderWriterThreads

/-!
# The consumer of the lock-free queue

Each step of `try_dequeue`, `pop` and `peek`, from any place of their code: it keeps the circle of
blocks and what the consumer knows, leaves the producer's variables alone, and answers with the next
element or, when nothing was there as the call began, with nothing.
-/

namespace Yasio

namespace ReaderWriterQueue

open Function CircularBuffer

variable {α : Type*} {s s' : ReaderWriterQueue α} {l l' : Layout α} {b n size least : ℕ} {x : α}
  {d : DequeueCall α}

/-! ## What is left alone -/

/-- The consumer stores to none of the producer's variables. -/
theorem consume_tailBlock (s : ReaderWriterQueue α) (d : DequeueCall α) :
    (s.consume d).tailBlock = s.tailBlock ∧ (s.consume d).enqueuing = s.enqueuing ∧
      (s.consume d).enqueued = s.enqueued ∧ (s.consume d).made = s.made ∧
      (s.consume d).crowded = s.crowded := by
  unfold consume
  split
  case h_2 | h_5 | h_7 => split_ifs <;> exact ⟨rfl, rfl, rfl, rfl, rfl⟩
  all_goals exact ⟨rfl, rfl, rfl, rfl, rfl⟩

theorem consume_block (s : ReaderWriterQueue α) (d : DequeueCall α) (b : ℕ) :
    ((s.consume d).block b).tail = (s.block b).tail ∧
      ((s.consume d).block b).localFront = (s.block b).localFront ∧
      ((s.consume d).block b).next = (s.block b).next ∧
      ((s.consume d).block b).sizeMask = (s.block b).sizeMask := by
  have hupdate : ∀ {t : ReaderWriterQueue α} {a : ℕ} {block : Block α},
      t.block = update s.block a block → block.tail = (s.block a).tail →
      block.localFront = (s.block a).localFront → block.next = (s.block a).next →
      block.sizeMask = (s.block a).sizeMask →
      (t.block b).tail = (s.block b).tail ∧ (t.block b).localFront = (s.block b).localFront ∧
        (t.block b).next = (s.block b).next ∧ (t.block b).sizeMask = (s.block b).sizeMask :=
    fun ht htail hfront hnext hmask =>
    ⟨block_eq_of_update (g := Block.tail) ht htail b,
      block_eq_of_update (g := Block.localFront) ht hfront b,
      block_eq_of_update (g := Block.next) ht hnext b,
      block_eq_of_update (g := Block.sizeMask) ht hmask b⟩
  unfold consume
  split
  case h_2 => split_ifs <;> exact ⟨rfl, rfl, rfl, rfl⟩
  case h_4 | h_6 => exact ⟨rfl, rfl, rfl, rfl⟩
  case h_5 | h_7 =>
    dsimp only
    split_ifs
    · exact ⟨rfl, rfl, rfl, rfl⟩
    · exact hupdate rfl rfl rfl rfl rfl
  all_goals exact hupdate rfl rfl rfl rfl rfl

theorem consumerMoves (hs : s.consume d = s') (hremoved : s.removed.length ≤ s'.removed.length)
    (hcircle : ∀ b, b ∈ l'.live ++ l'.spare → b ∈ l.live ++ l.spare)
    (hspare : l.spare <+: l'.spare)
    (hblock : ∀ b ≠ s.frontBlock, (s'.block b).front = (s.block b).front ∧
      (s'.block b).data = (s.block b).data)
    (hfull : s.TailFull l → s'.TailFull l')
    (holder : ∀ flight, (s.block s.tailBlock).FrontOlder (l.items s.tailBlock) flight →
      (s'.block s.tailBlock).FrontOlder (l'.items s.tailBlock) flight) :
    s.ConsumerMoves s' l l' := by
  obtain ⟨htail, henqueuing, henqueued, hmade, hcrowded⟩ := consume_tailBlock s d
  have hkept := consume_block s d
  rw [hs] at htail henqueuing henqueued hmade hcrowded hkept
  exact ⟨htail, henqueuing, henqueued, hmade, hcrowded, hremoved, hcircle, hspare,
    fun b => (hkept b).1, fun b => (hkept b).2.1, fun b => (hkept b).2.2.1,
    fun b => (hkept b).2.2.2, fun b hb => (hblock b hb).1, fun b hb => (hblock b hb).2, hfull,
    holder⟩

/-- An answer that finds nothing tells that the queue was empty when the call began, and one that
finds an element that it is the one to be removed next. -/
def Answered (s : ReaderWriterQueue α) (a : Answer α) : Prop :=
  (a.found = none → a.enqueued ≤ a.removed) ∧
    ∀ x, a.found = some x → s.enqueued[a.removed]? = some x

/-- What the calls of `try_dequeue` and `pop` have taken out of the queue. -/
def taken (answers : List (Answer α)) : List α :=
  (answers.filter (·.removal ≠ .peek)).filterMap Answer.found

/-- A step of the consumer has come out well. -/
structure Consumed (size least : ℕ) (s s' : ReaderWriterQueue α) (l : Layout α) : Prop where
  layout : ∃ l', Stored size least s' l' ∧ s'.Consuming l' ∧ s.ConsumerMoves s' l l'
  sound : s'.sound = s.sound
  answers : ∀ a ∈ s'.answers, a ∈ s.answers ∨ s.Answered a
  removed : s.removed = taken s.answers → s'.removed = taken s'.answers

/-- A step that stores nothing but a copy. -/
theorem Stored.consumedStill (h : Stored size least s l) (hs : s.consume d = s')
    (hstill : s.Alike s')
    (holder : (s'.block s.frontBlock).TailOlder (l.items s.frontBlock))
    (hcall : ∀ c, s'.dequeuing = some c →
      c.removed = s.removed.length ∧ c.enqueued ≤ s.enqueued.length ∧ s'.ConsumerAt l c)
    (hsound : s'.sound = s.sound)
    (hanswers : s'.answers = s.answers ∨
      ∃ a, s'.answers = s.answers ++ [a] ∧ s.Answered a ∧ taken [a] = []) :
    Consumed size least s s' l where
  layout := by
    obtain ⟨-, hkept, -⟩ := consume_block s d s.tailBlock
    rw [hs] at hkept
    refine ⟨l, h.congr hstill, ⟨?_, fun c hc => ?_⟩, consumerMoves hs ?_ (fun _ => id)
      (List.prefix_refl _) (fun b _ => ⟨(hstill.block b).front, (hstill.block b).data⟩) ?_ ?_⟩
    · rwa [hstill.frontBlock]
    · rw [hstill.removed, hstill.enqueued]
      exact hcall c hc
    · rw [hstill.removed]
    · intro hfull hne
      rw [hstill.tailBlock] at hne ⊢
      rw [(hstill.block s.tailBlock).size]
      exact hfull (hstill.frontBlock ▸ hne)
    · rintro flight ⟨hlt, k, hfront, hlen⟩
      have hsize := (hstill.block s.tailBlock).size
      have hfront' := (hstill.block s.tailBlock).front
      exact ⟨by rw [hkept, hsize]; exact hlt, k, by rw [hfront', hkept, hsize]; exact hfront,
        hsize.symm ▸ hlen⟩
  sound := hsound
  answers := by
    rcases hanswers with heq | ⟨a, heq, ha, -⟩
    · rw [heq]
      exact fun _ => .inl
    · intro b hb
      rw [heq] at hb
      rcases List.mem_append.1 hb with hb | hb
      · exact .inl hb
      · exact .inr (List.mem_singleton.1 hb ▸ ha)
  removed := by
    intro hremoved
    rw [hstill.removed, hremoved]
    rcases hanswers with heq | ⟨a, heq, -, ha⟩
    · rw [heq]
    · have happend : taken (s.answers ++ [a]) = taken s.answers ++ taken [a] := by
        rw [taken, taken, taken, List.filter_append, List.filterMap_append]
      rw [heq, happend, ha, List.append_nil]

/-- The `tail` of the front block is loaded. -/
def look (s : ReaderWriterQueue α) : ReaderWriterQueue α :=
  s.modify s.frontBlock ({ · with localTail := (s.block s.frontBlock).tail })

theorem look_agrees (s : ReaderWriterQueue α) (b : ℕ) : (s.look.block b).Agrees (s.block b) :=
  agrees_modify s s.frontBlock ⟨rfl, rfl, rfl, rfl, rfl⟩ b

theorem look_block (s : ReaderWriterQueue α) : s.look.block s.frontBlock =
    { s.block s.frontBlock with localTail := (s.block s.frontBlock).tail } := modify_block_self ..

theorem Stored.looked (h : Stored size least s l) (hdeq : s.dequeuing = some d)
    (hhole : ∀ b, d.pc.hole b = false) {pc : DequeuePc α} (hhole' : ∀ b, pc.hole b = false)
    (hstep : s.consume d = s.look.dequeueAt d pc) (hremoved : d.removed = s.removed.length)
    (henqueued : d.enqueued ≤ s.enqueued.length)
    (hat : (s.look.dequeueAt d pc).ConsumerAt l { d with pc }) :
    Consumed size least s (s.look.dequeueAt d pc) l := by
  refine h.consumedStill hstep ⟨s.look_agrees, rfl, rfl, rfl, rfl, fun b => ?_, fun _ => rfl,
    fun _ => rfl, rfl, rfl, rfl⟩ ?_ ?_ rfl (.inl rfl)
  · rw [hole_of_some hdeq, hhole]
    exact hhole' b
  · have hhold := h.front_holds
    change (s.look.block s.frontBlock).TailOlder _
    rw [look_block]
    exact .of_eq hhold rfl
  · intro c hc
    obtain rfl := Option.some.inj hc
    exact ⟨hremoved, henqueued, hat⟩

/-- The front block is not empty. -/
theorem look_nonEmpty {d : DequeueCall α} {i : ℕ} (hi : i = (s.block s.frontBlock).front)
    (hne : i ≠ (s.block s.frontBlock).tail) :
    (s.look.dequeueAt d (.nonEmpty s.frontBlock i)).ConsumerAt l
      { d with pc := .nonEmpty s.frontBlock i } := by
  refine ⟨rfl, ?_, ?_⟩
  · change i = (s.look.block s.frontBlock).front
    rw [look_block]
    exact hi
  · change i ≠ (s.look.block s.frontBlock).localTail
    rw [look_block]
    exact hne

theorem Consuming.drained (h : s.Consuming l) (hs : Stored size least s l)
    (hdeq : s.dequeuing = some d) {i : ℕ} (hpc : d.pc = .drained b i) :
    Consumed size least s (s.consume d) l := by
  obtain ⟨hremoved, henqueued, hat⟩ := h.call d hdeq
  rw [ConsumerAt, hpc] at hat
  obtain ⟨rfl, hi⟩ := hat
  have hhole : ∀ b, d.pc.hole b = false := by
    rw [hpc]
    exact fun _ => rfl
  have hstep : s.consume d = s.look.dequeueAt d
      (if i ≠ (s.block s.frontBlock).tail then .nonEmpty s.frontBlock i
      else .compare s.frontBlock) := by
    rw [consume, hpc]
    rfl
  by_cases heq : i = (s.block s.frontBlock).tail
  · rw [if_neg (not_not.2 heq)] at hstep
    rw [hstep]
    refine hs.looked hdeq hhole (fun _ => rfl) hstep hremoved henqueued ⟨rfl, ?_⟩
    have hitems : l.items s.frontBlock = [] :=
      hs.front_holds.tail_eq_front_iff.1 (heq.symm.trans hi)
    by_cases hne : s.frontBlock = s.tailBlock
    · have hqueue := hs.queue
      rw [hs.live_eq_of_eq hne, List.flatMap_singleton, hitems, List.append_nil] at hqueue
      exact .inr (hqueue ▸ henqueued)
    · exact .inl hne
  · rw [if_pos heq] at hstep
    rw [hstep]
    exact hs.looked hdeq hhole (fun _ => rfl) hstep hremoved henqueued (look_nonEmpty hi heq)

theorem Consuming.reload (h : s.Consuming l) (hs : Stored size least s l)
    (hdeq : s.dequeuing = some d) (hpc : d.pc = .reload) :
    Consumed size least s (s.consume d) l := by
  obtain ⟨hremoved, henqueued, hat⟩ := h.call d hdeq
  rw [ConsumerAt, hpc] at hat
  have hhole : ∀ b, d.pc.hole b = false := by
    rw [hpc]
    exact fun _ => rfl
  have hstep : s.consume d = s.look.dequeueAt d
      (if (s.block s.frontBlock).front ≠ (s.block s.frontBlock).tail then
        .nonEmpty s.frontBlock (s.block s.frontBlock).front
      else .empty s.frontBlock) := by
    rw [consume, hpc]
    rfl
  by_cases heq : (s.block s.frontBlock).front = (s.block s.frontBlock).tail
  · rw [if_neg (not_not.2 heq)] at hstep
    rw [hstep]
    exact hs.looked hdeq hhole (fun _ => rfl) hstep hremoved henqueued
      ⟨rfl, hat, hs.front_holds.tail_eq_front_iff.1 heq.symm⟩
  · rw [if_pos heq] at hstep
    rw [hstep]
    exact hs.looked hdeq hhole (fun _ => rfl) hstep hremoved henqueued (look_nonEmpty rfl heq)

theorem Consuming.compare (h : s.Consuming l) (hs : Stored size least s l)
    (hdeq : s.dequeuing = some d) (hpc : d.pc = .compare b) :
    Consumed size least s (s.consume d) l := by
  obtain ⟨hremoved, henqueued, hat⟩ := h.call d hdeq
  rw [ConsumerAt, hpc] at hat
  obtain ⟨rfl, hat⟩ := hat
  have hhole : ∀ b, s.hole b = false := by
    intro b
    rw [hole_of_some hdeq, hpc]
    rfl
  by_cases hne : s.frontBlock = s.tailBlock
  · have hstep : s.consume d = s.answer d none := by
      rw [consume, hpc]
      exact if_neg (not_not.2 hne)
    have hle := hat.resolve_left (not_not.2 hne)
    rw [hstep]
    refine hs.consumedStill hstep ⟨fun _ => .refl _, rfl, rfl, rfl, rfl, fun b => (hhole b).symm,
      fun _ => rfl, fun _ => rfl, rfl, rfl, rfl⟩ h.older (fun c hc => by cases hc) rfl
      (.inr ⟨_, rfl, ⟨fun _ => hremoved ▸ hle, fun x hx => by cases hx⟩, ?_⟩)
    rw [taken]
    cases d.removal <;> rfl
  · have hstep : s.consume d = s.dequeueAt d .reload := by
      rw [consume, hpc]
      exact if_pos hne
    rw [hstep]
    refine hs.consumedStill hstep ⟨fun _ => .refl _, rfl, rfl, rfl, rfl, fun b => (hhole b).symm,
      fun _ => rfl, fun _ => rfl, rfl, rfl, rfl⟩ h.older ?_ rfl (.inl rfl)
    intro c hc
    obtain rfl := Option.some.inj hc
    exact ⟨hremoved, henqueued, hne⟩

theorem Consuming.empty (h : s.Consuming l) (hs : Stored size least s l)
    (hdeq : s.dequeuing = some d) (hpc : d.pc = .empty b) :
    Consumed size least s (s.consume d) l := by
  obtain ⟨hremoved, henqueued, hat⟩ := h.call d hdeq
  rw [ConsumerAt, hpc] at hat
  obtain ⟨rfl, hne, hitems⟩ := hat
  have hhole : ∀ b, s.hole b = false := by
    intro b
    rw [hole_of_some hdeq, hpc]
    rfl
  have hstep : s.consume d = s.dequeueAt d (.next (s.block s.frontBlock).next) := by
    rw [consume, hpc]
  rw [hstep]
  refine hs.consumedStill hstep ⟨fun _ => .refl _, rfl, rfl, rfl, rfl, fun b => (hhole b).symm,
    fun _ => rfl, fun _ => rfl, rfl, rfl, rfl⟩ h.older ?_ rfl (.inl rfl)
  intro c hc
  obtain rfl := Option.some.inj hc
  exact ⟨hremoved, henqueued, hs.live_eq_of_ne hne, hitems⟩

/-- The next element to be removed. -/
theorem Stored.getElem?_removed (h : Stored size least s l) :
    s.enqueued[s.removed.length]? = (l.live.flatMap l.items).head? := by
  rw [h.queue, List.getElem?_append_right (Nat.le_refl _), Nat.sub_self, List.head?_eq_getElem?]

theorem head?_append_of_ne_nil {xs : List α} (hxs : xs ≠ []) (ys : List α) :
    (xs ++ ys).head? = xs.head? := by
  obtain ⟨y, ys', rfl⟩ := List.exists_cons_of_ne_nil hxs
  rfl

/-- The first element of the first block that is not empty is found. -/
theorem answered_of_head? {a : Answer α} {xs : List α} (hxs : xs ≠ []) (hfound : a.found = xs.head?)
    (hnext : s.enqueued[a.removed]? = xs.head?) : s.Answered a := by
  refine ⟨fun hnone => ?_, fun x hx => by rw [hnext, ← hfound, hx]⟩
  rw [hfound, List.head?_eq_none_iff] at hnone
  exact absurd hnone hxs

theorem Consuming.next (h : s.Consuming l) (hs : Stored size least s l)
    (hdeq : s.dequeuing = some d) (hpc : d.pc = .next n) :
    Consumed size least s (s.consume d) l := by
  obtain ⟨hremoved, henqueued, hat⟩ := h.call d hdeq
  rw [ConsumerAt, hpc] at hat
  obtain ⟨⟨rest, hlive⟩, hitems⟩ := hat
  have hhole : ∀ b, s.hole b = false := by
    intro b
    rw [hole_of_some hdeq, hpc]
    rfl
  have hmem : n ∈ l.live := by
    rw [hlive]
    exact List.mem_cons_of_mem _ List.mem_cons_self
  have hne : n ≠ s.frontBlock := by
    have hnodup := (List.nodup_append.1 hs.nodup).1
    rw [hlive, List.nodup_cons] at hnodup
    rintro rfl
    exact hnodup.1 List.mem_cons_self
  have hfilled : l.items n ≠ [] := hs.filled n hmem hne
  have hhold := hs.holds n (Stored.mem_of_live hmem)
  rw [Holding, hhole] at hhold
  have htail : (s.block n).front ≠ (s.block n).tail := fun heq =>
    hfilled (hhold.tail_eq_front_iff.1 heq.symm)
  by_cases hpeek : d.removal = .peek
  · have hdata := hhold.data_front_eq_head? hfilled
    have hstep : s.consume d =
        ((s.check ((s.block n).front ≠ (s.block n).tail)).check
          ((s.block n).data (s.block n).front).isSome).answer d
          ((s.block n).data (s.block n).front) := by
      rw [consume, hpc]
      exact if_pos hpeek
    rw [hstep]
    refine hs.consumedStill hstep ⟨fun _ => .refl _, rfl, rfl, rfl, rfl, fun b => (hhole b).symm,
      fun _ => rfl, fun _ => rfl, rfl, rfl, rfl⟩ h.older (fun c hc => by cases hc) ?_
      (.inr ⟨_, rfl, answered_of_head? hfilled hdata ?_, ?_⟩)
    · obtain ⟨y, ys, hys⟩ := List.exists_cons_of_ne_nil hfilled
      change ((s.sound && decide _) && decide ((s.block n).data (s.block n).front).isSome) = _
      rw [decide_eq_true htail, Bool.and_true, hdata, hys]
      exact Bool.and_true _
    · rw [hremoved, hs.getElem?_removed, hlive, List.flatMap_cons, hitems, List.nil_append,
        List.flatMap_cons, head?_append_of_ne_nil hfilled]
    · rw [taken, hpeek]
      rfl
  · let s' := s.modify n ({ · with localTail := (s.block n).tail })
    have hstep : s.consume d =
        (s'.check ((s.block n).front ≠ (s.block n).tail)).dequeueAt d
          (.leave n (s.block n).front) := by
      rw [consume, hpc]
      exact if_neg hpeek
    have hagrees : ∀ b, (s'.block b).Agrees (s.block b) :=
      agrees_modify s n ⟨rfl, rfl, rfl, rfl, rfl⟩
    have hself : s'.block n = { s.block n with localTail := (s.block n).tail } :=
      modify_block_self ..
    have hfront : s'.block s.frontBlock = s.block s.frontBlock :=
      modify_block_of_ne s hne.symm _
    rw [hstep]
    refine hs.consumedStill hstep ⟨hagrees, rfl, rfl, rfl, rfl, fun b => (hhole b).symm,
      fun _ => rfl, fun _ => rfl, rfl, rfl, rfl⟩ (hfront ▸ h.older) ?_ ?_ (.inl rfl)
    · intro c hc
      obtain rfl := Option.some.inj hc
      refine ⟨hremoved, henqueued, ⟨rest, hlive⟩, hitems, (hagrees n).front.symm, ?_, ?_⟩
      · change _ ≠ (s'.block n).localTail
        rw [hself]
        exact htail
      · change (s'.block n).TailOlder _
        rw [hself]
        exact .of_eq hhold rfl
    · change (s.sound && decide _) = _
      rw [decide_eq_true htail, Bool.and_true]

theorem Consuming.leave (h : s.Consuming l) (hs : Stored size least s l)
    (hdeq : s.dequeuing = some d) {i : ℕ} (hpc : d.pc = .leave n i) :
    Consumed size least s (s.consume d) l := by
  obtain ⟨hremoved, henqueued, hat⟩ := h.call d hdeq
  rw [ConsumerAt, hpc] at hat
  obtain ⟨⟨rest, hlive⟩, hitems, hi, hlocal, holder⟩ := hat
  have hstep : s.consume d = { s with frontBlock := n }.dequeueAt d (.nonEmpty n i) := by
    rw [consume, hpc]
  have hne : s.tailBlock ≠ s.frontBlock := by
    intro heq
    have hone := hs.live_eq_of_eq heq.symm
    rw [hlive] at hone
    simp at hone
  rw [hstep]
  refine ⟨⟨_, hs.passed hdeq hpc hlive hitems, ⟨holder, fun c hc => ?_⟩, ?_⟩, rfl,
    fun _ => .inl, id⟩
  · obtain rfl := Option.some.inj hc
    exact ⟨hremoved, henqueued, rfl, hi, hlocal⟩
  · refine consumerMoves hstep (Nat.le_refl _) (fun b hb => ?_) (List.prefix_append _ _)
      (fun _ _ => ⟨rfl, rfl⟩) (fun hfull _ => hfull hne) fun _ => id
    rw [hlive]
    rw [List.mem_append, List.mem_append, List.mem_singleton] at hb
    rw [List.mem_append, List.mem_cons]
    tauto

theorem Consuming.nonEmpty (h : s.Consuming l) (hs : Stored size least s l)
    (hdeq : s.dequeuing = some d) {i : ℕ} (hpc : d.pc = .nonEmpty b i) :
    Consumed size least s (s.consume d) l := by
  obtain ⟨hremoved, henqueued, hat⟩ := h.call d hdeq
  rw [ConsumerAt, hpc] at hat
  obtain ⟨rfl, rfl, hlocal⟩ := hat
  have hhole : ∀ b, s.hole b = false := by
    intro b
    rw [hole_of_some hdeq, hpc]
    rfl
  have hhold := hs.front_holds
  rw [Holding, hhole] at hhold
  have hitems : l.items s.frontBlock ≠ [] := by
    obtain ⟨m, hm, heq⟩ := h.older
    exact hhold.ne_nil_of_older hm (heq ▸ hlocal.symm)
  obtain ⟨y, ys, hys⟩ := List.exists_cons_of_ne_nil hitems
  have hdata := hhold.data_front_eq_head? hitems
  have hsound : (s.sound &&
      decide ((s.block s.frontBlock).data (s.block s.frontBlock).front).isSome) = s.sound := by
    rw [hdata, hys]
    exact Bool.and_true _
  by_cases hpeek : d.removal = .peek
  · have hstep : s.consume d =
        (s.check ((s.block s.frontBlock).data (s.block s.frontBlock).front).isSome).answer d
          ((s.block s.frontBlock).data (s.block s.frontBlock).front) := by
      rw [consume, hpc]
      exact if_pos hpeek
    rw [hstep]
    refine hs.consumedStill hstep ⟨fun _ => .refl _, rfl, rfl, rfl, rfl, fun b => (hhole b).symm,
      fun _ => rfl, fun _ => rfl, rfl, rfl, rfl⟩ h.older (fun c hc => by cases hc) hsound
      (.inr ⟨_, rfl, answered_of_head? hitems hdata ?_, ?_⟩)
    · obtain ⟨rest, hlive⟩ := hs.exists_cons
      rw [hremoved, hs.getElem?_removed, hlive, List.flatMap_cons, head?_append_of_ne_nil hitems]
    · rw [taken, hpeek]
      rfl
  · let s' := s.modify s.frontBlock fun block =>
      { block with data := update block.data (s.block s.frontBlock).front none }
    have hblock : s'.block s.frontBlock =
        { s.block s.frontBlock with
          data := update (s.block s.frontBlock).data (s.block s.frontBlock).front none } :=
      modify_block_self ..
    have hother : ∀ b ≠ s.frontBlock, s'.block b = s.block b := fun b hb =>
      modify_block_of_ne s hb _
    have hstep : s.consume d =
        ((s.check ((s.block s.frontBlock).data (s.block s.frontBlock).front).isSome).modify
          s.frontBlock fun block =>
            { block with data := update block.data (s.block s.frontBlock).front none }).dequeueAt d
          (.taken s.frontBlock (s.block s.frontBlock).front
            ((s.block s.frontBlock).data (s.block s.frontBlock).front)) := by
      rw [consume, hpc]
      exact if_neg hpeek
    have htail : s'.block s.tailBlock = { s.block s.tailBlock with
        data := (s'.block s.tailBlock).data } := by
      by_cases heq : s.tailBlock = s.frontBlock
      · rw [heq, hblock]
      · rw [hother _ heq]
    rw [hstep]
    refine ⟨⟨l, hs.took hdeq hpc hitems, ⟨?_, fun c hc => ?_⟩, ?_⟩, hsound, fun _ => .inl, id⟩
    · change (s'.block s.frontBlock).TailOlder _
      rw [hblock]
      exact h.older
    · obtain rfl := Option.some.inj hc
      refine ⟨hremoved, henqueued, rfl, ?_, ?_, hdata, hpeek⟩
      · change _ = (s'.block s.frontBlock).front
        rw [hblock]
      · change _ ≠ (s'.block s.frontBlock).localTail
        rw [hblock]
        exact hlocal
    · refine consumerMoves hstep (Nat.le_refl _) (fun _ => id) (List.prefix_refl _)
        (fun b hb => ?_) (fun hfull hne => ?_) fun flight holder => ?_
      · have := hother b hb
        exact ⟨congrArg Block.front this, congrArg Block.data this⟩
      · change _ = (s'.block s.tailBlock).size
        rw [htail]
        exact hfull hne
      · change (s'.block s.tailBlock).FrontOlder _ _
        rw [htail]
        exact holder

/-- `front` moves on and leaves the copy of `tail` where it is. -/
theorem Block.TailOlder.release {block : Block α} {xs : List α} (hlt : block.front < block.size)
    (h : block.TailOlder (x :: xs)) (hne : block.front ≠ block.localTail) :
    Block.TailOlder { block with front := (block.front + 1) % block.size } xs := by
  obtain ⟨m, hm, heq⟩ := h
  cases m with
  | zero =>
    rw [Nat.add_zero, Nat.mod_eq_of_lt hlt] at heq
    exact absurd heq.symm hne
  | succ m =>
    refine ⟨m, Nat.le_of_succ_le_succ hm, ?_⟩
    change block.localTail = ((block.front + 1) % block.size + m) % block.size
    rw [heq, Nat.mod_add_mod, Nat.add_assoc, Nat.add_comm 1 m]

/-- `front` moves on and leaves its copy where it is. -/
theorem Block.FrontOlder.release {block : Block α} {xs flight : List α}
    (h : block.FrontOlder (x :: xs) flight) :
    Block.FrontOlder { block with front := (block.front + 1) % block.size } xs flight := by
  obtain ⟨hlt, k, hfront, hlen⟩ := h
  rw [List.length_cons] at hlen
  refine ⟨hlt, k + 1, ?_, ?_⟩
  · change (block.front + 1) % block.size = (block.localFront + (k + 1)) % block.size
    rw [hfront, Nat.mod_add_mod, Nat.add_assoc]
  · change k + 1 + xs.length + flight.length < block.size
    omega

theorem Consuming.taken (h : s.Consuming l) (hs : Stored size least s l)
    (hdeq : s.dequeuing = some d) {i : ℕ} {result : Option α} (hpc : d.pc = .taken b i result) :
    Consumed size least s (s.consume d) l := by
  obtain ⟨hremoved, henqueued, hat⟩ := h.call d hdeq
  rw [ConsumerAt, hpc] at hat
  obtain ⟨rfl, rfl, hlocal, hresult, hpeek⟩ := hat
  have hhold := hs.front_holds
  have hitems : l.items s.frontBlock ≠ [] := by
    obtain ⟨m, hm, heq⟩ := h.older
    exact hhold.ne_nil_of_older hm (heq ▸ hlocal.symm)
  obtain ⟨rest, hlive⟩ := hs.exists_cons
  have hnext : s.enqueued[s.removed.length]? = (l.items s.frontBlock).head? := by
    rw [hs.getElem?_removed, hlive, List.flatMap_cons, head?_append_of_ne_nil hitems]
  have hanswered : ∀ a : Answer α, a.found = result → a.removed = d.removed → s.Answered a :=
    fun a hfound ha =>
    answered_of_head? hitems (hfound.trans hresult) (by rw [ha, hremoved, hnext])
  obtain ⟨y, ys, hys⟩ := List.exists_cons_of_ne_nil hitems
  have hblock : ({ s.block s.frontBlock with
      front := (s.block s.frontBlock).succ (s.block s.frontBlock).front } : Block α) =
      { s.block s.frontBlock with
        front := ((s.block s.frontBlock).front + 1) % (s.block s.frontBlock).size } := by
    rw [hs.succ_eq (Stored.mem_of_live hs.frontBlock_mem)]
  have hfound : result = some y := by
    rw [hresult, hys]
    rfl
  let s₀ : ReaderWriterQueue α := { s with removed := s.removed ++ result.toList }
  let s' := s₀.modify s.frontBlock fun block =>
    { block with front := block.succ (s.block s.frontBlock).front }
  have hself : s'.block s.frontBlock =
      { s.block s.frontBlock with
        front := ((s.block s.frontBlock).front + 1) % (s.block s.frontBlock).size } :=
    (modify_block_self s₀ s.frontBlock _).trans hblock
  have hother : ∀ b ≠ s.frontBlock, s'.block b = s.block b := fun b hb =>
    modify_block_of_ne s₀ hb _
  have hstep : s.consume d = s'.answer d result := by
    rw [consume, hpc]
  rw [hstep]
  refine ⟨⟨_, hs.released hdeq hpc hys hfound hblock, ⟨?_, fun c hc => by cases hc⟩, ?_⟩, rfl,
    fun a ha => ?_, fun hall => ?_⟩
  · change (s'.block s.frontBlock).TailOlder ((l.put s.frontBlock ys).items s.frontBlock)
    rw [hself, Layout.put_self]
    exact .release hhold.front_lt (hys ▸ h.older) hlocal
  · refine consumerMoves hstep ?_ (fun _ => id) (List.prefix_refl _) (fun b hb => ?_)
      (fun hfull hne => ?_) fun flight holder => ?_
    · change s.removed.length ≤ (s.removed ++ result.toList).length
      rw [List.length_append]
      exact Nat.le_add_right _ _
    · have := hother b hb
      exact ⟨congrArg Block.front this, congrArg Block.data this⟩
    · change s.tailBlock ≠ s.frontBlock at hne
      change ((l.put s.frontBlock ys).items s.tailBlock).length + 1 = (s'.block s.tailBlock).size
      rw [hother _ hne, l.put_of_ne hne]
      exact hfull hne
    · change (s'.block s.tailBlock).FrontOlder ((l.put s.frontBlock ys).items s.tailBlock) _
      by_cases heq : s.tailBlock = s.frontBlock
      · rw [heq, hys] at holder
        rw [heq, hself, Layout.put_self]
        exact holder.release
      · rw [hother _ heq, l.put_of_ne heq]
        exact holder
  · rcases List.mem_append.1 ha with ha | ha
    · exact .inl ha
    · exact .inr (List.mem_singleton.1 ha ▸ hanswered _ rfl rfl)
  · change s.removed ++ result.toList = ReaderWriterQueue.taken (s.answers ++ [_])
    rw [hall, ReaderWriterQueue.taken, ReaderWriterQueue.taken, List.filter_append,
      List.filterMap_append, hfound]
    congr 1
    simp [hpeek]

/-- What a step of the consumer comes to. -/
theorem Consuming.step (h : s.Consuming l) (hs : Stored size least s l)
    (hdeq : s.dequeuing = some d) : Consumed size least s (s.consume d) l := by
  cases hpc : d.pc with
  | drained b i => exact h.drained hs hdeq hpc
  | compare b => exact h.compare hs hdeq hpc
  | reload => exact h.reload hs hdeq hpc
  | empty b => exact h.empty hs hdeq hpc
  | next n => exact h.next hs hdeq hpc
  | leave n i => exact h.leave hs hdeq hpc
  | nonEmpty b i => exact h.nonEmpty hs hdeq hpc
  | taken b i result => exact h.taken hs hdeq hpc

end ReaderWriterQueue

end Yasio
