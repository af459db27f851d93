import Mathlib.Data.List.Flatten
import Yasio.ReaderWriterThreads

/-!
# The producer of the lock-free queue

Each step of `inner_enqueue`, from any place of its code: it keeps the circle of blocks and what the
producer knows, leaves the consumer's variables alone, and finds every block taken only when the
queue holds what it is to hold.
-/

namespace Yasio

namespace ReaderWriterQueue

open Function CircularBuffer

variable {α : Type*} {s s' : ReaderWriterQueue α} {l l' : Layout α} {b n size least : ℕ}
  {maxBlockSize : ℕ} {malloc : Bool} {c : EnqueueCall α}

/-! ## What is left alone -/

/-- The producer stores to none of the consumer's variables. -/
theorem produce_frontBlock (maxBlockSize : ℕ) (malloc : Bool) (s : ReaderWriterQueue α)
    (c : EnqueueCall α) :
    (s.produce maxBlockSize malloc c).frontBlock = s.frontBlock ∧
      (s.produce maxBlockSize malloc c).dequeuing = s.dequeuing ∧
      (s.produce maxBlockSize malloc c).removed = s.removed ∧
      (s.produce maxBlockSize malloc c).answers = s.answers := by
  unfold produce
  split
  case h_4 | h_8 => split_ifs <;> exact ⟨rfl, rfl, rfl, rfl⟩
  all_goals exact ⟨rfl, rfl, rfl, rfl⟩

theorem produce_block (maxBlockSize : ℕ) (malloc : Bool) (s : ReaderWriterQueue α)
    (c : EnqueueCall α) (hb : b < s.made) :
    ((s.produce maxBlockSize malloc c).block b).front = (s.block b).front ∧
      ((s.produce maxBlockSize malloc c).block b).localTail = (s.block b).localTail ∧
      ((s.produce maxBlockSize malloc c).block b).sizeMask = (s.block b).sizeMask := by
  have hupdate : ∀ {t : ReaderWriterQueue α} {a : ℕ} {block : Block α},
      t.block = update s.block a block → block.front = (s.block a).front →
      block.localTail = (s.block a).localTail → block.sizeMask = (s.block a).sizeMask →
      (t.block b).front = (s.block b).front ∧ (t.block b).localTail = (s.block b).localTail ∧
        (t.block b).sizeMask = (s.block b).sizeMask := fun ht hfront htail hmask =>
    ⟨block_eq_of_update (g := Block.front) ht hfront b,
      block_eq_of_update (g := Block.localTail) ht htail b,
      block_eq_of_update (g := Block.sizeMask) ht hmask b⟩
  unfold produce
  split
  case h_4 => split_ifs <;> exact ⟨rfl, rfl, rfl⟩
  case h_8 =>
    split_ifs
    · have hne : b ≠ s.made := Nat.ne_of_lt hb
      exact ⟨congrArg Block.front (update_of_ne hne _ s.block),
        congrArg Block.localTail (update_of_ne hne _ s.block),
        congrArg Block.sizeMask (update_of_ne hne _ s.block)⟩
    · exact ⟨rfl, rfl, rfl⟩
  case h_10 => exact ⟨rfl, rfl, rfl⟩
  all_goals exact hupdate rfl rfl rfl rfl

theorem Stored.producerMoves (h : Stored size least s l)
    (hs : s.produce maxBlockSize malloc c = s') (henqueued : s.enqueued <+: s'.enqueued)
    (htail : s'.tailBlock = s.tailBlock ∨ s'.tailBlock ∉ l.live) (hlive : l.live <+: l'.live)
    (hitems : ∀ b ∈ l.live, l.items b <+: l'.items b)
    (hitems_eq : ∀ b ∈ l.live, b ≠ s.tailBlock → l'.items b = l.items b) :
    s.ProducerMoves s' l l' := by
  obtain ⟨hfront, hdequeuing, hremoved, hanswers⟩ :=
    produce_frontBlock maxBlockSize malloc s c
  have hblock : ∀ b ∈ l.live, _ := fun b hb =>
    produce_block maxBlockSize malloc s c (h.made b (mem_of_live hb))
  rw [hs] at hfront hdequeuing hremoved hanswers hblock
  exact ⟨hfront, hdequeuing, hremoved, hanswers, henqueued, htail, hlive,
    fun b hb => (hblock b hb).1, fun b hb => (hblock b hb).2.1, fun b hb => (hblock b hb).2.2,
    hitems, hitems_eq⟩

/-- A step of the producer that leaves the layout alone. -/
theorem Stored.producerMoves_self (h : Stored size least s l)
    (hs : s.produce maxBlockSize malloc c = s') (henqueued : s'.enqueued = s.enqueued)
    (htail : s'.tailBlock = s.tailBlock) : s.ProducerMoves s' l l :=
  h.producerMoves hs (henqueued ▸ List.prefix_refl _) (.inl htail) (List.prefix_refl _)
    (fun _ _ => List.prefix_refl _) fun _ _ _ => rfl

/-- A step of the producer has come out well. -/
structure Produced (size least : ℕ) (s s' : ReaderWriterQueue α) (l : Layout α) : Prop where
  layout : ∃ l', Stored size least s' l' ∧ s'.Producing l' ∧ s.ProducerMoves s' l l'
  sound : s'.sound = s.sound
  crowded : ∀ held ∈ s'.crowded, held ∈ s.crowded ∨ size ≤ held

/-- The elements of a live block are in the queue. -/
theorem Stored.length_items_le (h : Stored size least s l) (hb : b ∈ l.live) :
    s.removed.length + (l.items b).length ≤ s.enqueued.length := by
  have hsub : ([b].flatMap l.items).Sublist (l.live.flatMap l.items) :=
    (List.singleton_sublist.2 hb).flatMap l.items
  rw [List.flatMap_singleton] at hsub
  rw [h.queue, List.length_append]
  exact Nat.add_le_add_left hsub.length_le _

/-- A step that stores nothing but a copy. -/
theorem Stored.producedStill (h : Stored size least s l)
    (hs : s.produce maxBlockSize malloc c = s') (hstill : s.Alike s')
    (holder : (s'.block s.tailBlock).FrontOlder (l.items s.tailBlock) (s.flight s.tailBlock))
    (hcall : ∀ d, s'.enqueuing = some d →
      s.enqueued.length ≤ d.held + s.removed.length ∧ s'.ProducerAt l d)
    (hsound : s'.sound = s.sound)
    (hcrowded : ∀ held ∈ s'.crowded, held ∈ s.crowded ∨ size ≤ held) :
    Produced size least s s' l where
  layout := by
    refine ⟨l, h.congr hstill, ⟨?_, fun d hd => ?_⟩,
      h.producerMoves_self hs hstill.enqueued hstill.tailBlock⟩
    · rwa [hstill.tailBlock, hstill.flight]
    · rw [hstill.enqueued, hstill.removed]
      exact hcall d hd
  sound := hsound
  crowded := hcrowded

theorem Producing.full (h : s.Producing l) (hs : Stored size least s l)
    (henq : s.enqueuing = some c) {t t' : ℕ} (hpc : c.pc = .full b t t') :
    Produced size least s (s.produce maxBlockSize malloc c) l := by
  obtain ⟨hheld, hat⟩ := h.call c henq
  rw [ProducerAt, hpc] at hat
  obtain ⟨rfl, rfl, ht'⟩ := hat
  obtain ⟨hflight, hearly, hunlinked⟩ := nothing_of_quiet henq hpc trivial
  have hhold := hs.tail_holds
  rw [Holding, hflight] at hhold
  let block : Block α :=
    { s.block s.tailBlock with localFront := (s.block s.tailBlock).front }
  let s' := s.modify s.tailBlock fun _ => block
  have hblock : s'.block s.tailBlock = block := modify_block_self ..
  have hagrees : ∀ d, (s'.block d).Agrees (s.block d) :=
    agrees_modify s s.tailBlock ⟨rfl, rfl, rfl, rfl, rfl⟩
  have holder : block.FrontOlder (l.items s.tailBlock) (s.flight s.tailBlock) := by
    rw [hflight]
    exact .of_eq hhold rfl
  by_cases hne : t' = (s.block s.tailBlock).front
  · have hstep : s.produce maxBlockSize malloc c = s'.enqueueAt c (.behind s.tailBlock) := by
      rw [produce, hpc]
      change s'.enqueueAt c (if t' ≠ (s.block s.tailBlock).front then _ else _) = _
      rw [if_neg (not_not.2 hne)]
    have hfull : (l.items s.tailBlock).length + 1 = (s.block s.tailBlock).size :=
      hhold.succ_tail_eq_front_iff.1 (ht'.symm.trans hne)
    rw [hstep]
    refine hs.producedStill hstep ⟨hagrees, rfl, rfl, rfl, rfl, fun _ => rfl,
      fun d => (hflight d).symm, fun d => (hearly d).symm, rfl, rfl, hunlinked.symm⟩
      (hblock ▸ holder) ?_ rfl fun _ => .inl
    intro d hd
    obtain rfl := Option.some.inj hd
    have hle := hs.length_items_le hs.tailBlock_mem
    refine ⟨hheld, rfl, ?_, fun _ => ?_⟩
    · change (s'.block s.tailBlock).size ≤ c.held + 1
      rw [(hagrees _).size]
      omega
    · change _ = (s'.block s.tailBlock).size
      rw [(hagrees _).size]
      exact hfull
  · have hstep : s.produce maxBlockSize malloc c =
        s'.enqueueAt c (.room s.tailBlock (s.block s.tailBlock).tail t') := by
      rw [produce, hpc]
      change s'.enqueueAt c (if t' ≠ (s.block s.tailBlock).front then _ else _) = _
      rw [if_pos hne]
    rw [hstep]
    refine hs.producedStill hstep ⟨hagrees, rfl, rfl, rfl, rfl, fun _ => rfl,
      fun d => (hflight d).symm, fun d => (hearly d).symm, rfl, rfl, hunlinked.symm⟩
      (hblock ▸ holder) ?_ rfl fun _ => .inl
    intro d hd
    obtain rfl := Option.some.inj hd
    refine ⟨hheld, rfl, ?_, ?_, ?_⟩
    · exact (hagrees _).tail.symm
    · change t' = ((s.block s.tailBlock).tail + 1) % (s'.block s.tailBlock).size
      rw [(hagrees _).size]
      exact ht'
    · change t' ≠ (s'.block s.tailBlock).localFront
      rw [hblock]
      exact hne

theorem Producing.room (h : s.Producing l) (hs : Stored size least s l)
    (henq : s.enqueuing = some c) {t t' : ℕ} (hpc : c.pc = .room b t t') :
    Produced size least s (s.produce maxBlockSize malloc c) l := by
  obtain ⟨hheld, hat⟩ := h.call c henq
  rw [ProducerAt, hpc] at hat
  obtain ⟨rfl, rfl, ht', hne⟩ := hat
  obtain ⟨hflight, hearly, hunlinked⟩ := nothing_of_quiet henq hpc trivial
  obtain ⟨hlt, k, hfront, hlen⟩ := h.older
  have hhold := hs.tail_holds
  have hroom : k + (l.items s.tailBlock).length + 1 < (s.block s.tailBlock).size :=
    hhold.room_of_older hlt hfront hlen (ht' ▸ hne)
  have hstep : s.produce maxBlockSize malloc c =
      (s.constructAt s.tailBlock (s.block s.tailBlock).tail c.element).enqueueAt c
        (.built s.tailBlock t') := by
    rw [produce, hpc]
  let block : Block α :=
    { s.block s.tailBlock with
      data := update (s.block s.tailBlock).data (s.block s.tailBlock).tail (some c.element) }
  let s' := s.constructAt s.tailBlock (s.block s.tailBlock).tail c.element
  have hblock : s'.block s.tailBlock = block := update_self ..
  rw [hstep]
  refine ⟨⟨l, ?_, ⟨?_, ?_⟩, hs.producerMoves_self hstep rfl rfl⟩, ?_, fun _ => .inl⟩
  · exact hs.constructed (Stored.mem_of_live hs.tailBlock_mem) hflight (by omega)
      (fun _ => rfl) (fun d => (hearly d).symm) hunlinked.symm
  · change (s'.block s.tailBlock).FrontOlder _
      (if s.tailBlock = s.tailBlock then [c.element] else [])
    rw [hblock, if_pos rfl]
    exact ⟨hlt, k, hfront, hroom⟩
  · intro d hd
    obtain rfl := Option.some.inj hd
    refine ⟨hheld, rfl, ?_⟩
    change t' = ((s'.block s.tailBlock).tail + 1) % (s'.block s.tailBlock).size
    rw [hblock]
    exact ht'
  · rw [Holding, hflight] at hhold
    change (s.sound && decide ((s.block s.tailBlock).data (s.block s.tailBlock).tail).isNone) = _
    rw [hhold.data_tail]
    exact Bool.and_true _

theorem Producing.built (h : s.Producing l) (hs : Stored size least s l)
    (henq : s.enqueuing = some c) {t' : ℕ} (hpc : c.pc = .built b t') :
    Produced size least s (s.produce maxBlockSize malloc c) l := by
  obtain ⟨hheld, hat⟩ := h.call c henq
  rw [ProducerAt, hpc] at hat
  obtain ⟨rfl, ht'⟩ := hat
  obtain ⟨hlt, k, hfront, hlen⟩ := h.older
  have hstep : s.produce maxBlockSize malloc c =
      (s.modify s.tailBlock ({ · with tail := t' })).enqueueTrue c := by
    rw [produce, hpc]
  have hflight : s.flight s.tailBlock = [c.element] := by
    rw [flight_of_some henq, EnqueueCall.flight, hpc]
    exact if_pos rfl
  rw [hstep]
  refine ⟨⟨_, hs.published henq hpc ht', ⟨?_, fun d hd => by cases hd⟩, ?_⟩, rfl, fun _ => .inl⟩
  · let s' := s.modify s.tailBlock ({ · with tail := t' })
    have hblock : s'.block s.tailBlock = { s.block s.tailBlock with tail := t' } :=
      modify_block_self ..
    change (s'.block s.tailBlock).FrontOlder ((l.put s.tailBlock _).items s.tailBlock) []
    rw [hblock, Layout.put_self]
    refine ⟨hlt, k, hfront, ?_⟩
    rw [hflight, List.length_singleton] at hlen
    rw [List.length_append, List.length_singleton]
    change k + ((l.items s.tailBlock).length + 1) < (s.block s.tailBlock).size
    omega
  · refine hs.producerMoves hstep (List.prefix_append _ _) (.inl rfl) (List.prefix_refl _)
      (fun d _ => ?_) fun d _ hd => l.put_of_ne hd _
    rcases eq_or_ne d s.tailBlock with rfl | hd
    · rw [Layout.put_self]
      exact List.prefix_append _ _
    · exact (l.put_of_ne hd _).symm ▸ List.prefix_refl _

/-! ## Behind the tail block -/

theorem length_flatMap_ge {ι : Type*} {bs : List ι} {f : ι → List α} {k : ℕ}
    (h : ∀ b ∈ bs, k ≤ (f b).length) : bs.length * k ≤ (bs.flatMap f).length := by
  induction bs with
  | nil => simp
  | cons b bs ih =>
    have hb := h b List.mem_cons_self
    have ih := ih fun c hc => h c (List.mem_cons_of_mem b hc)
    rw [List.length_cons, List.flatMap_cons, List.length_append, Nat.succ_mul]
    omega

/-- When the block behind the tail block is the front block, the queue holds what it is to hold. -/
theorem Stored.size_le (h : Stored size least s l) (hfull : s.TailFull l) {held : ℕ}
    (hnext : (s.block s.tailBlock).next = s.frontBlock)
    (htail : (s.block s.tailBlock).size ≤ held + 1)
    (hheld : s.enqueued.length ≤ held + s.removed.length) : size ≤ held := by
  have hroomy := h.roomy
  rw [h.spare_eq_nil hnext, List.append_nil] at hroomy
  by_cases heq : s.frontBlock = s.tailBlock
  · rw [h.live_eq_of_eq heq] at hroomy
    have hleast := h.least_le _ (h.made _ (mem_of_live h.tailBlock_mem))
    simp only [List.length_singleton, Nat.sub_self, Nat.max_zero, Nat.one_mul] at hroomy
    omega
  · obtain ⟨rest, hlive⟩ := h.live_eq_of_ne heq
    have hnodup := (List.nodup_append.1 h.nodup).1
    rw [hlive, List.nodup_cons] at hnodup
    have hlen : ∀ b ∈ (s.block s.frontBlock).next :: rest, least - 1 ≤ (l.items b).length := by
      intro b hb
      have hmem : b ∈ l.live := hlive ▸ List.mem_cons_of_mem _ hb
      have hne : b ≠ s.frontBlock := by
        rintro rfl
        exact hnodup.1 hb
      have hleast := h.least_le b (h.made b (mem_of_live hmem))
      have hlen : (l.items b).length + 1 = (s.block b).size := by
        by_cases hbt : b = s.tailBlock
        · rw [hbt]
          exact hfull (Ne.symm heq)
        · exact h.full b hmem hne hbt
      omega
    have hge := length_flatMap_ge hlen
    have hqueue := congrArg List.length h.queue
    rw [hlive, List.flatMap_cons, List.length_append, List.length_append] at hqueue
    rw [hlive] at hroomy
    simp only [List.length_cons, Nat.add_sub_cancel] at hroomy hge
    rw [Nat.max_eq_right (Nat.le_add_left 1 rest.length)] at hroomy
    omega

theorem Producing.behind (h : s.Producing l) (hs : Stored size least s l)
    (henq : s.enqueuing = some c) (hpc : c.pc = .behind b) :
    Produced size least s (s.produce maxBlockSize malloc c) l := by
  obtain ⟨hheld, hat⟩ := h.call c henq
  rw [ProducerAt, hpc] at hat
  obtain ⟨rfl, htail, hfull⟩ := hat
  obtain ⟨hflight, hearly, hunlinked⟩ := nothing_of_quiet henq hpc trivial
  by_cases hnext : (s.block s.tailBlock).next = s.frontBlock
  · have hsize : size ≤ c.held := hs.size_le hfull hnext htail hheld
    let s' := { s with crowded := s.crowded ++ [c.held] }
    have hcrowded : ∀ held ∈ s'.crowded, held ∈ s.crowded ∨ size ≤ held := by
      intro held hmem
      rcases List.mem_append.1 hmem with hmem | hmem
      · exact .inl hmem
      · exact .inr (List.mem_singleton.1 hmem ▸ hsize)
    have hstep : s.produce maxBlockSize malloc c =
        if c.canAlloc then s'.enqueueAt c (.make s.tailBlock) else s'.enqueueFalse := by
      rw [produce, hpc]
      exact if_neg (not_not.2 hnext)
    by_cases halloc : c.canAlloc = true
    · rw [if_pos halloc] at hstep
      rw [hstep]
      refine hs.producedStill hstep ⟨fun _ => .refl _, rfl, rfl, rfl, rfl, fun _ => rfl,
        fun d => (hflight d).symm, fun d => (hearly d).symm, rfl, rfl, hunlinked.symm⟩ h.older ?_
        rfl hcrowded
      intro d hd
      obtain rfl := Option.some.inj hd
      exact ⟨hheld, rfl, List.mem_append_right _ (List.mem_singleton_self _), hfull⟩
    · rw [if_neg halloc] at hstep
      rw [hstep]
      exact hs.producedStill hstep ⟨fun _ => .refl _, rfl, rfl, rfl, rfl, fun _ => rfl,
        fun d => (hflight d).symm, fun d => (hearly d).symm, rfl, rfl, hunlinked.symm⟩ h.older
        (fun d hd => by cases hd) rfl hcrowded
  · have hstep : s.produce maxBlockSize malloc c =
        s.enqueueAt c (.ahead (s.block s.tailBlock).next) := by
      rw [produce, hpc]
      exact if_pos hnext
    rw [hstep]
    refine hs.producedStill hstep ⟨fun _ => .refl _, rfl, rfl, rfl, rfl, fun _ => rfl,
      fun d => (hflight d).symm, fun d => (hearly d).symm, rfl, rfl, hunlinked.symm⟩ h.older ?_
      rfl fun _ => .inl
    intro d hd
    obtain rfl := Option.some.inj hd
    exact ⟨hheld, hs.spare_head? hnext, hfull⟩

/-- The spare blocks are empty before the producer has put an element there. -/
theorem Stored.items_eq_nil (h : Stored size least s l) (hb : b ∈ l.spare)
    (hearly : ∀ d, s.early d = []) : l.items b = [] := (h.spare b hb).trans (hearly b)

theorem Producing.ahead (h : s.Producing l) (hs : Stored size least s l)
    (henq : s.enqueuing = some c) (hpc : c.pc = .ahead n) :
    Produced size least s (s.produce maxBlockSize malloc c) l := by
  obtain ⟨hheld, hat⟩ := h.call c henq
  rw [ProducerAt, hpc] at hat
  obtain ⟨hn, hfull⟩ := hat
  obtain ⟨hflight, hearly, hunlinked⟩ := nothing_of_quiet henq hpc trivial
  have hmem : n ∈ l.spare := List.mem_of_head? hn
  have hhold := hs.holds n (Stored.mem_of_spare hmem)
  rw [Holding, hs.items_eq_nil hmem hearly] at hhold
  have htail : (s.block n).tail = (s.block n).front := hhold.tail_eq_front_iff.2 rfl
  let s' := s.modify n ({ · with localFront := (s.block n).front })
  have hstep : s.produce maxBlockSize malloc c =
      (s'.check ((s.block n).front = (s.block n).tail)).enqueueAt c
        (.clear n (s.block n).tail) := by
    rw [produce, hpc]
  have hagrees : ∀ d, (s'.block d).Agrees (s.block d) :=
    agrees_modify s n ⟨rfl, rfl, rfl, rfl, rfl⟩
  have hblock : s'.block s.tailBlock = s.block s.tailBlock :=
    modify_block_of_ne s (hs.ne_tailBlock_of_spare hmem).symm _
  rw [hstep]
  refine hs.producedStill hstep ⟨hagrees, rfl, rfl, rfl, rfl, fun _ => rfl,
    fun d => (hflight d).symm, fun d => (hearly d).symm, rfl, rfl, hunlinked.symm⟩
    (hblock ▸ h.older) ?_ ?_ fun _ => .inl
  · intro d hd
    obtain rfl := Option.some.inj hd
    refine ⟨hheld, hn, ?_, ?_, (hagrees n).tail.symm⟩
    · intro hne
      change _ = (s'.block s.tailBlock).size
      rw [hblock]
      exact hfull hne
    · have hself : s'.block n = { s.block n with localFront := (s.block n).front } :=
        modify_block_self ..
      change (s'.block n).localFront = (s'.block n).front
      rw [hself]
  · change (s.sound && decide ((s.block n).front = (s.block n).tail)) = s.sound
    rw [decide_eq_true htail.symm, Bool.and_true]

theorem Producing.clear (h : s.Producing l) (hs : Stored size least s l)
    (henq : s.enqueuing = some c) {t : ℕ} (hpc : c.pc = .clear n t) :
    Produced size least s (s.produce maxBlockSize malloc c) l := by
  obtain ⟨hheld, hat⟩ := h.call c henq
  rw [ProducerAt, hpc] at hat
  obtain ⟨hn, hfull, hlocal, rfl⟩ := hat
  obtain ⟨hflight, hearly, hunlinked⟩ := nothing_of_quiet henq hpc trivial
  have hmem : n ∈ l.spare := List.mem_of_head? hn
  have hne : n ≠ s.tailBlock := hs.ne_tailBlock_of_spare hmem
  have hitems : l.items n = [] := hs.items_eq_nil hmem hearly
  have hhold := hs.holds n (Stored.mem_of_spare hmem)
  rw [Holding, hitems, hflight] at hhold
  have hsize : 1 < (s.block n).size :=
    Nat.lt_of_lt_of_le hs.two_le (hs.least_le n (hs.made n (Stored.mem_of_spare hmem)))
  have hstep : s.produce maxBlockSize malloc c =
      (s.constructAt n (s.block n).tail c.element).enqueueAt c
        (.filled n ((s.block n).succ (s.block n).tail)) := by
    rw [produce, hpc]
  let s' := s.constructAt n (s.block n).tail c.element
  have hblock : s'.block s.tailBlock = s.block s.tailBlock := update_of_ne hne.symm ..
  have hself : s'.block n =
      { s.block n with data := update (s.block n).data (s.block n).tail (some c.element) } :=
    update_self ..
  rw [hstep]
  refine ⟨⟨l, ?_, ⟨?_, ?_⟩, hs.producerMoves_self hstep rfl rfl⟩, ?_, fun _ => .inl⟩
  · exact hs.constructed (Stored.mem_of_spare hmem) hflight (by rw [hitems]; exact hsize)
      (fun _ => rfl) (fun d => (hearly d).symm) hunlinked.symm
  · have holder := h.older
    rw [hflight] at holder
    change (s'.block s.tailBlock).FrontOlder _ (if n = s.tailBlock then [c.element] else [])
    rw [hblock, if_neg hne]
    exact holder
  · intro d hd
    obtain rfl := Option.some.inj hd
    refine ⟨hheld, hn, ?_, ?_, ?_⟩
    · intro hne
      change _ = (s'.block s.tailBlock).size
      rw [hblock]
      exact hfull hne
    · change (s'.block n).localFront = (s'.block n).front
      rw [hself]
      exact hlocal
    · change (s.block n).succ _ = ((s'.block n).tail + 1) % (s'.block n).size
      rw [hself, hs.succ_eq (Stored.mem_of_spare hmem)]
      rfl
  · change (s.sound && decide ((s.block n).data (s.block n).tail).isNone) = _
    rw [hhold.data_tail]
    exact Bool.and_true _

theorem Producing.filled (h : s.Producing l) (hs : Stored size least s l)
    (henq : s.enqueuing = some c) {t' : ℕ} (hpc : c.pc = .filled n t') :
    Produced size least s (s.produce maxBlockSize malloc c) l := by
  obtain ⟨hheld, hat⟩ := h.call c henq
  rw [ProducerAt, hpc] at hat
  obtain ⟨hn, hfull, hlocal, ht'⟩ := hat
  have hmem : n ∈ l.spare := List.mem_of_head? hn
  have hne : n ≠ s.tailBlock := hs.ne_tailBlock_of_spare hmem
  have hflight : s.flight s.tailBlock = [] := by
    rw [flight_of_some henq, EnqueueCall.flight, hpc]
    exact if_neg hne
  have hstep : s.produce maxBlockSize malloc c =
      (s.modify n ({ · with tail := t' })).enqueueAt c (.advance n) := by
    rw [produce, hpc]
  let s' := s.modify n ({ · with tail := t' })
  have hblock : s'.block s.tailBlock = s.block s.tailBlock := modify_block_of_ne s hne.symm _
  have hself : s'.block n = { s.block n with tail := t' } := modify_block_self ..
  rw [hstep]
  refine ⟨⟨_, hs.stocked henq hmem hpc ht', ⟨?_, ?_⟩, ?_⟩, rfl, fun _ => .inl⟩
  · have holder := h.older
    rw [hflight] at holder
    change (s'.block s.tailBlock).FrontOlder ((l.put n [c.element]).items s.tailBlock) []
    rwa [hblock, l.put_of_ne hne.symm]
  · intro d hd
    obtain rfl := Option.some.inj hd
    refine ⟨hheld, hn, ?_, ?_⟩
    · intro htail
      change ((l.put n [c.element]).items s.tailBlock).length + 1 = (s'.block s.tailBlock).size
      rw [hblock, l.put_of_ne hne.symm]
      exact hfull htail
    · change (s'.block n).localFront = (s'.block n).front
      rw [hself]
      exact hlocal
  · have hput : ∀ d ∈ l.live, (l.put n [c.element]).items d = l.items d := by
      rintro d hd
      refine l.put_of_ne ?_ _
      rintro rfl
      exact hs.not_live_of_spare hmem hd
    refine hs.producerMoves hstep (List.prefix_refl _) (.inl rfl) (List.prefix_refl _)
      (fun d hd => ?_) fun d hd _ => hput d hd
    exact (hput d hd).symm ▸ List.prefix_refl _

/-! ## A new block -/

theorem newBlockSize_spec {maxBlockSize largest : ℕ} (hmax : maxBlockSize ≤ 2 ^ 63)
    (hle : least ≤ largest) (hpow : PowerOfTwo largest) :
    least ≤ newBlockSize maxBlockSize largest ∧
      PowerOfTwo (newBlockSize maxBlockSize largest) := by
  obtain ⟨k, hk, rfl⟩ := hpow
  unfold newBlockSize
  split
  · exact ⟨hle, k, hk, rfl⟩
  · rename_i hlt
    have hk : k < 63 := (Nat.pow_lt_pow_iff_right (by decide)).1 (by omega : 2 ^ k < 2 ^ 63)
    exact ⟨by omega, k + 1, hk, rfl⟩

theorem Producing.make (h : s.Producing l) (hmax : maxBlockSize ≤ 2 ^ 63)
    (hs : Stored size least s l) (henq : s.enqueuing = some c) (hpc : c.pc = .make b) :
    Produced size least s (s.produce maxBlockSize malloc c) l := by
  obtain ⟨hheld, hat⟩ := h.call c henq
  rw [ProducerAt, hpc] at hat
  obtain ⟨rfl, -, hfull⟩ := hat
  obtain ⟨hflight, hearly, hunlinked⟩ := nothing_of_quiet henq hpc trivial
  cases malloc with
  | false =>
    have hstep : s.produce maxBlockSize false c = s.enqueueFalse := by
      rw [produce, hpc]
      exact if_neg Bool.false_ne_true
    rw [hstep]
    exact hs.producedStill hstep ⟨fun _ => .refl _, rfl, rfl, rfl, rfl, fun _ => rfl,
      fun d => (hflight d).symm, fun d => (hearly d).symm, rfl, rfl, hunlinked.symm⟩ h.older
      (fun d hd => by cases hd) rfl fun _ => .inl
  | true =>
    obtain ⟨hleast, hpow⟩ := newBlockSize_spec hmax hs.largest_le hs.largest_two_pow
    let block : Block α :=
      { (makeBlock (newBlockSize maxBlockSize s.largestBlockSize) : Block α) with
        data := update (fun _ => none) 0 (some c.element)
        tail := 1
        localTail := 1
        next := (s.block s.tailBlock).next }
    have hsize : block.size = newBlockSize maxBlockSize s.largestBlockSize := by
      have := hs.two_le
      change newBlockSize maxBlockSize s.largestBlockSize - 1 + 1 = _
      omega
    let s' : ReaderWriterQueue α :=
      { s with
        block := update s.block s.made block
        made := s.made + 1
        largestBlockSize := block.size }
    have hstep : s.produce maxBlockSize true c = s'.enqueueAt c (.link s.tailBlock s.made) := by
      rw [produce, hpc]
      change ReaderWriterQueue.enqueueAt
        { s with
          block := update s.block s.made block
          made := s.made + 1
          largestBlockSize := newBlockSize maxBlockSize s.largestBlockSize } _ _ = _
      rw [← hsize]
    have htail : s'.block s.tailBlock = s.block s.tailBlock :=
      update_of_ne (Nat.ne_of_lt (hs.made _ (Stored.mem_of_live hs.tailBlock_mem))) ..
    have hself : s'.block s.made = block := update_self ..
    rw [hstep]
    refine ⟨⟨l, hs.blockMade henq hpc (hsize ▸ hleast) (hsize ▸ hpow), ⟨?_, ?_⟩,
      hs.producerMoves_self hstep rfl rfl⟩, rfl, fun _ => .inl⟩
    · have holder := h.older
      rw [hflight] at holder
      change (s'.block s.tailBlock).FrontOlder _ []
      rwa [htail]
    · intro d hd
      obtain rfl := Option.some.inj hd
      refine ⟨hheld, rfl, ?_, ?_, ?_, Nat.lt_succ_self _, ?_, ?_⟩
      · intro hne
        change _ = (s'.block s.tailBlock).size
        rw [htail]
        exact hfull hne
      · change (s'.block s.made).localFront = (s'.block s.made).front
        rw [hself]
        rfl
      · intro hmem
        exact Nat.lt_irrefl _ (hs.made _ hmem)
      · change (s'.block s.made).next = (s'.block s.tailBlock).next
        rw [hself, htail]
      · change Holds (s'.block s.made).size (s'.block s.made).front (s'.block s.made).tail
          (s'.block s.made).data false [c.element] []
        rw [hself]
        have := hs.two_le
        exact holds_singleton (by omega) c.element

theorem Producing.link (h : s.Producing l) (hs : Stored size least s l)
    (henq : s.enqueuing = some c) (hpc : c.pc = .link b n) :
    Produced size least s (s.produce maxBlockSize malloc c) l := by
  obtain ⟨hheld, hat⟩ := h.call c henq
  rw [ProducerAt, hpc] at hat
  obtain ⟨rfl, hfull, hlocal, hn, hmade, hnext, hhold⟩ := hat
  have hflight : s.flight s.tailBlock = [] := by
    rw [flight_of_some henq, EnqueueCall.flight, hpc]
  have hne : n ≠ s.tailBlock := by
    rintro rfl
    exact hn (Stored.mem_of_live hs.tailBlock_mem)
  have hlive : ∀ d ∈ l.live, d ≠ n := by
    rintro d hd rfl
    exact hn (Stored.mem_of_live hd)
  have hstep : s.produce maxBlockSize malloc c =
      (s.modify s.tailBlock ({ · with next := n })).enqueueAt c (.advance n) := by
    rw [produce, hpc]
  let s' := s.modify s.tailBlock ({ · with next := n })
  have hself : s'.block s.tailBlock = { s.block s.tailBlock with next := n } := modify_block_self ..
  have hblock : s'.block n = s.block n := modify_block_of_ne s hne _
  rw [hstep]
  refine ⟨⟨_, hs.linked henq hpc hn hmade hnext hhold, ⟨?_, ?_⟩, ?_⟩, rfl, fun _ => .inl⟩
  · have holder := h.older
    rw [hflight] at holder
    change (s'.block s.tailBlock).FrontOlder ((l.put n [c.element]).items s.tailBlock) []
    rw [hself, l.put_of_ne hne.symm]
    exact holder
  · intro d hd
    obtain rfl := Option.some.inj hd
    refine ⟨hheld, rfl, ?_, ?_⟩
    · intro htail
      change ((l.put n [c.element]).items s.tailBlock).length + 1 = (s'.block s.tailBlock).size
      rw [hself, l.put_of_ne hne.symm]
      exact hfull htail
    · change (s'.block n).localFront = (s'.block n).front
      rw [hblock]
      exact hlocal
  · refine hs.producerMoves hstep (List.prefix_refl _) (.inl rfl) (List.prefix_refl _)
      (fun d hd => ?_) fun d hd _ => l.put_of_ne (hlive d hd) _
    exact (l.put_of_ne (hlive d hd) _).symm ▸ List.prefix_refl _

theorem Producing.advance (h : s.Producing l) (hs : Stored size least s l)
    (henq : s.enqueuing = some c) (hpc : c.pc = .advance n) :
    Produced size least s (s.produce maxBlockSize malloc c) l := by
  obtain ⟨hheld, hat⟩ := h.call c henq
  rw [ProducerAt, hpc] at hat
  obtain ⟨hn, hfull, hlocal⟩ := hat
  obtain ⟨spare, hspare⟩ := List.head?_eq_some_iff.1 hn
  have hmem : n ∈ l.spare := List.mem_of_head? hn
  have hflight : s.flight n = [] := by
    rw [flight_of_some henq, EnqueueCall.flight, hpc]
  have hhold := hs.holds n (Stored.mem_of_spare hmem)
  rw [Holding, hflight] at hhold
  have hstep : s.produce maxBlockSize malloc c = { s with tailBlock := n }.enqueueTrue c := by
    rw [produce, hpc]
  rw [hstep]
  refine ⟨⟨_, hs.advanced henq hpc hspare hfull, ⟨?_, fun d hd => by cases hd⟩, ?_⟩, rfl,
    fun _ => .inl⟩
  · exact .of_eq hhold hlocal
  · exact hs.producerMoves hstep (List.prefix_append _ _) (.inr (hs.not_live_of_spare hmem))
      (List.prefix_append _ _) (fun _ _ => List.prefix_refl _) fun _ _ _ => rfl

/-- What a step of the producer comes to. -/
theorem Producing.step (h : s.Producing l) (malloc : Bool) (hmax : maxBlockSize ≤ 2 ^ 63)
    (hs : Stored size least s l) (henq : s.enqueuing = some c) :
    Produced size least s (s.produce maxBlockSize malloc c) l := by
  cases hpc : c.pc with
  | full b t t' => exact h.full hs henq hpc
  | room b t t' => exact h.room hs henq hpc
  | built b t' => exact h.built hs henq hpc
  | behind b => exact h.behind hs henq hpc
  | ahead n => exact h.ahead hs henq hpc
  | clear n t => exact h.clear hs henq hpc
  | filled n t' => exact h.filled hs henq hpc
  | make b => exact h.make hmax hs henq hpc
  | link b n => exact h.link hs henq hpc
  | advance n => exact h.advance hs henq hpc

end ReaderWriterQueue

end Yasio
