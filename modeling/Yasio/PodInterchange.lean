import Yasio.PodCapacity
import Yasio.PodTwins

/-!
# The allocators exchanged

As long as no block is grown of which `memcpy` misses bytes that somebody has written, each call
does the same over both allocators.
-/

namespace Yasio

open Throwing (exec exec_bind_ok wp₂ wp₂_get wp₂_pure wp₂_throw wp₂_modify)

/-! ## The calls -/

/-- The call with both memories. -/
def OverBoth {α β : Type} {sizeof : ℕ} (rest rest' : Heap (Element sizeof)) (kept : Option Anchor)
    (mem mem' : PodMemory α (Element sizeof))
    (f : PodMemory α (Element sizeof) → Podding (Element sizeof) β)
    (s t : PodState (Element sizeof)) : Prop :=
  Twins sizeof rest rest' kept (f mem) (f mem') s t

/-- The arguments of `append` that are read once it may have reallocated: a single one is copied
first. -/
def PodVector.appendLate {α : Type} : List α → List α
  | [_] => []
  | d => d

/-- The arguments of a call. -/
def PodOp.arguments {α : Type} : PodOp α → List α
  | emplaceBack val | emplace _ val | insertFill _ _ val | appendFill _ val | expandFill _ val
  | resizeFill _ val => [val]
  | insertRange _ range => range.getD []
  | append d | assign d | resizeAndOverwrite _ d => d
  | _ => []

/-- Those that are read once it may have reallocated. -/
def PodOp.late {α : Type} (v : PodVector) : PodOp α → List α
  | insertRange pos range =>
    if pos = v.size then PodVector.appendLate (range.getD []) else range.getD []
  | append d => PodVector.appendLate d
  | op => op.arguments

theorem PodOp.mem_of_mem_late {α : Type} {v : PodVector} {val : α} (op : PodOp α)
    (h : val ∈ op.late v) : val ∈ op.arguments := by
  have happend : ∀ d : List α, val ∈ PodVector.appendLate d → val ∈ d := by
    intro d hval
    match d with
    | [] | _ :: _ :: _ => exact hval
    | [_] => cases hval
  cases op with
  | insertRange pos range =>
    change val ∈ if pos = v.size then _ else range.getD [] at h
    split at h
    · exact happend _ h
    · exact h
  | append d => exact happend d h
  | _ => exact h

/-- What is read of the arguments is the same, however late. -/
def ReadsLate {α : Type} {sizeof : ℕ} (rest rest' : Heap (Element sizeof)) (kept : Option Anchor)
    (mem mem' : PodMemory α (Element sizeof)) (d : List α) : Prop :=
  ∀ val ∈ d, ∀ s t, Twin sizeof rest rest' kept (s.withSize 0) (t.withSize 0) →
    ReadsAlike mem mem' val s t

section

open PodVector

variable {α : Type} {sizeof : ℕ} {rest rest' : Heap (Element sizeof)} {kept : Option Anchor}
  {mem mem' : PodMemory α (Element sizeof)} {s t : PodState (Element sizeof)} {n offset : ℕ}
  {val : α} {d : List α}

theorem ReadsLate.alike (hread : ReadsLate rest rest' kept mem mem' d)
    (h : Twin sizeof rest rest' kept s t) : ∀ val ∈ d, ReadsAlike mem mem' val s t :=
  fun val hval => hread val hval s t (h.withSize (Nat.zero_le _))

theorem wp₂_read {β : Type} {f f' : Element sizeof → Podding (Element sizeof) β}
    {S : β → PodState (Element sizeof) → PodState (Element sizeof) → Prop}
    {E : PodError → PodState (Element sizeof) → PodState (Element sizeof) → Prop}
    (hread : ReadsAlike mem mem' val s t) (h : ∀ v, wp₂ (f v) (f' v) S E s t) :
    wp₂ (mem.read val >>= f) (mem'.read val >>= f') S E s t := by
  obtain ⟨v, hleft, hright⟩ := hread
  have hv := h v
  unfold wp₂ at hv ⊢
  rwa [exec_bind_ok hleft, exec_bind_ok hright]

theorem readsAll (hread : ∀ val ∈ d, ReadsAlike mem mem' val s t) :
    ∃ l, exec (d.mapM mem.read) s = (.ok l, s) ∧ exec (d.mapM mem'.read) t = (.ok l, t) := by
  induction d with
  | nil => exact ⟨[], rfl, rfl⟩
  | cons val d ih =>
    obtain ⟨v, hleft, hright⟩ := hread val List.mem_cons_self
    obtain ⟨l, hl, hl'⟩ := ih fun val' hval' => hread val' (List.mem_cons_of_mem val hval')
    refine ⟨v :: l, ?_, ?_⟩
    · rw [List.mapM_cons, exec_bind_ok hleft, exec_bind_ok hl]
      rfl
    · rw [List.mapM_cons, exec_bind_ok hright, exec_bind_ok hl']
      rfl

theorem wp₂_readAll {β : Type} {f f' : List (Element sizeof) → Podding (Element sizeof) β}
    {S : β → PodState (Element sizeof) → PodState (Element sizeof) → Prop}
    {E : PodError → PodState (Element sizeof) → PodState (Element sizeof) → Prop}
    (hread : ∀ val ∈ d, ReadsAlike mem mem' val s t) (h : ∀ l, wp₂ (f l) (f' l) S E s t) :
    wp₂ (d.mapM mem.read >>= f) (d.mapM mem'.read >>= f') S E s t := by
  obtain ⟨l, hleft, hright⟩ := readsAll hread
  have hl := h l
  unfold wp₂ at hl ⊢
  rwa [exec_bind_ok hleft, exec_bind_ok hright]

/-- A reallocation to a capacity for all elements. -/
theorem overBoth_reallocate (h : Twin sizeof rest rest' kept s t) (hmem : Supplied mem mem' s t)
    {policy : ReallocationPolicy} (hn : s.vec.size ≤ n) (hpos : 0 < n)
    (hmax : n ≤ maxSize sizeof)
    (hsmooth : Smooth kept s (some (newCapacity sizeof s.vec n policy))) :
    wp₂ (reallocate sizeof mem policy n) (reallocate sizeof mem' policy n)
      (fun _ s' t' => Twin sizeof rest rest' kept s' t' ∧ n ≤ s'.vec.res)
      (fun _ => Twin sizeof rest rest' kept) s t := by
  have hcap : n ≤ newCapacity sizeof s.vec n policy ∧
      newCapacity sizeof s.vec n policy ≤ maxSize sizeof := by
    cases policy with
    | exactly => exact ⟨Nat.le_refl n, hmax⟩
    | atLeast =>
      exact ⟨le_calculateGrowth hmax, calculateGrowth_le h.has.wellFormed.res_le_max hmax⟩
  obtain ⟨s', t', hexec, hexec', hsize, hsize', hres, htwin⟩ :=
    h.reallocate hmem rfl (by omega) hcap.2 hsmooth
  have hsame := htwin s.vec.size (by omega)
  have hs : s'.withSize s.vec.size = s' := by
    rw [← hsize]
    rfl
  have ht : t'.withSize s.vec.size = t' := by
    rw [← h.size_eq, ← hsize']
    rfl
  rw [hs, ht] at hsame
  unfold wp₂
  rw [hexec, hexec']
  exact ⟨rfl, hsame, by omega⟩

theorem overBoth_resizeReallocate (h : Twin sizeof rest rest' kept s t)
    (hmem : Supplied mem mem' s t) {policy : ReallocationPolicy} (hn : s.vec.size ≤ n)
    (hpos : 0 < n) (hmax : n ≤ maxSize sizeof)
    (hsmooth : Smooth kept s (some (newCapacity sizeof s.vec n policy))) :
    OverBoth rest rest' kept mem mem' (fun mem => resizeReallocate sizeof mem policy n)
      s t :=
  (overBoth_reallocate h hmem hn hpos hmax hsmooth).bind fun _ _ _ ⟨h', hn'⟩ => h'.eos hn'

theorem overBoth_grow (h : Twin sizeof rest rest' kept s t) (hmem : Supplied mem mem' s t)
    {policy : ReallocationPolicy} (hmax : n ≤ maxSize sizeof)
    (hsmooth : Smooth kept s
      (if s.vec.res < n then some (newCapacity sizeof s.vec n policy) else none)) :
    OverBoth rest rest' kept mem mem' (fun mem =>
      if s.vec.res < n then resizeReallocate sizeof mem policy n else eos n) s t := by
  have hsize := h.has.wellFormed.size_le
  unfold OverBoth
  split
  · next hlt =>
    rw [if_pos hlt] at hsmooth
    exact overBoth_resizeReallocate h hmem (by omega) (by omega) hmax hsmooth
  · next hroom => exact h.eos (Nat.not_lt.1 hroom)

theorem overBoth_resize (h : Twin sizeof rest rest' kept s t) (hmem : Supplied mem mem' s t)
    (hmax : n ≤ maxSize sizeof) (hsmooth : Smooth kept s (s.vec.resizeRequest n)) :
    OverBoth rest rest' kept mem mem' (fun mem => resize sizeof mem n) s t := by
  refine wp₂_get ?_
  rw [h.res_eq]
  exact overBoth_grow h hmem hmax hsmooth

theorem overBoth_expand (h : Twin sizeof rest rest' kept s t) (hmem : Supplied mem mem' s t)
    {count : ℕ} (hmax : s.vec.size + count ≤ maxSize sizeof)
    (hsmooth : Smooth kept s (s.vec.expandRequest sizeof count)) :
    OverBoth rest rest' kept mem mem' (fun mem => expand sizeof mem count) s t := by
  refine wp₂_get ?_
  rw [h.res_eq, h.size_eq]
  exact overBoth_grow h hmem (by rwa [sizeT_of_le hmax]) hsmooth

/-- Twins with an element. -/
def TwinsFull {β : Type} {sizeof : ℕ} (rest rest' : Heap (Element sizeof)) (kept : Option Anchor)
    (m m' : Podding (Element sizeof) β) (s t : PodState (Element sizeof)) : Prop :=
  wp₂ m m' (fun _ s' t' => Twin sizeof rest rest' kept s' t' ∧ 0 < s'.vec.size)
    (fun _ => Twin sizeof rest rest' kept) s t

/-- The last step of `emplace_back`. -/
theorem twinsFull_store (h : Twin sizeof rest rest' kept s t) (hn : n + 1 ≤ s.vec.res)
    (offset : ℕ) (hread : ReadsLate rest rest' kept mem mem' [val]) :
    TwinsFull rest rest' kept
      (eos (n + 1) >>= fun _ => mem.read val >>= fun v => store offset [v])
      (eos (n + 1) >>= fun _ => mem'.read val >>= fun v => store offset [v]) s t := by
  have heos : TwinsFull rest rest' kept (eos (n + 1)) (eos (n + 1)) s t :=
    wp₂_modify ⟨h.withSize hn, Nat.succ_pos n⟩
  refine heos.bind fun _ s' t' ⟨h', hpos⟩ => ?_
  refine wp₂_read (hread.alike h' val List.mem_cons_self) fun v => ?_
  refine (h'.store_keeps offset [v]).mono ?_
  rintro _ s'' t'' ⟨h'', hvec⟩
  rw [← hvec] at hpos
  exact ⟨h'', hpos⟩

/-- `emplace_back` leaves an element. -/
theorem overBoth_emplaceBack (h : Twin sizeof rest rest' kept s t) (hmem : Supplied mem mem' s t)
    (hread : ReadsLate rest rest' kept mem mem' [val])
    (hsmooth : Smooth kept s (s.vec.emplaceBackRequest sizeof)) :
    TwinsFull rest rest' kept (emplaceBack sizeof mem val) (emplaceBack sizeof mem' val) s t := by
  have hsize := h.has.wellFormed.size_le
  have hres := h.has.wellFormed.res_le_max
  refine wp₂_get ?_
  rw [h.size_eq, h.res_eq]
  by_cases hroom : s.vec.size < s.vec.res
  · rw [if_pos hroom, if_pos hroom]
    exact twinsFull_store h hroom _ hread
  · rw [if_neg hroom, if_neg hroom]
    refine wp₂_get ?_
    rw [h.size_eq]
    by_cases hfull : s.vec.size = maxSize sizeof
    · rw [if_pos hfull, if_pos hfull]
      exact wp₂_throw h
    · rw [if_neg hfull, if_neg hfull]
      have hrequest : s.vec.emplaceBackRequest sizeof =
          some (newCapacity sizeof s.vec (s.vec.size + 1) .atLeast) :=
        if_neg (not_or.2 ⟨hroom, hfull⟩)
      rw [hrequest] at hsmooth
      have hreallocate := overBoth_reallocate h hmem (Nat.le_succ _) (Nat.succ_pos _)
        (by omega) hsmooth
      unfold resizeReallocate
      dsimp only
      rw [bind_assoc, bind_assoc]
      exact hreallocate.bind fun _ _ _ ⟨h', hn'⟩ => twinsFull_store h' hn' _ hread

theorem overBoth_append (h : Twin sizeof rest rest' kept s t) (hmem : Supplied mem mem' s t)
    (hat : ∀ val ∈ d, ReadsAlike mem mem' val s t)
    (hread : ReadsLate rest rest' kept mem mem' (appendLate d))
    (hfits : ∀ n ∈ s.vec.appendSize sizeof d, n ≤ maxSize sizeof)
    (hsmooth : Smooth kept s (s.vec.appendRequest sizeof d)) :
    OverBoth rest rest' kept mem mem' (fun mem => append sizeof mem d) s t := by
  match d with
  | [] => exact h.pure ()
  | [val] =>
    -- The call goes on with a copy.
    have hcopied : Supplied mem.copied mem'.copied s t := hmem
    refine wp₂_read (hat val List.mem_cons_self) fun v => ?_
    have hlate : ReadsLate rest rest' kept mem.copied mem'.copied [v] :=
      fun v' _ _ _ _ => ⟨v', rfl, rfl⟩
    exact (overBoth_emplaceBack h hcopied hlate hsmooth).mono fun _ _ _ h' => h'.1
  | a :: b :: d =>
    refine wp₂_get ?_
    rw [h.size_eq]
    refine (overBoth_expand h hmem (hfits _ rfl) hsmooth).bind fun _ _ _ h' => ?_
    exact wp₂_readAll (hread.alike h') fun l => h'.store _ l

theorem overBoth_expandFill (h : Twin sizeof rest rest' kept s t) (hmem : Supplied mem mem' s t)
    {count : ℕ} (hread : ReadsLate rest rest' kept mem mem' [val])
    (hfits : ∀ n ∈ s.vec.appendFillSize count, n ≤ maxSize sizeof)
    (hsmooth : Smooth kept s (s.vec.appendFillRequest sizeof count)) :
    OverBoth rest rest' kept mem mem' (fun mem => expandFill sizeof mem count val) s t := by
  refine Twins.ite (fun hcount => ?_) fun _ => h.pure ()
  have hsize : s.vec.appendFillSize count = some (s.vec.size + count) := if_neg hcount
  have hrequest : s.vec.appendFillRequest sizeof count = s.vec.expandRequest sizeof count :=
    if_neg hcount
  rw [hrequest] at hsmooth
  refine wp₂_get ?_
  rw [h.size_eq]
  refine (overBoth_expand h hmem (hfits _ hsize) hsmooth).bind fun _ _ _ h' => ?_
  exact wp₂_read (hread.alike h' val List.mem_cons_self) fun v => h'.store _ _

theorem overBoth_openGap (h : Twin sizeof rest rest' kept s t) (hmem : Supplied mem mem' s t)
    {count : ℕ} (hmax : s.vec.size + count ≤ maxSize sizeof)
    (hsmooth : Smooth kept s (s.vec.expandRequest sizeof count)) :
    OverBoth rest rest' kept mem mem' (fun mem => openGap sizeof mem offset count) s t := by
  refine Twins.bind (overBoth_expand h hmem hmax hsmooth) fun _ s' t' h' => wp₂_get ?_
  have hsize := h'.has.wellFormed.size_le
  rw [h'.size_eq]
  exact (h'.copyWithin_keeps (by omega) _).mono fun _ _ _ h'' => h''.1

theorem overBoth_insertRange (h : Twin sizeof rest rest' kept s t) (hmem : Supplied mem mem' s t)
    {pos : Iterator} {range : Option (List α)} {cxx20 : Bool}
    (hat : ∀ val ∈ range.getD [], ReadsAlike mem mem' val s t)
    (hread : ReadsLate rest rest' kept mem mem' ((PodOp.insertRange pos range).late s.vec))
    (hfits : (PodOp.insertRange pos range).Fits cxx20 sizeof s.vec)
    (hsmooth : Smooth kept s ((PodOp.insertRange pos range).request cxx20 sizeof s.vec)) :
    OverBoth rest rest' kept mem mem' (fun mem => insertRange sizeof mem pos range)
      s t := by
  refine wp₂_get ?_
  rw [h.size_eq]
  refine h.checked fun hpos => ?_
  refine Twins.ite (fun hne => Twins.ite (fun hend => ?_) fun hend => ?_) fun _ => h.pure _
  · have hsize : (PodOp.insertRange pos range).newSize cxx20 sizeof s.vec =
        s.vec.appendSize sizeof (range.getD []) := (if_pos hpos).trans (if_pos (Or.inl hend))
    have hrequest : (PodOp.insertRange pos range).request cxx20 sizeof s.vec =
        s.vec.appendRequest sizeof (range.getD []) := (if_pos hpos).trans (if_pos (Or.inl hend))
    unfold PodOp.Fits at hfits
    rw [hsize] at hfits
    rw [hrequest] at hsmooth
    have hlate : (PodOp.insertRange pos range).late s.vec = appendLate (range.getD []) :=
      if_pos hend
    rw [hlate] at hread
    exact (overBoth_append h hmem hat hread hfits hsmooth).bind fun _ _ _ h' => h'.pure _
  · have hsize : (PodOp.insertRange pos range).newSize cxx20 sizeof s.vec =
        some (s.vec.size + (range.getD []).length) :=
      (if_pos hpos).trans (if_neg (not_or.2 ⟨hend, hne⟩))
    have hrequest : (PodOp.insertRange pos range).request cxx20 sizeof s.vec =
        s.vec.expandRequest sizeof (range.getD []).length :=
      (if_pos hpos).trans (if_neg (not_or.2 ⟨hend, hne⟩))
    have hlate : (PodOp.insertRange pos range).late s.vec = range.getD [] := if_neg hend
    rw [hrequest] at hsmooth
    rw [hlate] at hread
    refine Twins.bind (overBoth_openGap h hmem (hfits _ hsize) hsmooth) fun _ _ _ h' => ?_
    refine wp₂_readAll (hread.alike h') fun l => ?_
    exact (h'.store _ l).bind fun _ _ _ h'' => h''.pure _

theorem overBoth_insertFill (h : Twin sizeof rest rest' kept s t) (hmem : Supplied mem mem' s t)
    {pos : Iterator} {count : ℕ} {cxx20 : Bool} (hread : ReadsLate rest rest' kept mem mem' [val])
    (hfits : (PodOp.insertFill pos count val).Fits cxx20 sizeof s.vec)
    (hsmooth : Smooth kept s ((PodOp.insertFill pos count val).request cxx20 sizeof s.vec)) :
    OverBoth rest rest' kept mem mem' (fun mem => insertFill sizeof mem pos count val)
      s t := by
  refine wp₂_get ?_
  rw [h.size_eq]
  refine h.checked fun hpos => ?_
  have hsize : (PodOp.insertFill pos count val).newSize cxx20 sizeof s.vec =
      s.vec.appendFillSize count := if_pos hpos
  have hrequest : (PodOp.insertFill pos count val).request cxx20 sizeof s.vec =
      s.vec.appendFillRequest sizeof count := if_pos hpos
  unfold PodOp.Fits at hfits
  rw [hsize] at hfits
  rw [hrequest] at hsmooth
  refine Twins.ite (fun hne => Twins.ite (fun _ => ?_) fun _ => ?_) fun _ => h.pure _
  · exact (overBoth_expandFill h hmem hread hfits hsmooth).bind fun _ _ _ h' => h'.pure _
  · have hsum : s.vec.appendFillSize count = some (s.vec.size + count) := if_neg hne
    have hexpand : s.vec.appendFillRequest sizeof count = s.vec.expandRequest sizeof count :=
      if_neg hne
    rw [hexpand] at hsmooth
    refine Twins.bind (overBoth_openGap h hmem (hfits _ hsum) hsmooth) fun _ _ _ h' => ?_
    refine wp₂_read (hread.alike h' val List.mem_cons_self) fun v => ?_
    exact (h'.store _ _).bind fun _ _ _ h'' => h''.pure _

theorem Twin.rotateLast (h : Twin sizeof rest rest' kept s t) (hpos : 0 < s.vec.size) (offset : ℕ) :
    Twins sizeof rest rest' kept (PodVector.rotateLast offset) (PodVector.rotateLast offset)
      s t := by
  have hsize := h.has.wellFormed.size_le
  have hsecond : PodVector.load t offset (s.vec.size - 1 - offset) =
      PodVector.load s offset (s.vec.size - 1 - offset) := h.load_eq (by omega)
  refine wp₂_get ?_
  rw [h.size_eq, h.load_eq (n := 1) (by omega), hsecond]
  exact h.store _ _

theorem overBoth_emplace (h : Twin sizeof rest rest' kept s t) (hmem : Supplied mem mem' s t)
    {pos : Iterator} {cxx20 : Bool} (hread : ReadsLate rest rest' kept mem mem' [val])
    (hfits : (PodOp.emplace pos val).Fits cxx20 sizeof s.vec)
    (hsmooth : Smooth kept s ((PodOp.emplace pos val).request cxx20 sizeof s.vec)) :
    OverBoth rest rest' kept mem mem' (fun mem => emplace sizeof mem cxx20 pos val)
      s t := by
  refine wp₂_get ?_
  rw [h.size_eq]
  refine h.checked fun hpos => ?_
  have hback : cxx20 = true ∨ pos = s.vec.size → (PodOp.emplace pos val).request cxx20 sizeof
      s.vec = s.vec.emplaceBackRequest sizeof := fun hend => (if_pos hpos).trans (if_pos hend)
  refine Twins.ite (fun hcxx20 => ?_) fun hcxx20 => Twins.ite (fun hend => ?_) fun hend => ?_
  · rw [hback (.inl hcxx20)] at hsmooth
    refine (overBoth_emplaceBack h hmem hread hsmooth).bind fun _ _ _ ⟨h', hfull⟩ => ?_
    exact (h'.rotateLast hfull _).bind fun _ _ _ h'' => h''.pure _
  · rw [hback (.inr hend)] at hsmooth
    exact (overBoth_emplaceBack h hmem hread hsmooth).bind fun _ _ _ h' => h'.1.pure _
  · have hsize : (PodOp.emplace pos val).newSize cxx20 sizeof s.vec = some (s.vec.size + 1) :=
      (if_pos hpos).trans (if_neg (not_or.2 ⟨hcxx20, hend⟩))
    have hrequest : (PodOp.emplace pos val).request cxx20 sizeof s.vec =
        s.vec.expandRequest sizeof 1 :=
      (if_pos hpos).trans (if_neg (not_or.2 ⟨hcxx20, hend⟩))
    rw [hrequest] at hsmooth
    refine Twins.bind (overBoth_openGap h hmem (hfits _ hsize) hsmooth) fun _ _ _ h' => ?_
    refine wp₂_read (hread.alike h' val List.mem_cons_self) fun v => ?_
    exact (h'.store _ _).bind fun _ _ _ h'' => h''.pure _

/-- The elements from `target` up to `source` go. -/
theorem Twin.close (h : Twin sizeof rest rest' kept s t) {source target : ℕ} (hle : target ≤ source)
    (hsource : source ≤ s.vec.size) :
    Twins sizeof rest rest' kept
      (PodVector.copyWithin source (s.vec.size - source) target >>= fun _ =>
        PodVector.eos (target + (s.vec.size - source)) >>= fun _ => Pure.pure target)
      (PodVector.copyWithin source (s.vec.size - source) target >>= fun _ =>
        PodVector.eos (target + (s.vec.size - source)) >>= fun _ => Pure.pure target) s t := by
  have hsize := h.has.wellFormed.size_le
  refine (h.copyWithin_keeps (by omega) target).bind fun _ s' t' ⟨h', hvec⟩ => ?_
  rw [← hvec] at hsize
  rw [← hvec] at hsource ⊢
  exact (h'.eos (by omega)).bind fun _ _ _ h'' => h''.pure target

theorem Twin.eraseRange (h : Twin sizeof rest rest' kept s t) (first last : Int) :
    Twins sizeof rest rest' kept (PodVector.eraseRange first last) (PodVector.eraseRange first last)
      s t := by
  refine wp₂_get ?_
  rw [h.size_eq]
  refine h.checked fun hrange => ?_
  obtain ⟨hle, hfirst, hlast⟩ : first ≤ last ∧ 0 ≤ first ∧ last ≤ s.vec.size := hrange
  exact h.close (by omega) (by omega)

theorem Twin.erase (h : Twin sizeof rest rest' kept s t) (pos : Int) :
    Twins sizeof rest rest' kept (PodVector.erase pos) (PodVector.erase pos) s t := by
  refine wp₂_get ?_
  rw [h.size_eq]
  refine h.checked fun hrange => ?_
  obtain ⟨hfirst, hlast⟩ : 0 ≤ pos ∧ pos < s.vec.size := hrange
  exact h.close (by omega) (by omega)

theorem overBoth_assign (h : Twin sizeof rest rest' kept s t) (hmem : Supplied mem mem' s t)
    (hfirst : mem'.isFirst = mem.isFirst) (hread : ReadsLate rest rest' kept mem mem' d)
    (hmax : d.length ≤ maxSize sizeof) (hsmooth : Smooth kept s (s.vec.resizeRequest d.length)) :
    OverBoth rest rest' kept mem mem' (fun mem => assign sizeof mem d) s t := by
  have heos : wp₂ (eos 0) (eos 0) (fun _ s' t' => s' = s.withSize 0 ∧ t' = t.withSize 0)
      (fun _ => Twin sizeof rest rest' kept) s t := wp₂_modify ⟨rfl, rfl⟩
  unfold OverBoth assign
  dsimp only
  rw [hfirst]
  refine Twins.ite (fun _ => heos.bind ?_) fun _ => h.pure ()
  rintro _ _ _ ⟨rfl, rfl⟩
  have hcleared := h.withSize (Nat.zero_le _)
  have hmem' : Supplied mem mem' (s.withSize 0) (t.withSize 0) := by
    obtain ⟨block, block', hleft, hright, hgrants⟩ := hmem
    exact ⟨block, block', hleft, hright, hgrants.left, hgrants.right⟩
  refine Twins.ite (fun _ => ?_) fun _ => hcleared.pure ()
  have hresize := overBoth_resize hcleared hmem' hmax ⟨hsmooth.grows, hsmooth.free⟩
  refine Twins.bind hresize fun _ _ _ h' => ?_
  exact wp₂_readAll (hread.alike h') fun l => h'.store 0 l

theorem overBoth_reserve (h : Twin sizeof rest rest' kept s t) (hmem : Supplied mem mem' s t)
    (hmax : n ≤ maxSize sizeof) (hsmooth : Smooth kept s (s.vec.resizeRequest n)) :
    OverBoth rest rest' kept mem mem' (fun mem => reserve sizeof mem n) s t := by
  have hsize := h.has.wellFormed.size_le
  refine wp₂_get ?_
  rw [h.res_eq]
  refine Twins.ite (fun hlt => ?_) fun _ => h.pure ()
  have hrequest : s.vec.resizeRequest n = some (newCapacity sizeof s.vec n .exactly) := if_pos hlt
  rw [hrequest] at hsmooth
  exact (overBoth_reallocate h hmem (by omega) (by omega) hmax hsmooth).mono
    fun _ _ _ h' => h'.1

theorem overBoth_shrinkToFit (h : Twin sizeof rest rest' none s t)
    (hmem : Supplied mem mem' s t) :
    OverBoth rest rest' none mem mem' (fun mem => shrinkToFit sizeof mem) s t := by
  have hsize := h.has.wellFormed.size_le
  have hmax := h.has.wellFormed.res_le_max
  refine wp₂_get ?_
  rw [h.size_eq, h.res_eq]
  refine Twins.ite (fun _ => Twins.ite (fun _ => h.tidy) fun hne => ?_) fun _ => h.pure ()
  refine (overBoth_reallocate h hmem (Nat.le_refl _) (Nat.pos_of_ne_zero hne) (by omega)
    ⟨?_, fun _ => rfl⟩).mono fun _ _ _ h' => h'.1
  -- The capacity does not grow.
  intro cap hcap hlt
  obtain rfl : s.vec.size = cap := Option.some.inj hcap
  omega

theorem overBoth_resizeFill (h : Twin sizeof rest rest' kept s t) (hmem : Supplied mem mem' s t)
    {cxx20 : Bool} (hread : ReadsLate rest rest' kept mem mem' [val])
    (hfits : (PodOp.resizeFill n val).Fits cxx20 sizeof s.vec)
    (hsmooth : Smooth kept s ((PodOp.resizeFill n val).request cxx20 sizeof s.vec)) :
    OverBoth rest rest' kept mem mem' (fun mem => resizeFill sizeof mem n val) s t := by
  refine wp₂_get ?_
  rw [h.size_eq]
  refine Twins.ite (fun hne => ?_) fun _ => h.pure ()
  have hsize : (PodOp.resizeFill n val).newSize cxx20 sizeof s.vec = some n := if_neg hne
  have hrequest : (PodOp.resizeFill n val).request cxx20 sizeof s.vec = s.vec.resizeRequest n :=
    if_neg hne
  rw [hrequest] at hsmooth
  refine Twins.bind (overBoth_resize h hmem (hfits _ hsize) hsmooth) fun _ _ _ h' => ?_
  refine Twins.ite (fun _ => ?_) fun _ => h'.pure ()
  exact wp₂_read (hread.alike h' val List.mem_cons_self) fun v => h'.store _ _

theorem overBoth_resizeAndOverwrite (h : Twin sizeof rest rest' kept s t)
    (hmem : Supplied mem mem' s t) {written : List α}
    (hread : ReadsLate rest rest' kept mem mem' written) (hwritten : written.length ≤ n)
    (hpos : 0 < n) (hmax : n ≤ maxSize sizeof)
    (hsmooth : Smooth kept s (some n)) :
    OverBoth rest rest' kept mem mem'
      (fun mem => resizeAndOverwrite sizeof mem n written) s t := by
  have hcap : newCapacity sizeof s.vec n .exactly = n := rfl
  obtain ⟨s', t', hexec, hexec', -, -, hres, htwin⟩ := h.reallocate hmem hcap hpos hmax hsmooth
  have hcleared := htwin 0 (Nat.zero_le n)
  obtain ⟨l, hl, hl'⟩ := readsAll fun val hval => hread val hval s' t' hcleared
  have hrest : Twins sizeof rest rest' kept (store 0 l >>= fun _ => eos written.length)
      (store 0 l >>= fun _ => eos written.length) (s'.withSize 0) (t'.withSize 0) := by
    refine (hcleared.store_keeps 0 l).bind fun _ s'' t'' ⟨h', hvec⟩ => h'.eos ?_
    rw [hvec]
    exact Nat.le_trans hwritten (Nat.le_of_eq hres.symm)
  unfold Twins wp₂ at hrest
  unfold OverBoth Twins wp₂ resizeAndOverwrite
  -- The size is set last.
  rw [exec_bind_ok hexec, exec_bind_ok hexec', exec_bind_ok hl, exec_bind_ok hl',
    exec_store_eos s' 0, exec_store_eos t' 0]
  exact hrest

/-- Blocks with the same cells. -/
def Attachable (sizeof : ℕ) (s t : PodState (Element sizeof)) (blocks : Option (ℕ × ℕ))
    (len : ℕ) : Prop :=
  match blocks with
  | none => len = 0
  | some (b, b') => len ≤ maxSize sizeof ∧ ∃ c c', s.heap b = some c ∧ t.heap b' = some c' ∧
    len ≤ c.length ∧ len ≤ c'.length ∧ c'.take len = c.take len

theorem Twin.attachAbi (h : Twin sizeof rest rest' none s t) {blocks : Option (ℕ × ℕ)} {len : ℕ}
    (hattach : Attachable sizeof s t blocks len)
    (hapart : ∀ b b', blocks = some (b, b') → (s.vec.first ≠ some b ∧ rest b = none) ∧
      t.vec.first ≠ some b' ∧ rest' b' = none) :
    Twins sizeof rest rest' none (PodVector.attachAbi (blocks.map Prod.fst) len)
      (PodVector.attachAbi (blocks.map Prod.snd) len) s t := by
  have htidy : wp₂ PodVector.tidy PodVector.tidy
      (fun _ s' t' => s' = ⟨{}, s.freed⟩ ∧ t' = ⟨{}, t.freed⟩)
      (fun _ => Twin sizeof rest rest' none) s t := by
    unfold wp₂
    rw [h.has.exec_tidy, h.has'.exec_tidy]
    exact ⟨rfl, rfl, rfl⟩
  refine htidy.bind ?_
  rintro _ _ _ ⟨rfl, rfl⟩
  refine wp₂_modify ?_
  cases blocks with
  | none =>
    obtain rfl : len = 0 := hattach
    exact .empty (fun _ _ hb => h.has.keeps.freed hb) fun _ _ hb => h.has'.keeps.freed hb
  | some pair =>
    obtain ⟨b, b'⟩ := pair
    obtain ⟨hmax, c, c', hc, hc', hlen, hlen', hcells⟩ := hattach
    obtain ⟨⟨hne, hrest⟩, hne', hrest'⟩ := hapart b b' rfl
    -- The block is somewhere else, so `_Tidy` has not freed it.
    have hs : (PodState.mk ⟨some b, len, len⟩ s.freed).Keeps rest c := by
      refine ⟨.inr ⟨b, rfl, (PodState.freed_of_ne hne).trans hc⟩, fun b₀ cells hb₀ => ?_⟩
      refine ⟨h.has.keeps.freed hb₀, ?_⟩
      rintro ⟨⟩
      cases hrest.symm.trans hb₀
    have ht : (PodState.mk ⟨some b', len, len⟩ t.freed).Keeps rest' c' := by
      refine ⟨.inr ⟨b', rfl, (PodState.freed_of_ne hne').trans hc'⟩, fun b₀ cells hb₀ => ?_⟩
      refine ⟨h.has'.keeps.freed hb₀, ?_⟩
      rintro ⟨⟩
      cases hrest'.symm.trans hb₀
    exact of_keeps hs ht rfl rfl rfl (Nat.le_refl len) hmax hlen hlen' hcells nofun

/-- The sizes are at most `max_size()`, and what `resize_and_overwrite` writes has room. -/
def PodOp.Sized {α : Type} (cxx20 : Bool) (sizeof : ℕ) (v : PodVector) : PodOp α → Prop
  | assign d => d.length ≤ maxSize sizeof
  | resizeAndOverwrite newSize written => written.length ≤ newSize ∧ 0 < newSize ∧
    newSize ≤ maxSize sizeof
  | attachAbi _ _ => False
  | op => op.Fits cxx20 sizeof v

/-- A call that grows no block of which `memcpy` misses something does the same over both
allocators. -/
theorem PodOp.overBoth (cxx20 : Bool) (h : Twin sizeof rest rest' kept s t)
    (hmem : Supplied mem mem' s t) (hfirst : mem'.isFirst = mem.isFirst) {op : PodOp α}
    (hat : ∀ val ∈ op.arguments, ReadsAlike mem mem' val s t)
    (hread : ReadsLate rest rest' kept mem mem' (op.late s.vec))
    (hkept : op.arguments = [] → kept = none) (hsized : op.Sized cxx20 sizeof s.vec)
    (hsmooth : Smooth kept s (op.request cxx20 sizeof s.vec)) :
    OverBoth rest rest' kept mem mem' (fun mem => op.runOver cxx20 sizeof mem) s t := by
  cases op with
  | emplaceBack val =>
    exact (overBoth_emplaceBack h hmem hread hsmooth).bind fun _ _ _ h' => h'.1.pure none
  | emplace pos val => exact (overBoth_emplace h hmem hread hsized hsmooth).map some
  | insertRange pos range =>
    exact (overBoth_insertRange h hmem hat hread hsized hsmooth).map some
  | insertFill pos count val => exact (overBoth_insertFill h hmem hread hsized hsmooth).map some
  | append d =>
    exact (overBoth_append h hmem hat hread hsized hsmooth).bind fun _ _ _ h' => h'.pure none
  | appendFill count val =>
    exact (overBoth_expandFill h hmem hread hsized hsmooth).bind fun _ _ _ h' => h'.pure none
  | expandFill count val =>
    exact (overBoth_expandFill h hmem hread hsized hsmooth).bind fun _ _ _ h' => h'.pure none
  | resize newSize =>
    exact (overBoth_resize h hmem (hsized _ rfl) hsmooth).bind fun _ _ _ h' => h'.pure none
  | resizeFill newSize val =>
    exact (overBoth_resizeFill h hmem hread hsized hsmooth).bind fun _ _ _ h' => h'.pure none
  | expand count =>
    exact (overBoth_expand h hmem (hsized _ rfl) hsmooth).bind fun _ _ _ h' => h'.pure none
  | assign d =>
    exact (overBoth_assign h hmem hfirst hread hsized hsmooth).bind fun _ _ _ h' => h'.pure none
  | reserve newCap =>
    exact (overBoth_reserve h hmem (hsized _ rfl) hsmooth).bind fun _ _ _ h' => h'.pure none
  | shrinkToFit =>
    obtain rfl := hkept rfl
    exact (overBoth_shrinkToFit h hmem).bind fun _ _ _ h' => h'.pure none
  | resizeAndOverwrite newSize written =>
    obtain ⟨hwritten, hpos, hmax⟩ := hsized
    exact (overBoth_resizeAndOverwrite h hmem hread hwritten hpos hmax hsmooth).bind
      fun _ _ _ h' => h'.pure none
  | erase pos => exact (h.erase pos).map some
  | eraseRange first last => exact (h.eraseRange first last).map some
  | clear => exact (h.eos (Nat.zero_le _)).bind fun _ _ _ h' => h'.pure none
  | detachAbi =>
    obtain rfl := hkept rfl
    exact h.detachAbi.bind fun _ _ _ h' => h'.pure none
  | attachAbi block len => exact hsized.elim
  | atIndex index =>
    refine Twins.map some (wp₂_get ?_)
    rw [h.size_eq]
    exact h.checked fun _ => h.pure index
  | front =>
    refine Twins.map some (wp₂_get ?_)
    rw [h.size_eq]
    exact h.checked fun _ => h.pure 0
  | back =>
    refine Twins.map some (wp₂_get ?_)
    rw [h.size_eq]
    exact h.checked fun _ => h.pure _

end

/-- No argument that lies in the block is read once the call has reallocated it. -/
def PodOp.Apart (cxx20 : Bool) (sizeof : ℕ) (v : PodVector) (op : PodOp (Argument sizeof)) : Prop :=
  (op.request cxx20 sizeof v).isSome → ∀ val ∈ op.late v, ∀ index, val ≠ .inside index

/-- A call with arguments that lie in the block where it may. -/
theorem PodOp.twins_runOver (cxx20 : Bool) {sizeof : ℕ} {rest rest' : Heap (Element sizeof)}
    {s t : PodState (Element sizeof)} (h : Twin sizeof rest rest' none s t) {block block' : ℕ}
    (hgrants : Grants block block' s t) {op : PodOp (Argument sizeof)}
    (hinside : ∀ index, .inside index ∈ op.arguments → index < s.vec.res)
    (hsized : op.Sized cxx20 sizeof s.vec) (hgrows : s.Grows (op.request cxx20 sizeof s.vec))
    (hapart : op.Apart cxx20 sizeof s.vec) :
    Twins sizeof rest rest' none
      (op.runOver cxx20 sizeof
        (.over (bufferAllocator sizeof (some (freshGrant sizeof block))) s.vec.first))
      (op.runOver cxx20 sizeof
        (.over (stdBufferAllocator sizeof (some block')) t.vec.first)) s t := by
  have hmem : Supplied
      (.over (bufferAllocator sizeof (some (freshGrant sizeof block))) s.vec.first :
        PodMemory (Argument sizeof) (Element sizeof))
      (.over (stdBufferAllocator sizeof (some block')) t.vec.first) s t :=
    ⟨block, block', rfl, rfl, hgrants⟩
  have hheld : Twin sizeof rest rest' (some ⟨s.vec.first, t.vec.first, s.vec.res⟩) s t :=
    ⟨h.toSame, h.has, h.has', by rintro _ ⟨⟩; exact ⟨rfl, rfl, rfl⟩⟩
  have hkept : ∀ val ∈ op.arguments,
      val.Kept (some ⟨s.vec.first, t.vec.first, s.vec.res⟩) s.vec.first t.vec.first := by
    intro val hval
    cases val with
    | outside val => trivial
    | inside index => exact ⟨_, rfl, hinside index hval⟩
  have hat := fun val hval =>
    (hheld.withSize (Nat.zero_le _)).readsAlike
      (bufferAllocator sizeof (some (freshGrant sizeof block)))
      (stdBufferAllocator sizeof (some block')) (hkept val hval)
  by_cases hlate : ∀ val ∈ op.late s.vec, ∀ index, val ≠ .inside index
  · refine PodOp.overBoth cxx20 h hmem rfl hat (fun val hval s' t' h' => h'.readsAlike _ _ ?_)
      (fun _ => rfl) hsized ⟨hgrows, fun _ => rfl⟩
    cases val with
    | outside val => trivial
    | inside index => exact absurd rfl (hlate _ hval index)
  · have hnone : op.request cxx20 sizeof s.vec = none := by
      by_contra hsome
      exact hlate (hapart (Option.isSome_iff_ne_none.2 hsome))
    refine (PodOp.overBoth cxx20 hheld hmem rfl hat
      (fun val hval s' t' h' => h'.readsAlike _ _ (hkept val (op.mem_of_mem_late hval)))
      (fun hnil => ?_) hsized ⟨hgrows, fun hsome => ?_⟩).forget
    · refine absurd (fun val hval => ?_) hlate
      have hmember := op.mem_of_mem_late hval
      rw [hnil] at hmember
      cases hmember
    · rw [hnone] at hsome
      cases hsome

/-! ## Runs -/

/-- Vectors over `buffer_allocator`, and as many over `std_buffer_allocator`. -/
structure TwinFamily (sizeof : ℕ) where
  buffer : PodFamily (Element sizeof)
  std : PodFamily (Element sizeof)

/-- What is done to both: a call, for which `realloc` and `new` have these blocks, `attach_abi` of
two blocks, `swap`, `_Assign_rv`, the destructor, or someone else's change to two blocks. -/
inductive TwinAction (sizeof : ℕ)
  | call (i : ℕ) (op : PodOp (Argument sizeof)) (block block' : ℕ)
  | attachAbi (i : ℕ) (blocks : Option (ℕ × ℕ)) (len : ℕ)
  | swap (i j : ℕ)
  | assignRv (i j : ℕ)
  | destroy (i : ℕ)
  | outside (b b' : ℕ) (cells cells' : Option (List (Element sizeof)))

namespace TwinFamily

/-- What two programs return or throw, one on each vector `i`, and what they leave. -/
def both {sizeof : ℕ} (σ : TwinFamily sizeof) (i : ℕ)
    (m m' : Podding (Element sizeof) (Option ℕ)) :
    (Except PodError (Option ℕ) × Except PodError (Option ℕ)) × TwinFamily sizeof :=
  let r := exec m (σ.buffer.object i)
  let r' := exec m' (σ.std.object i)
  ((r.1, r'.1), ⟨σ.buffer.put i r.2, σ.std.put i r'.2⟩)

variable {sizeof : ℕ} (cxx20 : Bool)

def act (σ : TwinFamily sizeof) : TwinAction sizeof →
    (Except PodError (Option ℕ) × Except PodError (Option ℕ)) × TwinFamily sizeof
  | .call i op block block' =>
    σ.both i
      (op.runOver cxx20 sizeof (.over (bufferAllocator sizeof (some (freshGrant sizeof block)))
        (σ.buffer.vecs i).first))
      (op.runOver cxx20 sizeof (.over (stdBufferAllocator sizeof (some block'))
        (σ.std.vecs i).first))
  | .attachAbi i blocks len =>
    σ.both i (PodVector.attachAbi (blocks.map Prod.fst) len >>= fun _ => pure none)
      (PodVector.attachAbi (blocks.map Prod.snd) len >>= fun _ => pure none)
  | .swap i j =>
    ((.ok none, .ok none),
      ⟨(σ.buffer.act cxx20 sizeof (.swap i j)).2, (σ.std.act cxx20 sizeof (.swap i j)).2⟩)
  | .assignRv i j =>
    ((.ok none, .ok none),
      ⟨(σ.buffer.act cxx20 sizeof (.assignRv i j)).2, (σ.std.act cxx20 sizeof (.assignRv i j)).2⟩)
  | .destroy i =>
    σ.both i (PodVector.tidy >>= fun _ => pure none) (PodVector.tidy >>= fun _ => pure none)
  | .outside b b' cells cells' =>
    ((.ok none, .ok none),
      ⟨(σ.buffer.act cxx20 sizeof (.outside b cells)).2,
        (σ.std.act cxx20 sizeof (.outside b' cells')).2⟩)

def step (a : TwinAction sizeof) (σ : TwinFamily sizeof) : Option (TwinFamily sizeof) :=
  some (σ.act cxx20 a).2

/-- Sizes are at most `max_size()`, arguments that lie in the vector are cells of it, the allocators
give blocks that no one has, blocks attached have the same cells, and nobody touches a block that a
vector has. -/
def Legal (σ : TwinFamily sizeof) : TwinAction sizeof → Prop
  | .call i op block block' => op.Sized cxx20 sizeof (σ.buffer.vecs i) ∧
    (∀ index, .inside index ∈ op.arguments → index < (σ.buffer.vecs i).res) ∧
    Grants block block' (σ.buffer.object i) (σ.std.object i)
  | .attachAbi i blocks len =>
    Attachable sizeof (σ.buffer.object i) (σ.std.object i) blocks len ∧
    ∀ b b', blocks = some (b, b') → ∀ k, (σ.buffer.vecs k).first ≠ some b ∧
      (σ.std.vecs k).first ≠ some b'
  | .swap _ _ => True
  | .assignRv i j => i ≠ j
  | .destroy _ => True
  | .outside b b' _ _ => ∀ k, (σ.buffer.vecs k).first ≠ some b ∧ (σ.std.vecs k).first ≠ some b'

/-- No block is grown of which `memcpy` misses bytes that somebody has written, and none is
reallocated before an argument that lies in it has been read. -/
def Copies (σ : TwinFamily sizeof) : TwinAction sizeof → Prop
  | .call i op _ _ => (σ.buffer.object i).Grows (op.request cxx20 sizeof (σ.buffer.vecs i)) ∧
    op.Apart cxx20 sizeof (σ.buffer.vecs i)
  | _ => True

/-- Both return the same or throw the same, and leave the same elements. -/
def Agrees (σ : TwinFamily sizeof) (a : TwinAction sizeof) : Prop :=
  (σ.act cxx20 a).1.1 = (σ.act cxx20 a).1.2 ∧
    ∀ k, (σ.act cxx20 a).2.std.contents k = (σ.act cxx20 a).2.buffer.contents k

/-- Each vector owns its block, and has the cells of the other. -/
structure Alike (σ : TwinFamily sizeof) : Prop where
  wellFormed : σ.buffer.WellFormed sizeof
  wellFormed' : σ.std.WellFormed sizeof
  same : ∀ k, (σ.buffer.object k).Same (σ.std.object k)

variable {cxx20 : Bool} {σ : TwinFamily sizeof} {a : TwinAction sizeof}

theorem Alike.twin (h : σ.Alike) (i : ℕ) :
    Twin sizeof (σ.buffer.others i) (σ.std.others i) none (σ.buffer.object i)
      (σ.std.object i) where
  toSame := h.same i
  has := h.wellFormed.has i
  has' := h.wellFormed'.has i
  anchored := nofun

/-- Vectors depend on their own blocks only. -/
theorem same_of_block {α : Type} {v v' : PodVector} {heap heap' heap₁ heap₁' : Heap α}
    (h : (PodState.mk v heap).Same ⟨v', heap'⟩) (hb : v.first.bind heap₁ = v.first.bind heap)
    (hb' : v'.first.bind heap₁' = v'.first.bind heap') :
    (PodState.mk v heap₁).Same ⟨v', heap₁'⟩ where
  some_eq := h.some_eq
  size_eq := h.size_eq
  res_eq := h.res_eq
  cells_eq := by
    have hcells := h.cells_eq
    unfold PodState.cells at hcells ⊢
    rw [hb, hb']
    exact hcells

theorem Alike.put (h : σ.Alike) {i : ℕ} {s t : PodState (Element sizeof)}
    (hst : Twin sizeof (σ.buffer.others i) (σ.std.others i) none s t) :
    (TwinFamily.mk (σ.buffer.put i s) (σ.std.put i t)).Alike where
  wellFormed := h.wellFormed.put hst.has
  wellFormed' := h.wellFormed'.put hst.has'
  same := fun k => by
    by_cases hk : k = i
    · rw [hk, PodFamily.object_put, PodFamily.object_put]
      exact hst.toSame
    · rw [PodFamily.object_put_of_ne hk, PodFamily.object_put_of_ne hk]
      exact same_of_block (h.same k) (h.wellFormed.block_eq hst.has hk)
        (h.wellFormed'.block_eq hst.has' hk)

theorem Alike.both (h : σ.Alike) {i : ℕ} {m m' : Podding (Element sizeof) (Option ℕ)}
    (hm : Twins sizeof (σ.buffer.others i) (σ.std.others i) none m m' (σ.buffer.object i)
      (σ.std.object i)) :
    (σ.both i m m').1.1 = (σ.both i m m').1.2 ∧ (σ.both i m m').2.Alike := by
  unfold Twins wp₂ at hm
  unfold TwinFamily.both
  split at hm
  · next hexec hexec' =>
    obtain ⟨rfl, hst⟩ := hm
    rw [hexec, hexec']
    exact ⟨rfl, h.put hst⟩
  · next hexec hexec' =>
    obtain ⟨rfl, hst⟩ := hm
    rw [hexec, hexec']
    exact ⟨rfl, h.put hst⟩
  · exact hm.elim

theorem Alike.act (h : σ.Alike) (hlegal : σ.Legal cxx20 a) (hcopies : σ.Copies cxx20 a) :
    (σ.act cxx20 a).1.1 = (σ.act cxx20 a).1.2 ∧ (σ.act cxx20 a).2.Alike := by
  cases a with
  | call i op block block' =>
    obtain ⟨hsized, hinside, hgrants⟩ := hlegal
    exact h.both
      (PodOp.twins_runOver cxx20 (h.twin i) hgrants hinside hsized hcopies.1 hcopies.2)
  | attachAbi i blocks len =>
    obtain ⟨hattach, hapart⟩ := hlegal
    refine h.both (((h.twin i).attachAbi hattach fun b b' hblocks => ?_).bind
      fun _ _ _ h' => h'.pure none)
    exact ⟨⟨(hapart b b' hblocks i).1,
        PodFamily.others_of_forall fun k => (hapart b b' hblocks k).1⟩,
      (hapart b b' hblocks i).2, PodFamily.others_of_forall fun k => (hapart b b' hblocks k).2⟩
  | swap i j =>
    exact ⟨rfl, (h.wellFormed.act cxx20 (a := .swap i j) trivial).1,
      (h.wellFormed'.act cxx20 (a := .swap i j) trivial).1, fun k => h.same (Equiv.swap i j k)⟩
  | assignRv i j =>
    refine ⟨rfl, (h.wellFormed.act cxx20 (a := .assignRv i j) hlegal).1,
      (h.wellFormed'.act cxx20 (a := .assignRv i j) hlegal).1, fun k => ?_⟩
    have hobject : ∀ τ : PodFamily (Element sizeof),
        (τ.act cxx20 sizeof (.assignRv i j)).2.object k =
          if k = j then ⟨{}, τ.heap⟩ else if k = i then τ.object j else τ.object k := by
      intro τ
      change PodState.mk (Function.update (Function.update τ.vecs i (τ.vecs j)) j {} k) τ.heap = _
      rw [Function.update_apply, Function.update_apply]
      split
      · rfl
      · split <;> rfl
    change ((σ.buffer.act cxx20 sizeof (.assignRv i j)).2.object k).Same
      ((σ.std.act cxx20 sizeof (.assignRv i j)).2.object k)
    rw [hobject, hobject]
    split
    · exact ⟨rfl, rfl, rfl, rfl⟩
    · split
      · exact h.same j
      · exact h.same k
  | destroy i => exact h.both ((h.twin i).tidy.bind fun _ _ _ h' => h'.pure none)
  | outside b b' cells cells' =>
    exact ⟨rfl, (h.wellFormed.act cxx20 (a := .outside b cells) fun k => (hlegal k).1).1,
      (h.wellFormed'.act cxx20 (a := .outside b' cells') fun k => (hlegal k).2).1,
      fun k => same_of_block (h.same k)
        (PodFamily.block_outside (fun k => (hlegal k).1) cells k)
        (PodFamily.block_outside (fun k => (hlegal k).2) cells' k)⟩

/-- Vectors that are all empty. -/
theorem alike_empty (heap heap' : Heap (Element sizeof)) :
    (TwinFamily.mk ⟨fun _ => {}, heap⟩ ⟨fun _ => {}, heap'⟩).Alike where
  wellFormed := PodFamily.wellFormed_empty heap
  wellFormed' := PodFamily.wellFormed_empty heap'
  same := fun _ => ⟨rfl, rfl, rfl, rfl⟩

/-- In every run in which no block is grown of which `memcpy` misses something, vectors over the one
allocator and over the other do the same. -/
theorem agrees_of_run (cxx20 : Bool) (heap heap' : Heap (Element sizeof))
    (as : List (TwinAction sizeof))
    (has : Machine.Meets (step cxx20) (fun σ a => Legal cxx20 σ a ∧ Copies cxx20 σ a) as
      ⟨⟨fun _ => {}, heap⟩, ⟨fun _ => {}, heap'⟩⟩) :
    Machine.Meets (step cxx20) (Agrees cxx20) as ⟨⟨fun _ => {}, heap⟩, ⟨fun _ => {}, heap'⟩⟩ := by
  have hboth : Machine.Meets (step cxx20)
      (fun σ a => (Legal cxx20 σ a ∧ Copies cxx20 σ a) ∧ Agrees cxx20 σ a) as
      ⟨⟨fun _ => {}, heap⟩, ⟨fun _ => {}, heap'⟩⟩ := by
    refine (Machine.meets_iff_meets (I := Alike) ?_ ?_ (alike_empty heap heap')).1 has
    · intro σ a hσ
      refine ⟨fun ha => ⟨ha, ?_⟩, fun h => h.1⟩
      obtain ⟨hresult, hnext⟩ := hσ.act ha.1 ha.2
      exact ⟨hresult, fun k => (hnext.twin k).contents_eq⟩
    · rintro σ a σ' hσ ⟨⟨hlegal, hcopies⟩, -⟩ hstep
      obtain rfl := Option.some.inj hstep
      exact (hσ.act hlegal hcopies).2
  exact hboth.mono fun _ _ h => h.2

/-- Two `push_back`, of which the second moves the first element. -/
def pushTwo (sizeof : ℕ) : List (TwinAction sizeof) :=
  [.call 0 (.emplaceBack (.outside fun _ => some 7)) 0 0,
    .call 0 (.emplaceBack (.outside fun _ => some 8)) 1 1]

/-- The first element goes, and the other is given to `push_back`. -/
def pushOwn (sizeof : ℕ) : List (TwinAction sizeof) :=
  [.call 0 (.erase 0) 2 2, .call 0 (.emplaceBack (.inside 0)) 2 2]

def fresh (sizeof : ℕ) : TwinFamily sizeof :=
  ⟨⟨fun _ => {}, fun _ => none⟩, ⟨fun _ => {}, fun _ => none⟩⟩

theorem legal_emplaceBack_outside {val : Element sizeof} {block block' : ℕ}
    (hsize : (σ.buffer.vecs 0).size + 1 ≤ PodVector.maxSize sizeof)
    (hgrants : Grants block block' (σ.buffer.object 0) (σ.std.object 0)) :
    Legal cxx20 σ (.call 0 (.emplaceBack (.outside val)) block block') := by
  refine ⟨fun n hn => ?_, fun index hindex => ?_, hgrants⟩
  · change n ∈ (σ.buffer.vecs 0).emplaceBackSize sizeof at hn
    unfold PodVector.emplaceBackSize at hn
    split at hn
    · cases hn
    · obtain rfl := Option.some.inj hn
      exact hsize
  · cases List.mem_singleton.1 hindex

theorem legal_pushTwo_one : Machine.Meets (step true) (Legal true) (pushTwo 1) (fresh 1) :=
  ⟨legal_emplaceBack_outside (by decide) ⟨.inl rfl, rfl⟩,
    legal_emplaceBack_outside (by decide) ⟨.inl rfl, rfl⟩, trivial⟩

theorem legal_pushTwo_two : Machine.Meets (step true) (Legal true) (pushTwo 2) (fresh 2) :=
  ⟨legal_emplaceBack_outside (by decide) ⟨.inl rfl, rfl⟩,
    legal_emplaceBack_outside (by decide) ⟨.inl rfl, rfl⟩, trivial⟩

/-- Elements of one byte are copied whole, and an argument in the vector is read where there is
room. -/
theorem agrees_pushOwn :
    Machine.Meets (step true) (Agrees true) (pushTwo 1 ++ pushOwn 1) (fresh 1) := by
  have hlegal := legal_pushTwo_one
  refine agrees_of_run true _ _ (pushTwo 1 ++ pushOwn 1) ⟨⟨hlegal.1, ?_, ?_⟩, ⟨hlegal.2.1, ?_, ?_⟩,
    ⟨⟨?_, ?_, .inl rfl, rfl⟩, ?_, ?_⟩, ⟨⟨?_, ?_, .inl rfl, rfl⟩, ?_, ?_⟩, trivial⟩
  · intro cap _ _ hsome
    cases hsome
  · rintro - val hval index rfl
    cases List.mem_singleton.1 hval
  · intro cap _ _ _ i byte hbehind
    have hle : 1 ≤ i * 1 + byte := hbehind
    cases i with
    | zero =>
      have hbyte := byte.isLt
      omega
    | succ i => rfl
  · rintro - val hval index rfl
    cases List.mem_singleton.1 hval
  · exact nofun
  · exact nofun
  · exact nofun
  · exact nofun
  · intro n hn
    obtain rfl := Option.some.inj hn
    exact (by decide : 1 + 1 ≤ PodVector.maxSize 1)
  · intro index hindex
    cases List.mem_singleton.1 hindex
    exact (by decide : 0 < 2)
  · exact nofun
  · exact nofun

/-- The second byte of the first element is lost. -/
theorem not_agrees_pushTwo :
    ¬ ∀ (sizeof : ℕ) (as : List (TwinAction sizeof)),
      Machine.Meets (step true) (Legal true) as (fresh sizeof) →
        Machine.Meets (step true) (Agrees true) as (fresh sizeof) := by
  intro hall
  obtain ⟨-, ⟨-, hcontents⟩, -⟩ := hall 2 (pushTwo 2) legal_pushTwo_two
  have hbyte := congrArg (fun l => l.getD 0 (.unwritten 2) 1) (hcontents 0)
  have hlost : none = some (7 : UInt8) := hbyte
  cases hlost

-- `delete[]` comes before the argument is read; `realloc` may leave the block where it is.
example : ¬ Machine.Meets (step true) (Agrees true)
    [.call 0 (.emplaceBack (.outside fun _ => some 7)) 0 0,
      .call 0 (.emplaceBack (.inside 0)) 0 1] (fresh 1) := by
  rintro ⟨-, ⟨-, hcontents⟩, -⟩
  have hbyte := congrArg (fun l => l.getD 1 (.unwritten 1) 0) (hcontents 0)
  have hlost : none = some (7 : UInt8) := hbyte
  cases hlost

end TwinFamily

end Yasio
