import Yasio.PodVector

/-!
# Calls on a vector that throw

A call throws before it has changed anything, or because its one reallocation has given null.  Null
may also mean that `realloc` has freed the block.
-/

namespace Yasio

open Throwing (exec exec_bind exec_bind_ok)

namespace PodVector

variable {α β γ : Type} {sizeof : ℕ} {grant : Option (Grant α)}

/-! ## The capacity that a call asks for -/

section

variable (sizeof : ℕ) (v : PodVector)

def resizeRequest (newSize : ℕ) : Option ℕ := if v.res < newSize then some newSize else none

def expandRequest (count : ℕ) : Option ℕ :=
  let newSize := sizeT (v.size + count : ℕ)
  if v.res < newSize then some (calculateGrowth sizeof v.res newSize) else none

def emplaceBackRequest : Option ℕ :=
  if v.size < v.res ∨ v.size = maxSize sizeof then none
  else some (calculateGrowth sizeof v.res (v.size + 1))

def appendRequest : List α → Option ℕ
  | [] => none
  | [_] => emplaceBackRequest sizeof v
  | d => expandRequest sizeof v d.length

def appendFillRequest (count : ℕ) : Option ℕ :=
  if count = 0 then none else expandRequest sizeof v count

end

end PodVector

/-- The capacity for which the call calls `_Alloc::reallocate` on this vector, if it does. -/
def PodOp.request {α : Type} (cxx20 : Bool) (sizeof : ℕ) (v : PodVector) : PodOp α → Option ℕ
  | emplaceBack _ => v.emplaceBackRequest sizeof
  | emplace pos _ =>
    if 0 ≤ pos ∧ pos ≤ v.size then
      if cxx20 ∨ pos = v.size then v.emplaceBackRequest sizeof else v.expandRequest sizeof 1
    else none
  | insertRange pos range =>
    if 0 ≤ pos ∧ pos ≤ v.size ∧ range.isSome then
      if pos = v.size ∨ range.getD [] = [] then v.appendRequest sizeof (range.getD [])
      else v.expandRequest sizeof (range.getD []).length
    else none
  | insertFill pos count _ =>
    if 0 ≤ pos ∧ pos ≤ v.size then v.appendFillRequest sizeof count else none
  | append d => v.appendRequest sizeof d
  | appendFill count _ => v.appendFillRequest sizeof count
  | resize newSize => v.resizeRequest newSize
  | resizeFill newSize _ => if v.size = newSize then none else v.resizeRequest newSize
  | expand count => v.expandRequest sizeof count
  | expandFill count _ => v.appendFillRequest sizeof count
  | assign d => v.resizeRequest d.length
  | reserve newCap => v.resizeRequest newCap
  | shrinkToFit => if v.size ≠ v.res ∧ v.size ≠ 0 then some v.size else none
  | resizeAndOverwrite newSize _ => some newSize
  | _ => none

def PodOp.isAssign {α : Type} : PodOp α → Bool
  | assign _ => true
  | _ => false

namespace PodVector

variable {α β γ : Type} {sizeof : ℕ} {grant : Option (Grant α)} {s : PodState α} {cap : ℕ}

/-! ## Calls that reallocate and calls that do not -/

/-- The call returns, or throws and leaves everything as it was. -/
def Quiet (m : Podding α β) (s : PodState α) : Prop :=
  (∃ a s', exec m s = (.ok a, s')) ∨ ∃ e, exec m s = (.error e, s)

/-- The call returns on every vector. -/
def NoThrow (m : Podding α β) : Prop := ∀ s, ∃ a s', exec m s = (.ok a, s')

/-- The call reallocates to this capacity: it throws when that gives null, and else returns. -/
def Allocates (sizeof : ℕ) (grant : Option (Grant α)) (m : Podding α β) (s : PodState α)
    (cap : ℕ) : Prop :=
  match reallocBlock sizeof s.heap s.vec.first cap grant with
  | (none, heap) => exec m s = (.error .badAlloc, { s with heap })
  | (some _, _) => ∃ a s', exec m s = (.ok a, s')

theorem NoThrow.bind {m : Podding α β} {f : β → Podding α γ} (hm : NoThrow m)
    (hf : ∀ b, NoThrow (f b)) : NoThrow (m >>= f) := by
  intro s
  obtain ⟨b, t, hb⟩ := hm s
  obtain ⟨c, u, hc⟩ := hf b t
  exact ⟨c, u, (exec_bind_ok hb).trans hc⟩

theorem noThrow_pure (b : β) : NoThrow (pure b : Podding α β) := fun s => ⟨b, s, rfl⟩

theorem noThrow_modify (f : PodState α → PodState α) :
    NoThrow (modify f : Podding α PUnit) := fun s => ⟨⟨⟩, f s, rfl⟩

theorem noThrow_copyWithin (source n target : ℕ) :
    NoThrow (copyWithin source n target : Podding α Unit) :=
  fun _ => ⟨(), _, rfl⟩

theorem NoThrow.quiet {m : Podding α β} (h : NoThrow m) : Quiet m s := .inl (h s)

theorem Allocates.bind {m : Podding α β} {f : β → Podding α γ} (hm : Allocates sizeof grant m s cap)
    (hf : ∀ b, NoThrow (f b)) : Allocates sizeof grant (m >>= f) s cap := by
  unfold Allocates at hm ⊢
  cases hr : reallocBlock sizeof s.heap s.vec.first cap grant with
  | mk block heap =>
    rw [hr] at hm
    cases block with
    | none =>
      dsimp only at hm ⊢
      rw [exec_bind, hm]
    | some b =>
      obtain ⟨b, t, hb⟩ := hm
      obtain ⟨c, u, hc⟩ := hf b t
      exact ⟨c, u, (exec_bind_ok hb).trans hc⟩

theorem Quiet.bind {m : Podding α β} {f : β → Podding α γ} (hm : Quiet m s)
    (hf : ∀ b, NoThrow (f b)) : Quiet (m >>= f) s := by
  obtain ⟨b, t, hb⟩ | ⟨e, he⟩ := hm
  · obtain ⟨c, u, hc⟩ := hf b t
    exact .inl ⟨c, u, (exec_bind_ok hb).trans hc⟩
  · refine .inr ⟨e, ?_⟩
    rw [exec_bind, he]

/-- What the call does with its request. -/
def Requests (sizeof : ℕ) (grant : Option (Grant α)) (m : Podding α β) (s : PodState α)
    (request : Option ℕ) : Prop :=
  match request with
  | none => Quiet m s
  | some cap => Allocates sizeof grant m s cap

variable {request : Option ℕ}

theorem Requests.bind {m : Podding α β} {f : β → Podding α γ}
    (hm : Requests sizeof grant m s request) (hf : ∀ b, NoThrow (f b)) :
    Requests sizeof grant (m >>= f) s request := by
  cases request with
  | none => exact Quiet.bind hm hf
  | some cap => exact Allocates.bind hm hf

/-- A call that starts by reading the state. -/
theorem requests_get {f : PodState α → Podding α β}
    (h : Requests sizeof grant (f s) s request) :
    Requests sizeof grant (get >>= f) s request := by
  have hexec : exec (get >>= f) s = exec (f s) s := exec_bind_ok (Throwing.exec_get s)
  cases request with
  | none =>
    unfold Requests Quiet at h ⊢
    rwa [hexec]
  | some cap =>
    unfold Requests Allocates at h ⊢
    rwa [hexec]

theorem requests_reallocate (policy : ReallocationPolicy) (size : ℕ) :
    Requests sizeof grant (reallocate sizeof (buffer sizeof grant) policy size) s
      (some (newCapacity sizeof s.vec size policy)) := by
  rw [reallocate_buffer]
  apply requests_get
  unfold Requests Allocates
  dsimp only
  cases reallocBlock sizeof s.heap s.vec.first (newCapacity sizeof s.vec size policy) grant with
  | mk block heap =>
    cases block with
    | none => rfl
    | some b => exact ⟨(), _, rfl⟩

theorem requests_resizeReallocate (policy : ReallocationPolicy) (size : ℕ) :
    Requests sizeof grant (resizeReallocate sizeof (buffer sizeof grant) policy size) s
      (some (newCapacity sizeof s.vec size policy)) :=
  (requests_reallocate policy size).bind fun _ => noThrow_modify _

theorem requests_noThrow {m : Podding α β} (h : NoThrow m) : Requests sizeof grant m s none :=
  h.quiet

theorem requests_resize (newSize : ℕ) :
    Requests sizeof grant (resize sizeof (buffer sizeof grant) newSize) s
      (s.vec.resizeRequest newSize) := by
  unfold resize resizeRequest
  apply requests_get
  split
  · exact requests_resizeReallocate .exactly newSize
  · exact requests_noThrow (noThrow_modify _)

theorem requests_expand (count : ℕ) :
    Requests sizeof grant (expand sizeof (buffer sizeof grant) count) s
      (s.vec.expandRequest sizeof count) := by
  unfold expand expandRequest
  apply requests_get
  dsimp only
  split
  · exact requests_resizeReallocate .atLeast _
  · exact requests_noThrow (noThrow_modify _)

theorem requests_emplaceBack (val : α) :
    Requests sizeof grant (emplaceBack sizeof (buffer sizeof grant) val) s
      (s.vec.emplaceBackRequest sizeof) := by
  unfold emplaceBack emplaceBackRequest
  apply requests_get
  by_cases hroom : s.vec.size < s.vec.res
  · rw [if_pos hroom, if_pos (.inl hroom)]
    exact requests_noThrow ((noThrow_modify _).bind fun _ => noThrow_modify _)
  · rw [if_neg hroom]
    unfold emplaceBackReallocate
    apply requests_get
    by_cases hmax : s.vec.size = maxSize sizeof
    · -- `length_error` comes before the reallocation.
      rw [if_pos (Or.inr hmax)]
      dsimp only
      rw [if_pos hmax]
      exact .inr ⟨.lengthError, rfl⟩
    · rw [if_neg (not_or.2 ⟨hroom, hmax⟩)]
      dsimp only
      rw [if_neg hmax]
      exact (requests_resizeReallocate .atLeast _).bind fun _ => noThrow_modify _

theorem requests_expandFill (count : ℕ) (val : α) :
    Requests sizeof grant (expandFill sizeof (buffer sizeof grant) count val) s
      (s.vec.appendFillRequest sizeof count) := by
  unfold expandFill appendFillRequest
  by_cases hcount : count = 0
  · rw [if_neg (not_not.2 hcount), if_pos hcount]
    exact requests_noThrow (noThrow_pure _)
  · rw [if_pos hcount, if_neg hcount]
    apply requests_get
    exact (requests_expand count).bind fun _ => noThrow_modify _

theorem requests_append (d : List α) :
    Requests sizeof grant (append sizeof (buffer sizeof grant) d) s
      (s.vec.appendRequest sizeof d) := by
  match d with
  | [] => exact requests_noThrow (noThrow_pure _)
  | [val] => exact requests_emplaceBack val
  | a :: b :: d =>
    rw [append_buffer]
    apply requests_get
    exact (requests_expand _).bind fun _ => noThrow_modify _

theorem requests_openGap (offset count : ℕ) :
    Requests sizeof grant (openGap sizeof (buffer sizeof grant) offset count) s
      (s.vec.expandRequest sizeof count) := by
  unfold openGap
  apply (requests_expand count).bind
  intro _ t
  exact ⟨(), _, rfl⟩

/-- A call behind a range check. -/
theorem requests_verifyRange {cond : Prop} [Decidable cond] {f : Podding α β}
    (h : cond → Requests sizeof grant f s request) :
    Requests sizeof grant (verifyRange cond >>= fun _ => f) s (if cond then request else none) := by
  unfold verifyRange
  split
  · next hcond =>
    rw [pure_bind]
    exact h hcond
  · exact .inr ⟨.outOfRange, rfl⟩

theorem Requests.map {m : Podding α β} (f : β → γ) (h : Requests sizeof grant m s request) :
    Requests sizeof grant (f <$> m) s request := by
  rw [map_eq_pure_bind]
  exact h.bind fun b => noThrow_pure (f b)

theorem requests_emplace (cxx20 : Bool) (pos : Iterator) (val : α) :
    Requests sizeof grant (emplace sizeof (buffer sizeof grant) cxx20 pos val) s
      ((PodOp.emplace pos val).request cxx20 sizeof s.vec) := by
  unfold emplace
  apply requests_get
  apply requests_verifyRange
  rintro -
  cases cxx20 with
  | true =>
    apply (requests_emplaceBack val).bind
    exact fun _ => NoThrow.bind (fun _ => ⟨(), _, rfl⟩) fun _ => noThrow_pure _
  | false =>
    simp only [Bool.false_eq_true, false_or, if_false]
    by_cases hend : pos = s.vec.size
    · rw [if_pos hend, if_pos hend]
      exact (requests_emplaceBack val).bind fun _ => noThrow_pure _
    · rw [if_neg hend, if_neg hend]
      exact (requests_openGap _ 1).bind fun _ => (noThrow_modify _).bind fun _ => noThrow_pure _

theorem requests_insertRange (pos : Iterator) (range : Option (List α)) :
    Requests sizeof grant (insertRange sizeof (buffer sizeof grant) pos range) s
      ((PodOp.insertRange pos range).request true sizeof s.vec) := by
  rw [insertRange_buffer]
  apply requests_get
  apply requests_verifyRange
  rintro -
  dsimp only
  by_cases hnil : range.getD [] = []
  · rw [if_neg (not_not.2 hnil), if_pos (Or.inr hnil), hnil]
    exact requests_noThrow (noThrow_pure _)
  · rw [if_pos hnil]
    by_cases hend : pos = s.vec.size
    · rw [if_pos hend, if_pos (Or.inl hend)]
      exact (requests_append _).bind fun _ => noThrow_pure _
    · rw [if_neg hend, if_neg (not_or.2 ⟨hend, hnil⟩)]
      exact (requests_openGap _ _).bind fun _ => (noThrow_modify _).bind fun _ => noThrow_pure _

theorem requests_insertFill (pos : Iterator) (count : ℕ) (val : α) :
    Requests sizeof grant (insertFill sizeof (buffer sizeof grant) pos count val) s
      ((PodOp.insertFill pos count val).request true sizeof s.vec) := by
  unfold insertFill
  apply requests_get
  apply requests_verifyRange
  rintro -
  by_cases hcount : count = 0
  · rw [if_neg (not_not.2 hcount), hcount]
    exact requests_noThrow (noThrow_pure _)
  · rw [if_pos hcount]
    by_cases hend : pos = s.vec.size
    · rw [if_pos hend]
      exact (requests_expandFill count val).bind fun _ => noThrow_pure _
    · rw [if_neg hend, appendFillRequest, if_neg hcount]
      exact (requests_openGap _ _).bind fun _ => (noThrow_modify _).bind fun _ => noThrow_pure _

theorem requests_resizeFill (newSize : ℕ) (val : α) :
    Requests sizeof grant (resizeFill sizeof (buffer sizeof grant) newSize val) s
      ((PodOp.resizeFill newSize val).request true sizeof s.vec) := by
  unfold resizeFill PodOp.request
  apply requests_get
  dsimp only
  by_cases hsame : s.vec.size = newSize
  · rw [if_neg (not_not.2 hsame), if_pos hsame]
    exact requests_noThrow (noThrow_pure _)
  · rw [if_pos hsame, if_neg hsame]
    apply (requests_resize newSize).bind
    intro _
    split
    · exact noThrow_modify _
    · exact noThrow_pure _

theorem requests_reserve (newCap : ℕ) :
    Requests sizeof grant (reserve sizeof (buffer sizeof grant) newCap) s
      (s.vec.resizeRequest newCap) := by
  unfold reserve resizeRequest
  apply requests_get
  split
  · exact requests_reallocate .exactly newCap
  · exact requests_noThrow (noThrow_pure _)

theorem requests_shrinkToFit :
    Requests sizeof grant (shrinkToFit sizeof (buffer sizeof grant)) s
      ((PodOp.shrinkToFit : PodOp α).request true sizeof s.vec) := by
  unfold shrinkToFit PodOp.request
  apply requests_get
  by_cases hfull : s.vec.size = s.vec.res
  · rw [if_neg (not_not.2 hfull), if_neg fun h => h.1 hfull]
    exact requests_noThrow (noThrow_pure _)
  · rw [if_pos hfull]
    by_cases hzero : s.vec.size = 0
    · rw [if_pos hzero, if_neg fun h => h.2 hzero]
      exact requests_noThrow (noThrow_modify _)
    · rw [if_neg hzero, if_pos ⟨hfull, hzero⟩]
      exact requests_reallocate .exactly _

/-- A call that reads the state, checks a range and then does not throw. -/
theorem requests_checked {cond : PodState α → Prop} [∀ t, Decidable (cond t)]
    {f : PodState α → Podding α β} (hf : ∀ t, NoThrow (f t)) :
    Requests sizeof grant (get >>= fun t => verifyRange (cond t) >>= fun _ => f t) s none := by
  apply requests_get
  have hcheck : Requests sizeof grant (verifyRange (cond s) >>= fun _ => f s) s
      (if cond s then none else none) :=
    requests_verifyRange fun _ => requests_noThrow (hf s)
  rwa [ite_self] at hcheck

end PodVector

open PodVector in
/-- Every call but `assign` does what its request says. -/
theorem PodOp.requests {α : Type} (cxx20 : Bool) (sizeof : ℕ) (grant : Option (Grant α))
    (s : PodState α) {op : PodOp α} (hop : op.isAssign = false) :
    Requests sizeof grant (op.run cxx20 sizeof grant) s (op.request cxx20 sizeof s.vec) := by
  cases op with
  | emplaceBack val => exact (requests_emplaceBack val).bind fun _ => noThrow_pure _
  | append d => exact (requests_append d).bind fun _ => noThrow_pure _
  | appendFill count val => exact (requests_expandFill count val).bind fun _ => noThrow_pure _
  | expandFill count val => exact (requests_expandFill count val).bind fun _ => noThrow_pure _
  | resize newSize => exact (requests_resize newSize).bind fun _ => noThrow_pure _
  | expand count => exact (requests_expand count).bind fun _ => noThrow_pure _
  | assign d => cases hop
  | clear => exact requests_noThrow ((noThrow_modify _).bind fun _ => noThrow_pure _)
  | detachAbi => exact requests_noThrow ((noThrow_modify _).bind fun _ => noThrow_pure _)
  | attachAbi block len =>
    exact requests_noThrow (((noThrow_modify _).bind fun _ => noThrow_modify _).bind
      fun _ => noThrow_pure _)
  | resizeAndOverwrite newSize written =>
    have hcall : Requests sizeof grant (PodVector.resizeAndOverwrite sizeof (buffer sizeof grant)
        newSize written) s (some newSize) := by
      rw [resizeAndOverwrite_buffer]
      exact (requests_reallocate .exactly newSize).bind fun _ =>
        (noThrow_modify _).bind fun _ => noThrow_modify _
    exact hcall.bind fun _ => noThrow_pure _
  | emplace pos val => exact (requests_emplace cxx20 pos val).map some
  | insertRange pos range => exact (requests_insertRange pos range).map some
  | insertFill pos count val => exact (requests_insertFill pos count val).map some
  | resizeFill newSize val => exact (requests_resizeFill newSize val).bind fun _ => noThrow_pure _
  | reserve newCap => exact (requests_reserve newCap).bind fun _ => noThrow_pure _
  | shrinkToFit => exact requests_shrinkToFit.bind fun _ => noThrow_pure _
  | erase pos =>
    exact (requests_checked fun t => (noThrow_copyWithin _ _ _).bind fun _ =>
      (noThrow_modify _).bind fun _ => noThrow_pure _).map some
  | eraseRange first last =>
    exact (requests_checked fun t => (noThrow_copyWithin _ _ _).bind fun _ =>
      (noThrow_modify _).bind fun _ => noThrow_pure _).map some
  | atIndex index => exact (requests_checked fun t => noThrow_pure _).map some
  | front => exact (requests_checked fun t => noThrow_pure _).map some
  | back => exact (requests_checked fun t => noThrow_pure _).map some

/-! ## All or nothing -/

/-- Whenever the call throws, the vector and the heap are as before: its block is still live, with
the same elements. -/
def PodOp.AllOrNothing {α : Type} (cxx20 : Bool) (sizeof : ℕ) (grant : Option (Grant α))
    (op : PodOp α) (s : PodState α) : Prop :=
  ∀ e s', exec (op.run cxx20 sizeof grant) s = (.error e, s') → s' = s

/-- The call does not reallocate a block to a number of bytes that is a multiple of `2^64`, and an
`assign` that has to reallocate gets a block or finds the vector empty. -/
def PodOp.Safe {α : Type} (cxx20 : Bool) (sizeof : ℕ) (grant : Option (Grant α)) (op : PodOp α)
    (v : PodVector) : Prop :=
  ∀ cap ∈ op.request cxx20 sizeof v, ¬ (cap * sizeof % 2 ^ 64 = 0 ∧ v.first.isSome) ∧
    (op.isAssign → v.size = 0 ∨ grant.isSome)

/-- The block of the vector is live. -/
def PodState.Owns {α : Type} (s : PodState α) : Prop :=
  ∀ b, s.vec.first = some b → (s.heap b).isSome

section

variable {α β : Type} {sizeof : ℕ} {grant : Option (Grant α)} {s s' : PodState α} {cap : ℕ}

/-! What a call that reallocates does, by what `realloc` does. -/

/-- `realloc` frees the block. -/
theorem PodVector.Allocates.freed {m : Podding α β} (h : Allocates sizeof grant m s cap) {b : ℕ}
    (hb : s.vec.first = some b) (hzero : cap * sizeof % 2 ^ 64 = 0) :
    exec m s = (.error .badAlloc, { s with heap := Function.update s.heap b none }) := by
  have hnull : reallocBlock sizeof s.heap s.vec.first cap grant =
      (none, Function.update s.heap b none) := by
    unfold reallocBlock
    rw [hb]
    exact if_pos ⟨hzero, rfl⟩
  unfold Allocates at h
  rwa [hnull] at h

/-- `realloc` leaves the block as it is and has no other. -/
theorem PodVector.Allocates.failed {m : Podding α β} (h : Allocates sizeof none m s cap)
    (hzero : ¬ (cap * sizeof % 2 ^ 64 = 0 ∧ s.vec.first.isSome)) :
    exec m s = (.error .badAlloc, s) := by
  have hfail : reallocBlock sizeof s.heap s.vec.first cap none = (none, s.heap) := by
    unfold reallocBlock
    exact if_neg hzero
  unfold Allocates at h
  rwa [hfail] at h

/-- `realloc` gives a block. -/
theorem PodVector.Allocates.granted {g : Grant α} {m : Podding α β}
    (h : Allocates sizeof (some g) m s cap)
    (hzero : ¬ (cap * sizeof % 2 ^ 64 = 0 ∧ s.vec.first.isSome)) :
    ∃ a s', exec m s = (.ok a, s') := by
  have hgrant : ∃ heap, reallocBlock sizeof s.heap s.vec.first cap (some g) =
      (some g.block, heap) := by
    unfold reallocBlock
    exact ⟨_, if_neg hzero⟩
  obtain ⟨heap, hgrant⟩ := hgrant
  unfold Allocates at h
  rwa [hgrant] at h

/-- Freeing a live block changes the heap. -/
theorem update_none_ne {heap : Heap α} {b : ℕ} (h : (heap b).isSome) :
    Function.update heap b none ≠ heap := by
  intro hsame
  have hnone : heap b = none := by
    conv_lhs => rw [← hsame]
    exact Function.update_self b none heap
  rw [hnone] at h
  cases h

/-- What a call that throws leaves. -/
theorem error_iff {m : Podding α β} {e : PodError} {t : PodState α}
    (h : exec m s = (.error e, t)) :
    (∀ e s', exec m s = (.error e, s') → s' = s) ↔ t = s := by
  constructor
  · intro hall
    exact hall e t h
  · rintro rfl e' s' herror
    exact ((Prod.ext_iff.1 (h.symm.trans herror)).2).symm

theorem PodVector.Quiet.forall_eq {m : Podding α β} (h : Quiet m s) :
    ∀ e s', exec m s = (.error e, s') → s' = s := by
  intro e s' herror
  obtain ⟨a, t, hok⟩ | ⟨e', hquiet⟩ := h
  · cases hok.symm.trans herror
  · exact (error_iff hquiet).2 rfl e s' herror

/-- A call that reallocates leaves everything as it was when it throws, unless `realloc` has freed
the block. -/
theorem PodVector.Allocates.forall_iff {m : Podding α β} (h : Allocates sizeof grant m s cap)
    (hs : s.Owns) :
    (∀ e s', exec m s = (.error e, s') → s' = s) ↔
      ¬ (cap * sizeof % 2 ^ 64 = 0 ∧ s.vec.first.isSome) := by
  by_cases hzero : cap * sizeof % 2 ^ 64 = 0 ∧ s.vec.first.isSome
  · obtain ⟨b, hb⟩ := Option.isSome_iff_exists.1 hzero.2
    -- The vector still has the block, which is no longer live.
    rw [error_iff (h.freed hb hzero.1), iff_false_right (not_not.2 hzero)]
    intro hsame
    exact update_none_ne (hs b hb) (congrArg PodState.heap hsame)
  · rw [iff_true_right hzero]
    intro e s' herror
    cases grant with
    | none => exact (error_iff (h.failed hzero)).2 rfl e s' herror
    | some g =>
      obtain ⟨a, t, hok⟩ := h.granted hzero
      cases hok.symm.trans herror

/-- What `_Eos` leaves. -/
def PodState.withSize (s : PodState α) (n : ℕ) : PodState α :=
  { s with vec := { s.vec with size := n } }

theorem PodState.withSize_zero_eq_iff : s.withSize 0 = s ↔ s.vec.size = 0 := by
  obtain ⟨⟨first, size, res⟩, heap⟩ := s
  constructor
  · intro h
    exact (congrArg (fun t : PodState α => t.vec.size) h).symm
  · rintro rfl
    rfl

theorem PodVector.allocates_assign {d : List α} (hgrow : s.vec.res < d.length) :
    Allocates sizeof grant
      (resize sizeof (buffer sizeof grant) d.length >>= fun _ =>
        store 0 d >>= fun _ => pure (none : Option ℕ))
      (s.withSize 0) d.length := by
  have hstore : NoThrow (store 0 d >>= fun _ => pure (none : Option ℕ)) :=
    (noThrow_modify _).bind fun _ => noThrow_pure none
  have hresize : Requests sizeof grant (resize sizeof (buffer sizeof grant) d.length) (s.withSize 0)
      ((s.withSize 0).vec.resizeRequest d.length) := requests_resize d.length
  have hreq := hresize.bind fun _ => hstore
  have hcap : (s.withSize 0).vec.resizeRequest d.length = some d.length := if_pos hgrow
  rwa [hcap] at hreq

theorem PodVector.exec_assign {cxx20 : Bool} {d : List α} (hne : d ≠ []) :
    exec ((PodOp.assign d).run cxx20 sizeof grant) s =
      exec (resize sizeof (buffer sizeof grant) d.length >>= fun _ =>
        store 0 d >>= fun _ => pure none)
        (s.withSize 0) := by
  change exec (assign sizeof (buffer sizeof grant) d >>= fun _ => pure none) s = _
  have heos : exec (eos 0) s = (.ok (), (s.withSize 0)) := rfl
  rw [assign_buffer, if_pos hne, bind_assoc, exec_bind_ok heos, bind_assoc]

/-- `assign` with its elements in a new block: the size is already 0 when it throws. -/
theorem PodVector.forall_assign_iff {m : Podding α β}
    (h : Allocates sizeof grant m (s.withSize 0) cap) (hs : s.Owns) :
    (∀ e s', exec m (s.withSize 0) = (.error e, s') → s' = s) ↔
      ¬ (cap * sizeof % 2 ^ 64 = 0 ∧ s.vec.first.isSome) ∧ (s.vec.size = 0 ∨ grant.isSome) := by
  by_cases hzero : cap * sizeof % 2 ^ 64 = 0 ∧ s.vec.first.isSome
  · obtain ⟨b, hb⟩ := Option.isSome_iff_exists.1 hzero.2
    refine iff_of_false ?_ fun hsafe => hsafe.1 hzero
    intro hall
    have hsame := hall _ _ (h.freed (s := (s.withSize 0)) hb hzero.1)
    exact update_none_ne (hs b hb) (congrArg PodState.heap hsame)
  · rw [and_iff_right hzero]
    cases grant with
    | none =>
      have hfailed := h.failed (s := (s.withSize 0)) hzero
      constructor
      · intro hall
        exact .inl (PodState.withSize_zero_eq_iff.1 (hall _ _ hfailed))
      · rintro (hsize | hgrant)
        · intro e s' herror
          have hsame : (s.withSize 0) = s' := (Prod.ext_iff.1 (hfailed.symm.trans herror)).2
          exact hsame.symm.trans (PodState.withSize_zero_eq_iff.2 hsize)
        · cases hgrant
    | some g =>
      refine iff_of_true ?_ (.inr rfl)
      intro e s' herror
      obtain ⟨a, t, hok⟩ := h.granted (s := (s.withSize 0)) hzero
      cases hok.symm.trans herror

/-- `assign` without a new block returns. -/
theorem PodVector.noThrow_assign (cxx20 : Bool) (sizeof : ℕ) (grant : Option (Grant α))
    {d : List α} (hroom : d.length ≤ s.vec.res) :
    ∃ a s', exec ((PodOp.assign d).run cxx20 sizeof grant) s = (.ok a, s') := by
  by_cases hne : d = []
  · rw [hne]
    exact ⟨none, _, rfl⟩
  · rw [exec_assign hne]
    have hresize : exec (resize sizeof (buffer sizeof grant) d.length) (s.withSize 0) =
        exec (eos d.length) (s.withSize 0) := by
      have hfull : ¬ (s.withSize 0).vec.res < d.length := Nat.not_lt.2 hroom
      unfold resize
      rw [exec_bind_ok (Throwing.exec_get (s.withSize 0)), if_neg hfull]
    exact ⟨none, _, exec_bind_ok hresize⟩

end

open PodVector in
/-- A call leaves everything as it was when it throws exactly when it is safe. -/
theorem PodOp.allOrNothing_iff {α : Type} (cxx20 : Bool) (sizeof : ℕ) (grant : Option (Grant α))
    (op : PodOp α) (s : PodState α) (hs : s.Owns) :
    op.AllOrNothing cxx20 sizeof grant s ↔ op.Safe cxx20 sizeof grant s.vec := by
  cases hassign : op.isAssign with
  | false =>
    have hreq := PodOp.requests cxx20 sizeof grant s hassign
    unfold AllOrNothing Safe
    cases hcap : op.request cxx20 sizeof s.vec with
    | none =>
      rw [hcap] at hreq
      refine iff_of_true (Quiet.forall_eq hreq) ?_
      rintro cap ⟨⟩
    | some cap =>
      rw [hcap] at hreq
      rw [Allocates.forall_iff hreq hs, hassign]
      simp
  | true =>
    cases op with
    | assign d =>
      -- Only an `assign` that has to grow can throw.
      by_cases hgrow : s.vec.res < d.length
      · have hne : d ≠ [] := List.ne_nil_of_length_pos (by omega)
        have hcap : s.vec.resizeRequest d.length = some d.length := if_pos hgrow
        unfold AllOrNothing Safe
        rw [exec_assign hne, forall_assign_iff (allocates_assign hgrow) hs]
        simp [request, hcap, isAssign]
      · have hcap : s.vec.resizeRequest d.length = none := if_neg hgrow
        refine iff_of_true ?_ ?_
        · intro e s' herror
          obtain ⟨a, t, hok⟩ := noThrow_assign cxx20 sizeof grant (Nat.not_lt.1 hgrow)
          cases hok.symm.trans herror
        · intro cap hmem
          rw [request, hcap] at hmem
          cases hmem
    | _ => cases hassign

theorem PodState.owns_one (a : α) :
    (⟨⟨some 0, 1, 1⟩, Function.update (fun _ => none) 0 (some [a])⟩ : PodState α).Owns := by
  rintro b ⟨⟩
  rfl

/-- `push_back` on a full vector. -/
theorem PodOp.allOrNothing_full :
    (emplaceBack 8).AllOrNothing true 1 none
        ⟨⟨some 0, 1, 1⟩, Function.update (fun _ => none) 0 (some [7])⟩ ↔
      (emplaceBack 8).Safe true 1 none ⟨some 0, 1, 1⟩ :=
  PodOp.allOrNothing_iff true 1 none (emplaceBack 8) _ (PodState.owns_one 7)

/-- `resize_and_overwrite(0)` throws after `realloc` has freed the block. -/
theorem PodOp.not_allOrNothing_zero :
    ¬ ∀ (op : PodOp ℕ) (grant : Option (Grant ℕ)) (s : PodState ℕ), s.Owns →
      op.AllOrNothing true 1 grant s := by
  intro hall
  have hsame := hall (resizeAndOverwrite 0 []) none _ (PodState.owns_one 7) .badAlloc
    ⟨⟨some 0, 1, 1⟩, Function.update (Function.update (fun _ => none) 0 (some [7])) 0 none⟩ rfl
  have hcells := congrArg (fun t : PodState ℕ => t.heap 0) hsame
  cases hcells

end Yasio
