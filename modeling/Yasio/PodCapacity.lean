import Yasio.PodLists

/-!
# The capacity of a vector

A call adds its count to `_Mysize` and hands the sum to `_Calculate_growth`, in `size_t` and without
a look at `max_size()`.  As long as the sum is at most `max_size()`, nothing wraps and the block has
room for the capacity.
-/

namespace Yasio

open Throwing (exec exec_bind exec_bind_ok wp)

variable {α β : Type} {sizeof : ℕ} {v : PodVector} {s : PodState α} {n : ℕ}

/-! ## The new size of a call -/

namespace PodVector

section

variable (sizeof : ℕ) (v : PodVector)

/-- `emplace_back` compares with `max_size()` first. -/
def emplaceBackSize : Option ℕ := if v.size = maxSize sizeof then none else some (v.size + 1)

def appendSize : List α → Option ℕ
  | [] => none
  | [_] => v.emplaceBackSize sizeof
  | d => some (v.size + d.length)

def appendFillSize (count : ℕ) : Option ℕ := if count = 0 then none else some (v.size + count)

end

end PodVector

/-- The new size that the call works out, as a number and not in a `size_t`. -/
def PodOp.newSize (cxx20 : Bool) (sizeof : ℕ) (v : PodVector) : PodOp α → Option ℕ
  | emplaceBack _ => v.emplaceBackSize sizeof
  | emplace pos _ =>
    if 0 ≤ pos ∧ pos ≤ v.size then
      if cxx20 ∨ pos = v.size then v.emplaceBackSize sizeof else some (v.size + 1)
    else none
  | insertRange pos range =>
    if 0 ≤ pos ∧ pos ≤ v.size ∧ range.isSome then
      if pos = v.size ∨ range.getD [] = [] then v.appendSize sizeof (range.getD [])
      else some (v.size + (range.getD []).length)
    else none
  | insertFill pos count _ => if 0 ≤ pos ∧ pos ≤ v.size then v.appendFillSize count else none
  | append d => v.appendSize sizeof d
  | appendFill count _ | expandFill count _ => v.appendFillSize count
  | resize newSize | reserve newSize => some newSize
  | resizeFill newSize _ => if v.size = newSize then none else some newSize
  | expand count => some (v.size + count)
  | _ => none

/-- The size that the call has to leave, when the vector had this size. -/
def PodOp.exactSize (size : ℕ) : PodOp α → Option ℕ
  | emplaceBack _ | emplace _ _ => some (size + 1)
  | insertRange _ range => some (size + (range.getD []).length)
  | append d => some (size + d.length)
  | insertFill _ count _ | appendFill count _ | expandFill count _ | expand count =>
    some (size + count)
  | resize newSize | resizeFill newSize _ => some newSize
  | reserve _ => some size
  | _ => none

/-- The new size is at most `max_size()`. -/
def PodOp.Fits (cxx20 : Bool) (sizeof : ℕ) (v : PodVector) (op : PodOp α) : Prop :=
  ∀ n ∈ op.newSize cxx20 sizeof v, n ≤ PodVector.maxSize sizeof

/-- Whatever `realloc` has for it, the call throws or leaves this size in a block with room for the
capacity.  The new size and the bytes of the capacity fit into a `size_t`, and the capacity that is
asked for lies between the new size and `max_size()`. -/
structure PodOp.Honest (cxx20 : Bool) (sizeof : ℕ) (n : ℕ) (s : PodState α) (op : PodOp α) :
    Prop where
  leaves : ∀ grant, Grant.Valid grant s → wp (op.run cxx20 sizeof grant)
    (fun _ t => t.vec.size = n ∧ n ≤ t.vec.res ∧ t.vec.res ≤ PodVector.maxSize sizeof ∧
      t.vec.res ≤ t.cells.length) (fun _ _ => True) s
  sum : ∀ size ∈ op.newSize cxx20 sizeof s.vec, PodVector.sizeT size = size
  growth : ∀ size ∈ op.newSize cxx20 sizeof s.vec, ∀ cap ∈ op.request cxx20 sizeof s.vec,
    size ≤ cap ∧ cap ≤ PodVector.maxSize sizeof
  bytes : ∀ cap ∈ op.request cxx20 sizeof s.vec, cap * sizeof < 2 ^ 64

namespace PodVector

theorem sizeT_natCast (n : ℕ) : sizeT n = n % 2 ^ 64 := by
  unfold sizeT
  omega

theorem sizeT_of_le (h : n ≤ maxSize sizeof) : sizeT n = n := by
  have hlimit : maxSize sizeof ≤ 2 ^ 64 - 1 := Nat.div_le_self _ _
  rw [sizeT_natCast]
  exact Nat.mod_eq_of_lt (by omega)

/-! ## What is asked for, by the new size -/

/-- The capacity that a call asks for once its new size is in a `size_t`. -/
def Seeks (sizeof : ℕ) (v : PodVector) (n : ℕ) (request : Option ℕ) : Prop :=
  request = (if v.res < n then some n else none) ∨
    request = if v.res < n then some (calculateGrowth sizeof v.res n) else none

/-- A call without a new size asks for nothing. -/
def Sought (sizeof : ℕ) (v : PodVector) (newSize request : Option ℕ) : Prop :=
  match newSize with
  | none => request = none
  | some n => sizeT n = n → Seeks sizeof v n request

theorem Seeks.isSome {request : Option ℕ} (h : Seeks sizeof v n request) (hgrow : v.res < n) :
    request.isSome := by
  obtain rfl | rfl := h
  · rw [if_pos hgrow]
    rfl
  · rw [if_pos hgrow]
    rfl

theorem Seeks.between {request : Option ℕ} (h : Seeks sizeof v n request)
    (hn : n ≤ maxSize sizeof) (hres : v.res ≤ maxSize sizeof) :
    ∀ cap ∈ request, n ≤ cap ∧ cap ≤ maxSize sizeof := by
  intro cap hcap
  obtain rfl | rfl := h
  · split at hcap
    · obtain rfl := Option.mem_some_iff.1 hcap
      exact ⟨Nat.le_refl n, hn⟩
    · exact absurd hcap (Option.not_mem_none cap)
  · split at hcap
    · obtain rfl := Option.mem_some_iff.1 hcap
      exact ⟨le_calculateGrowth hn, calculateGrowth_le hres hn⟩
    · exact absurd hcap (Option.not_mem_none cap)

theorem Sought.ite {cond : Prop} [Decidable cond] {a b c d : Option ℕ}
    (h : Sought sizeof v a b) (h' : Sought sizeof v c d) :
    Sought sizeof v (if cond then a else c) (if cond then b else d) := by
  split
  · exact h
  · exact h'

theorem sought_none : Sought sizeof v none none := rfl

theorem sought_resize (newSize : ℕ) : Sought sizeof v (some newSize) (v.resizeRequest newSize) :=
  fun _ => .inl rfl

theorem sought_expand (count : ℕ) :
    Sought sizeof v (some (v.size + count)) (v.expandRequest sizeof count) := by
  intro hsum
  unfold expandRequest
  rw [hsum]
  exact .inr rfl

theorem sought_emplaceBack : Sought sizeof v (v.emplaceBackSize sizeof)
    (v.emplaceBackRequest sizeof) := by
  unfold emplaceBackSize emplaceBackRequest
  by_cases hmax : v.size = maxSize sizeof
  · rw [if_pos hmax, if_pos (Or.inr hmax)]
    exact sought_none
  · rw [if_neg hmax]
    intro _
    right
    by_cases hroom : v.size < v.res
    · rw [if_pos (Or.inl hroom), if_neg (Nat.not_lt.2 hroom)]
    · rw [if_neg (not_or.2 ⟨hroom, hmax⟩), if_pos (Nat.lt_succ_of_le (Nat.not_lt.1 hroom))]

theorem sought_append (d : List α) :
    Sought sizeof v (v.appendSize sizeof d) (v.appendRequest sizeof d) := by
  match d with
  | [] => exact sought_none
  | [_] => exact sought_emplaceBack
  | a :: b :: d => exact sought_expand _

theorem sought_appendFill (count : ℕ) :
    Sought sizeof v (v.appendFillSize count) (v.appendFillRequest sizeof count) :=
  sought_none.ite (sought_expand count)

end PodVector

open PodVector in
theorem PodOp.sought (cxx20 : Bool) (sizeof : ℕ) (v : PodVector) {op : PodOp α} {size : ℕ}
    (hn : op.exactSize size = some n) :
    Sought sizeof v (op.newSize cxx20 sizeof v) (op.request cxx20 sizeof v) := by
  cases op with
  | emplaceBack val => exact sought_emplaceBack
  | emplace pos val => exact (sought_emplaceBack.ite (sought_expand 1)).ite sought_none
  | insertRange pos range => exact ((sought_append _).ite (sought_expand _)).ite sought_none
  | insertFill pos count val => exact (sought_appendFill count).ite sought_none
  | append d => exact sought_append d
  | appendFill count val => exact sought_appendFill count
  | expandFill count val => exact sought_appendFill count
  | resize newSize => exact sought_resize newSize
  | reserve newCap => exact sought_resize newCap
  | resizeFill newSize val => exact sought_none.ite (sought_resize newSize)
  | expand count => exact sought_expand count
  | _ => cases hn

/-! ## Calls that throw -/

namespace PodVector

/-- The call throws and changes nothing. -/
def Throws (m : Podding α β) (s : PodState α) : Prop :=
  wp m (fun _ _ => False) (fun _ t => t = s) s

theorem Throws.bind {γ : Type} {m : Podding α β} {f : β → Podding α γ} (h : Throws m s) :
    Throws (m >>= f) s := by
  unfold Throws
  rw [Throwing.wp_bind]
  exact h.mono fun _ _ hfalse => hfalse.elim

theorem Throws.map {γ : Type} {m : Podding α β} {f : β → γ} (h : Throws m s) :
    Throws (f <$> m) s := by
  rw [map_eq_pure_bind]
  exact h.bind

theorem throws_verifyRange {cond : Prop} [Decidable cond] (h : ¬ cond) :
    Throws (verifyRange cond : Podding α Unit) s := by
  unfold verifyRange
  rw [if_neg h]
  exact rfl

theorem throws_emplaceBack {grant : Option (Grant α)} {val : α}
    (hfull : s.vec.size = maxSize sizeof) (hres : s.vec.res ≤ maxSize sizeof) :
    Throws (emplaceBack sizeof (buffer sizeof grant) val) s := by
  have hroom : ¬ s.vec.size < s.vec.res := by omega
  unfold Throws emplaceBack
  rw [Throwing.wp_bind, Throwing.wp_get, if_neg hroom]
  unfold emplaceBackReallocate
  rw [Throwing.wp_bind, Throwing.wp_get, if_pos hfull]
  exact rfl

end PodVector

/-! ## Sizes that fit -/

section

variable {rest : Heap α} {l : List α} {cxx20 : Bool} {op : PodOp α}

namespace PodVector

theorem emplaceBack_le_or_throws (h : s.Has sizeof rest l) (val : α) :
    l.length + 1 ≤ maxSize sizeof ∨
      ∀ grant, Throws (emplaceBack sizeof (buffer sizeof grant) val) s := by
  have hlen := h.length_le
  have hres := h.wellFormed.res_le_max
  by_cases hfull : s.vec.size = maxSize sizeof
  · exact .inr fun grant => throws_emplaceBack hfull hres
  · rw [h.size_eq] at hfull
    exact .inl (by omega)

theorem append_le_or_throws (h : s.Has sizeof rest l) {d : List α}
    (hfits : ∀ n ∈ s.vec.appendSize sizeof d, n ≤ maxSize sizeof) :
    l.length + d.length ≤ maxSize sizeof ∨
      d ≠ [] ∧ ∀ grant, Throws (append sizeof (buffer sizeof grant) d) s := by
  match d with
  | [] => exact .inl (Nat.le_trans h.length_le h.wellFormed.res_le_max)
  | [val] =>
    obtain hle | hthrows := emplaceBack_le_or_throws h val
    · exact .inl hle
    · exact .inr ⟨List.cons_ne_nil _ _, hthrows⟩
  | a :: b :: d =>
    have hle := hfits _ rfl
    rw [h.size_eq] at hle
    exact .inl hle

theorem appendFill_le (h : s.Has sizeof rest l) {count : ℕ}
    (hfits : ∀ n ∈ s.vec.appendFillSize count, n ≤ maxSize sizeof) :
    l.length + count ≤ maxSize sizeof := by
  by_cases hcount : count = 0
  · rw [hcount]
    exact Nat.le_trans h.length_le h.wellFormed.res_le_max
  · have hle := hfits _ (if_neg hcount)
    rwa [h.size_eq] at hle

end PodVector

open PodVector in
/-- A call whose size fits is in range, or throws and changes nothing. -/
theorem PodOp.inRange_or_throws (h : s.Has sizeof rest l) {size : ℕ}
    (hn : op.exactSize size = some n) (hfits : op.Fits cxx20 sizeof s.vec) :
    op.InRange sizeof s.heap l ∨ ∀ grant, Throws (op.run cxx20 sizeof grant) s := by
  have hsize := h.size_eq
  cases op with
  | emplaceBack val =>
    obtain hle | hthrows := emplaceBack_le_or_throws h val
    · exact .inl hle
    · exact .inr fun grant => (hthrows grant).bind
  | emplace pos val =>
    by_cases hpos : 0 ≤ pos ∧ pos ≤ s.vec.size
    · have hrange : 0 ≤ pos ∧ pos ≤ l.length := by rwa [hsize] at hpos
      by_cases hback : cxx20 = true ∨ pos = s.vec.size
      · obtain hle | hthrows := emplaceBack_le_or_throws h val
        · exact .inl ⟨hrange, hle⟩
        · refine .inr fun grant => Throws.map ?_
          unfold Throws PodVector.emplace
          rw [Throwing.wp_bind, Throwing.wp_get, Throwing.wp_bind]
          apply wp_verifyRange hpos
          obtain rfl | hend := hback
          · exact (hthrows grant).bind
          · cases cxx20 with
            | true => exact (hthrows grant).bind
            | false =>
              rw [if_neg Bool.false_ne_true, if_pos hend]
              exact (hthrows grant).bind
      · have hnew : (PodOp.emplace pos val).newSize cxx20 sizeof s.vec = some (s.vec.size + 1) :=
          (if_pos hpos).trans (if_neg hback)
        have hle := hfits _ hnew
        rw [hsize] at hle
        exact .inl ⟨hrange, hle⟩
    · refine .inr fun grant => Throws.map ?_
      unfold Throws PodVector.emplace
      rw [Throwing.wp_bind, Throwing.wp_get]
      exact (throws_verifyRange hpos).bind
  | insertRange pos range =>
    by_cases hpos : 0 ≤ pos ∧ pos ≤ s.vec.size ∧ range.isSome
    · obtain ⟨d, rfl⟩ := Option.isSome_iff_exists.1 hpos.2.2
      have hrange : 0 ≤ pos ∧ pos ≤ l.length := by
        rw [hsize] at hpos
        exact ⟨hpos.1, hpos.2.1⟩
      by_cases hend : pos = s.vec.size ∨ d = []
      · have hnew : (PodOp.insertRange pos (some d)).newSize cxx20 sizeof s.vec =
            s.vec.appendSize sizeof d := (if_pos hpos).trans (if_pos hend)
        unfold Fits at hfits
        rw [hnew] at hfits
        obtain hle | ⟨hne, hthrows⟩ := append_le_or_throws h hfits
        · exact .inl ⟨hrange, d, rfl, hle⟩
        · refine .inr fun grant => Throws.map ?_
          unfold Throws PodVector.insertRange
          rw [Throwing.wp_bind, Throwing.wp_get, Throwing.wp_bind]
          apply wp_verifyRange hpos
          dsimp only [Option.getD_some]
          rw [if_pos hne, if_pos (hend.resolve_right hne)]
          exact (hthrows grant).bind
      · have hnew : (PodOp.insertRange pos (some d)).newSize cxx20 sizeof s.vec =
            some (s.vec.size + d.length) := (if_pos hpos).trans (if_neg hend)
        have hle := hfits _ hnew
        rw [hsize] at hle
        exact .inl ⟨hrange, d, rfl, hle⟩
    · refine .inr fun grant => Throws.map ?_
      unfold Throws PodVector.insertRange
      rw [Throwing.wp_bind, Throwing.wp_get]
      exact (throws_verifyRange hpos).bind
  | insertFill pos count val =>
    by_cases hpos : 0 ≤ pos ∧ pos ≤ s.vec.size
    · have hnew : (PodOp.insertFill pos count val).newSize cxx20 sizeof s.vec =
          s.vec.appendFillSize count := if_pos hpos
      unfold Fits at hfits
      rw [hnew] at hfits
      rw [hsize] at hpos
      exact .inl ⟨hpos, appendFill_le h hfits⟩
    · refine .inr fun grant => Throws.map ?_
      unfold Throws PodVector.insertFill
      rw [Throwing.wp_bind, Throwing.wp_get]
      exact (throws_verifyRange hpos).bind
  | append d =>
    obtain hle | ⟨-, hthrows⟩ := append_le_or_throws h hfits
    · exact .inl hle
    · exact .inr fun grant => (hthrows grant).bind
  | appendFill count val => exact .inl (appendFill_le h hfits)
  | expandFill count val => exact .inl (appendFill_le h hfits)
  | resize newSize => exact .inl (hfits newSize rfl)
  | reserve newCap => exact .inl (hfits newCap rfl)
  | resizeFill newSize val =>
    by_cases hsame : s.vec.size = newSize
    · rw [← hsame, hsize]
      exact .inl (Nat.le_trans h.length_le h.wellFormed.res_le_max)
    · exact .inl (hfits newSize (if_neg hsame))
  | expand count =>
    have hle := hfits _ rfl
    rw [hsize] at hle
    exact .inl hle
  | _ => cases hn

theorem PodOp.length_of_makes {heap : Heap α} {l' : List α} (hn : op.exactSize l.length = some n)
    (h : op.Makes heap l l') : l'.length = n := by
  have hinsert : ∀ (k : ℕ) (d : List α),
      (l.take k ++ d ++ l.drop k).length = l.length + d.length := by
    intro k d
    rw [List.length_append, List.length_append, List.length_take, List.length_drop]
    omega
  cases op with
  | emplaceBack val =>
    obtain rfl := Option.some.inj hn
    rw [h]
    exact List.length_append
  | emplace pos val =>
    obtain rfl := Option.some.inj hn
    rw [h]
    exact hinsert _ _
  | insertRange pos range =>
    obtain rfl := Option.some.inj hn
    rw [h]
    exact hinsert _ _
  | insertFill pos count val =>
    obtain rfl := Option.some.inj hn
    rw [h, hinsert, List.length_replicate]
  | append d =>
    obtain rfl := Option.some.inj hn
    rw [h]
    exact List.length_append
  | appendFill count val =>
    obtain rfl := Option.some.inj hn
    rw [h, List.length_append, List.length_replicate]
  | expandFill count val =>
    obtain rfl := Option.some.inj hn
    rw [h, List.length_append, List.length_replicate]
  | resize newSize =>
    obtain rfl := Option.some.inj hn
    obtain ⟨grown, hgrown, rfl⟩ := h
    rw [List.length_append, List.length_take, hgrown]
    omega
  | resizeFill newSize val =>
    obtain rfl := Option.some.inj hn
    rw [h, List.length_append, List.length_take, List.length_replicate]
    omega
  | expand count =>
    obtain rfl := Option.some.inj hn
    obtain ⟨grown, hgrown, rfl⟩ := h
    rw [List.length_append, hgrown]
  | reserve newCap =>
    obtain rfl := Option.some.inj hn
    rw [h]
  | _ => cases hn

open PodVector in
theorem PodOp.honest_of_fits (h : s.Has sizeof rest l) (hn : op.exactSize l.length = some n)
    (hfits : op.Fits cxx20 sizeof s.vec) : op.Honest cxx20 sizeof n s := by
  have hres := h.wellFormed.res_le_max
  have hsought := PodOp.sought cxx20 sizeof s.vec hn
  refine ⟨?_, ?_, ?_, ?_⟩
  · intro grant hgrant
    obtain hrange | hthrows := PodOp.inRange_or_throws h hn hfits
    · refine (PodOp.wp_run cxx20 h hrange hgrant ?_).imp ?_ fun _ _ _ => trivial
      · rintro b len rfl
        cases hn
      · rintro pos t ⟨-, l', hmakes, ht⟩
        have hlen := PodOp.length_of_makes hn hmakes
        refine ⟨?_, ?_, ht.wellFormed.res_le_max, ht.wellFormed.res_le⟩
        · rw [ht.size_eq, hlen]
        · rw [← hlen]
          exact ht.length_le
    · exact (hthrows grant).imp (fun _ _ hfalse => hfalse.elim) fun _ _ _ => trivial
  · intro size hsize
    exact sizeT_of_le (hfits size hsize)
  · intro size hsize cap hcap
    rw [hsize] at hsought
    have hle := hfits size hsize
    exact (hsought (sizeT_of_le hle)).between hle hres cap hcap
  · intro cap hcap
    cases hsize : op.newSize cxx20 sizeof s.vec with
    | none =>
      rw [hsize] at hsought
      rw [show op.request cxx20 sizeof s.vec = none from hsought] at hcap
      exact absurd hcap (Option.not_mem_none cap)
    | some size =>
      rw [hsize] at hsought
      have hle := hfits size hsize
      exact mul_sizeof_lt ((hsought (sizeT_of_le hle)).between hle hres cap hcap).2

open PodVector in
theorem PodOp.fits_of_honest (hres : s.vec.res ≤ maxSize sizeof) {size : ℕ}
    (hn : op.exactSize size = some n) (h : op.Honest cxx20 sizeof n s) :
    op.Fits cxx20 sizeof s.vec := by
  intro new hnew
  by_contra hlarge
  have hsought := PodOp.sought cxx20 sizeof s.vec hn
  rw [hnew] at hsought
  -- A new size above `max_size()` does not fit into the capacity, so the call has to grow.
  obtain ⟨cap, hcap⟩ := Option.isSome_iff_exists.1
    ((hsought (h.sum new hnew)).isSome (by omega))
  obtain ⟨hle, hmax⟩ := h.growth new hnew cap hcap
  omega

end

/-! ## Runs -/

namespace PodFamily

/-- Of the calls with a size or a count those that fit, of the others those in range. -/
def Fitting (cxx20 : Bool) (sizeof : ℕ) (σ : PodFamily α) : PodAction α → Prop
  | .call i op grant =>
    (if (op.exactSize (σ.vecs i).size).isSome then op.Fits cxx20 sizeof (σ.vecs i)
      else op.InRange sizeof σ.heap (σ.contents i)) ∧
    Grant.Valid grant (σ.object i) ∧
    ∀ b len, op = .attachAbi (some b) len → ∀ k, (σ.vecs k).first ≠ some b
  | a => σ.Legal sizeof a

variable {σ : PodFamily α} {a : PodAction α} {cxx20 : Bool}

theorem WellFormed.fitting (h : σ.WellFormed sizeof) (ha : σ.Fitting cxx20 sizeof a) :
    (σ.act cxx20 sizeof a).2.WellFormed sizeof := by
  cases a with
  | call i op grant =>
    obtain ⟨hop, hgrant, hattach⟩ := ha
    split at hop
    · next hsome =>
      obtain ⟨n, hn⟩ := Option.isSome_iff_exists.1 hsome
      obtain hrange | hthrows := PodOp.inRange_or_throws (h.has i) hn hop
      · have hlegal : σ.Legal sizeof (.call i op grant) := ⟨hrange, hgrant, hattach⟩
        exact (h.act cxx20 hlegal).1
      · -- The vector is put back as it was.
        have hexec := hthrows grant
        unfold PodVector.Throws wp at hexec
        have hsame : (exec (op.run cxx20 sizeof grant) (σ.object i)).2 = σ.object i := by
          split at hexec
          · exact hexec.elim
          · next heq =>
            rw [heq]
            exact hexec
        change (σ.put i (exec (op.run cxx20 sizeof grant) (σ.object i)).2).WellFormed sizeof
        rw [hsame]
        exact h.put (h.has i)
    · have hlegal : σ.Legal sizeof (.call i op grant) := ⟨hop, hgrant, hattach⟩
      exact (h.act cxx20 hlegal).1
  | swap i j => exact h.swap i j
  | assignRv i j => exact (h.assignRv i j).1
  | destroy i => exact (h.destroy i).1
  | outside b cells => exact (h.outside ha).1

/-- After every run of actions that fit, a call with a size or a count is honest exactly when its
new size is at most `max_size()`. -/
theorem honest_iff (cxx20 : Bool) (sizeof : ℕ) (heap : Heap α) {as : List (PodAction α)}
    (hfitting : Machine.Meets (step cxx20 sizeof) (Fitting cxx20 sizeof) as ⟨fun _ => {}, heap⟩)
    (hrun : Machine.run (step cxx20 sizeof) as ⟨fun _ => {}, heap⟩ = some σ) (i : ℕ)
    {op : PodOp α} (hn : op.exactSize (σ.vecs i).size = some n) :
    op.Honest cxx20 sizeof n (σ.object i) ↔ op.Fits cxx20 sizeof (σ.vecs i) := by
  have hwell : σ.WellFormed sizeof := by
    refine Machine.invariant_of_meets ?_ (wellFormed_empty heap) hfitting hrun
    intro σ a σ' hσ ha hstep
    obtain rfl := Option.some.inj hstep
    exact hσ.fitting ha
  have hhas := hwell.has i
  constructor
  · exact PodOp.fits_of_honest hhas.wellFormed.res_le_max hn
  · rw [show (σ.vecs i).size = (σ.contents i).length from hhas.size_eq] at hn
    exact PodOp.honest_of_fits hhas hn

/-- A vector of one byte. -/
def onePush : List (PodAction ℕ) := [.call 0 (.emplaceBack 7) (some ⟨0, fun _ => 0⟩)]

theorem fitting_onePush :
    Machine.Meets (step true 1) (Fitting true 1) onePush ⟨fun _ => {}, fun _ => none⟩ := by
  refine ⟨⟨?_, ?_, ?_⟩, trivial⟩
  · intro n hn
    obtain rfl := Option.some.inj hn
    exact (by decide : 0 + 1 ≤ PodVector.maxSize 1)
  · exact fun _ _ => .inl rfl
  · exact fun _ _ hop => nomatch hop

/-- `resize` of the vector of one byte. -/
theorem honest_iff_onePush :
    ∃ σ : PodFamily ℕ, (σ.vecs 0).size = 1 ∧
      ((PodOp.resize 4 : PodOp ℕ).Honest true 1 4 (σ.object 0) ↔
        (PodOp.resize 4 : PodOp ℕ).Fits true 1 (σ.vecs 0)) :=
  ⟨_, rfl, honest_iff true 1 (fun _ => none) fitting_onePush rfl 0 rfl⟩

/-- `expand(SIZE_MAX)` leaves the vector of one byte empty. -/
theorem not_honest_onePush :
    ¬ ∀ (as : List (PodAction ℕ)) (σ : PodFamily ℕ),
      Machine.Meets (step true 1) (Fitting true 1) as ⟨fun _ => {}, fun _ => none⟩ →
      Machine.run (step true 1) as ⟨fun _ => {}, fun _ => none⟩ = some σ →
      ∀ i (op : PodOp ℕ) n, op.exactSize (σ.vecs i).size = some n →
        op.Honest true 1 n (σ.object i) := by
  intro hall
  have h := hall onePush _ fitting_onePush rfl 0 (.expand (2 ^ 64 - 1)) (1 + (2 ^ 64 - 1)) rfl
  have hleaves := h.leaves none fun _ hg => absurd hg (Option.not_mem_none _)
  -- The sum of 1 and the count is 0 in a `size_t`.
  have hsum : PodVector.sizeT (1 + (2 ^ 64 - 1) : ℕ) = 0 := by decide
  unfold PodOp.run PodOp.runOver PodVector.expand at hleaves
  rw [Throwing.wp_bind, Throwing.wp_bind, Throwing.wp_get] at hleaves
  change wp (if _ < PodVector.sizeT (1 + (2 ^ 64 - 1) : ℕ) then _ else
    PodVector.eos (PodVector.sizeT (1 + (2 ^ 64 - 1) : ℕ))) _ _ _ at hleaves
  rw [hsum, if_neg (Nat.not_lt_zero _)] at hleaves
  have hsize : 0 = 1 + (2 ^ 64 - 1) := hleaves.1
  exact absurd hsize (by decide)

end PodFamily

end Yasio
