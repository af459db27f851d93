import Yasio.PodContents
import Yasio.Lib.Machine
import Mathlib.Logic.Equiv.Basic

/-!
# Vectors and lists

Any number of vectors over one heap.  What a call makes of the elements of its vector is what the
operation makes of a list, and the other vectors keep theirs.
-/

namespace Yasio

open Throwing (wp wp_pure wp_bind wp_get wp_modify wp_map)

variable {α : Type}

/-! ## The calls on lists -/

/-- What the call makes of the elements.  Elements that it adds without a value may be any. -/
def PodOp.Makes (heap : Heap α) (l l' : List α) : PodOp α → Prop
  | emplaceBack val => l' = l ++ [val]
  | emplace pos val => l' = l.take pos.toNat ++ [val] ++ l.drop pos.toNat
  | insertRange pos range => l' = l.take pos.toNat ++ range.getD [] ++ l.drop pos.toNat
  | insertFill pos count val =>
    l' = l.take pos.toNat ++ List.replicate count val ++ l.drop pos.toNat
  | append d => l' = l ++ d
  | appendFill count val | expandFill count val => l' = l ++ List.replicate count val
  | erase pos => l' = l.eraseIdx pos.toNat
  | eraseRange first last => l' = l.take first.toNat ++ l.drop last.toNat
  | resize newSize => ∃ grown, grown.length = newSize - l.length ∧ l' = l.take newSize ++ grown
  | resizeFill newSize val => l' = l.take newSize ++ List.replicate (newSize - l.length) val
  | expand count => ∃ grown, grown.length = count ∧ l' = l ++ grown
  | assign d => l' = d
  | resizeAndOverwrite _ written => l' = written
  | clear | detachAbi => l' = []
  | attachAbi block len => l' = ((block.bind heap).getD []).take len
  | reserve _ | shrinkToFit | atIndex _ | front | back => l' = l

/-- The position of the first element inserted, of the one behind those erased, or of the one asked
for. -/
def PodOp.position (l : List α) : PodOp α → Option ℕ
  | emplace pos _ | insertRange pos _ | insertFill pos _ _ | erase pos => some pos.toNat
  | eraseRange first _ => some first.toNat
  | atIndex index => some index
  | front => some 0
  | back => some (l.length - 1)
  | _ => none

/-- The positions are in range, there is a range of elements, the sizes are at most `max_size()`,
and a block that is attached has so many cells. -/
def PodOp.InRange (sizeof : ℕ) (heap : Heap α) (l : List α) : PodOp α → Prop
  | emplaceBack _ => l.length + 1 ≤ PodVector.maxSize sizeof
  | emplace pos _ => (0 ≤ pos ∧ pos ≤ l.length) ∧ l.length + 1 ≤ PodVector.maxSize sizeof
  | insertRange pos range => (0 ≤ pos ∧ pos ≤ l.length) ∧
    ∃ d, range = some d ∧ l.length + d.length ≤ PodVector.maxSize sizeof
  | insertFill pos count _ => (0 ≤ pos ∧ pos ≤ l.length) ∧
    l.length + count ≤ PodVector.maxSize sizeof
  | append d => l.length + d.length ≤ PodVector.maxSize sizeof
  | appendFill count _ | expandFill count _ | expand count =>
    l.length + count ≤ PodVector.maxSize sizeof
  | erase pos => 0 ≤ pos ∧ pos < l.length
  | eraseRange first last => first ≤ last ∧ 0 ≤ first ∧ last ≤ l.length
  | resize newSize | resizeFill newSize _ | reserve newSize => newSize ≤ PodVector.maxSize sizeof
  | assign d => d.length ≤ PodVector.maxSize sizeof
  | resizeAndOverwrite newSize written => written.length ≤ newSize ∧ 0 < newSize ∧
    newSize ≤ PodVector.maxSize sizeof
  | atIndex index => index < l.length
  | front | back => l ≠ []
  | attachAbi block len => (∀ b, block = some b → (heap b).isSome) ∧
    len ≤ ((block.bind heap).getD []).length ∧ len ≤ PodVector.maxSize sizeof
  | clear | detachAbi | shrinkToFit => True

namespace PodVector

variable {sizeof : ℕ} {rest : Heap α} {s : PodState α} {l : List α}
  {E : PodError → PodState α → Prop}

/-- A vector without a block. -/
theorem has_empty {heap : Heap α}
    (happart : ∀ c cells, rest c = some cells → heap c = some cells) :
    (PodState.mk {} heap).Has sizeof rest [] where
  wellFormed := ⟨nofun, Nat.le_refl _, Nat.zero_le _, Nat.zero_le _⟩
  contents_eq := rfl
  apart := fun c cells hc => ⟨happart c cells hc, nofun⟩

theorem wp_attachAbi {block : Option ℕ} {len : ℕ} {Q : Unit → PodState α → Prop}
    (h : s.Has sizeof rest l) (hrange : (PodOp.attachAbi block len).InRange sizeof s.heap l)
    (hblock : ∀ b, block = some b → s.vec.first ≠ some b ∧ rest b = none)
    (hQ : ∀ t, t.Has sizeof rest (((block.bind s.heap).getD []).take len) → Q () t) :
    wp (attachAbi block len) Q E s := by
  obtain ⟨hlive, hlen, hmax⟩ := hrange
  unfold attachAbi
  rw [wp_bind]
  cases hb : block with
  | none =>
    rw [hb] at hlen hQ
    have hzero : len = 0 := Nat.le_zero.1 hlen
    apply wp_tidy h
    intro t ht _
    rw [wp_modify, hzero]
    apply hQ
    rw [Option.bind_none, Option.getD_none, List.take_nil]
    exact has_empty fun c cells hc => (ht.apart c cells hc).1
  | some b =>
    rw [hb] at hlen hQ
    obtain ⟨hne, hrest⟩ := hblock b hb
    obtain ⟨cells, hcells⟩ := Option.isSome_iff_exists.1 (hlive b hb)
    rw [Option.bind_some, hcells, Option.getD_some] at hlen hQ
    apply wp_tidy (h.insert hne hcells)
    intro t ht _
    have hheap : t.heap b = some cells := (ht.apart b cells (Function.update_self ..)).1
    rw [wp_modify]
    apply hQ
    refine PodState.has_of_block rfl hheap (Nat.le_refl _) hlen hmax rfl ?_
    intro c cells' hc
    have hcb : c ≠ b := by
      rintro rfl
      cases hrest.symm.trans hc
    exact ⟨(ht.apart c cells' (by rwa [Function.update_of_ne hcb])).1, hcb⟩

/-- A call that only looks. -/
theorem wp_checked {cond : PodState α → Prop} [∀ t, Decidable (cond t)] {f : PodState α → ℕ}
    {Q : ℕ → PodState α → Prop} (hcond : cond s) (hQ : Q (f s) s) :
    wp (do
      let t ← get
      verifyRange (cond t)
      return f t) Q E s := by
  rw [wp_bind, wp_get, wp_bind]
  exact wp_verifyRange hcond hQ

end PodVector

open PodVector in
/-- A call with its positions in range does on the elements what it does on lists.  When there is no
block for it, the elements stay, and `assign` has cleared them. -/
theorem PodOp.wp_run (cxx20 : Bool) {sizeof : ℕ} {grant : Option (Grant α)} {rest : Heap α}
    {s : PodState α} {l : List α} {op : PodOp α} (h : s.Has sizeof rest l)
    (hrange : op.InRange sizeof s.heap l) (hgrant : Grant.Valid grant s)
    (hattach : ∀ b len, op = attachAbi (some b) len → s.vec.first ≠ some b ∧ rest b = none) :
    wp (op.run cxx20 sizeof grant)
      (fun pos t => pos = op.position l ∧ ∃ l', op.Makes s.heap l l' ∧ t.Has sizeof rest l')
      (fun e t => e = .badAlloc ∧ grant = none ∧
        t.Has sizeof rest (if op.isAssign then [] else l)) s := by
  have hnone : grant = none → PodError.badAlloc = .badAlloc ∧ grant = none ∧ s.Has sizeof rest l :=
    fun hnone => ⟨rfl, hnone, h⟩
  cases op with
  | emplaceBack val =>
    simp only [run, runOver, wp_bind, wp_pure]
    exact wp_emplaceBack h hgrant hrange hnone fun t ht => ⟨rfl, _, rfl, ht⟩
  | emplace pos val =>
    simp only [run, runOver, wp_map]
    exact wp_emplace h hgrant hrange.1 hrange.2 hnone fun t ht => ⟨rfl, _, rfl, ht⟩
  | insertRange pos range =>
    obtain ⟨hpos, d, rfl, hmax⟩ := hrange
    simp only [run, runOver, wp_map]
    exact wp_insertRange h hgrant hpos hmax hnone fun t ht => ⟨rfl, _, rfl, ht⟩
  | insertFill pos count val =>
    simp only [run, runOver, wp_map]
    exact wp_insertFill h hgrant hrange.1 hrange.2 hnone fun t ht => ⟨rfl, _, rfl, ht⟩
  | append d =>
    simp only [run, runOver, wp_bind, wp_pure]
    exact wp_append h hgrant hrange hnone fun t ht => ⟨rfl, _, rfl, ht⟩
  | appendFill count val =>
    simp only [run, runOver, wp_bind, wp_pure]
    exact wp_expandFill h hgrant hrange hnone fun t ht => ⟨rfl, _, rfl, ht⟩
  | expandFill count val =>
    simp only [run, runOver, wp_bind, wp_pure]
    exact wp_expandFill h hgrant hrange hnone fun t ht => ⟨rfl, _, rfl, ht⟩
  | erase pos =>
    simp only [run, runOver, wp_map]
    exact wp_erase h hrange fun t ht => ⟨rfl, _, rfl, ht⟩
  | eraseRange first last =>
    simp only [run, runOver, wp_map]
    exact wp_eraseRange h hrange fun t ht => ⟨rfl, _, rfl, ht⟩
  | resize newSize =>
    simp only [run, runOver, wp_bind, wp_pure]
    exact wp_resize h hgrant hrange hnone
      fun t grown hgrown ht => ⟨rfl, _, ⟨grown, hgrown, rfl⟩, ht⟩
  | resizeFill newSize val =>
    simp only [run, runOver, wp_bind, wp_pure]
    exact wp_resizeFill h hgrant hrange hnone fun t ht => ⟨rfl, _, rfl, ht⟩
  | expand count =>
    simp only [run, runOver, wp_bind, wp_pure]
    exact wp_expand h hgrant hrange hnone
      fun t grown hgrown ht => ⟨rfl, _, ⟨grown, hgrown, rfl⟩, ht⟩
  | assign d =>
    simp only [run, runOver, wp_bind, wp_pure]
    exact wp_assign h hgrant hrange (fun hnone t ht => ⟨rfl, hnone, ht⟩)
      fun t ht => ⟨rfl, _, rfl, ht⟩
  | resizeAndOverwrite newSize written =>
    simp only [run, runOver, wp_bind, wp_pure]
    exact wp_resizeAndOverwrite h hgrant hrange.1 hrange.2.1 hrange.2.2 hnone
      fun t ht => ⟨rfl, _, rfl, ht⟩
  | clear =>
    simp only [run, runOver, wp_bind, wp_pure]
    exact ⟨rfl, _, rfl, has_cleared h⟩
  | reserve newCap =>
    simp only [run, runOver, wp_bind, wp_pure]
    exact wp_reserve h hgrant hrange hnone fun t ht => ⟨rfl, _, rfl, ht⟩
  | shrinkToFit =>
    simp only [run, runOver, wp_bind, wp_pure]
    exact wp_shrinkToFit h hgrant hnone fun t ht => ⟨rfl, _, rfl, ht⟩
  | detachAbi =>
    simp only [run, runOver, wp_bind, wp_pure]
    exact ⟨rfl, _, rfl, has_empty fun c cells hc => (h.apart c cells hc).1⟩
  | attachAbi block len =>
    simp only [run, runOver, wp_bind, wp_pure]
    exact wp_attachAbi h hrange (fun b hb => hattach b len (by rw [hb]))
      fun t ht => ⟨rfl, _, rfl, ht⟩
  | atIndex index =>
    simp only [run, runOver, wp_map]
    exact wp_checked (by rw [h.size_eq]; exact hrange) ⟨rfl, _, rfl, h⟩
  | front =>
    simp only [run, runOver, wp_map]
    exact wp_checked (h.size_ne_zero hrange) ⟨rfl, _, rfl, h⟩
  | back =>
    simp only [run, runOver, wp_map]
    refine wp_checked (h.size_ne_zero hrange) ⟨?_, _, rfl, h⟩
    rw [h.size_eq]
    rfl

/-! ## Vectors over one heap -/

/-- The vectors, of which some are empty and not in use, and the heap. -/
structure PodFamily (α : Type) where
  vecs : ℕ → PodVector
  heap : Heap α

/-- A call on a vector with what `realloc` has for it, `swap`, which move assignment is too,
`_Assign_rv`, by which a vector is made from another, the destructor, or someone else's change to a
block. -/
inductive PodAction (α : Type)
  | call (i : ℕ) (op : PodOp α) (grant : Option (Grant α))
  | swap (i j : ℕ)
  | assignRv (i j : ℕ)
  | destroy (i : ℕ)
  | outside (b : ℕ) (cells : Option (List α))

namespace PodFamily

/-- A vector and the heap. -/
def object (σ : PodFamily α) (i : ℕ) : PodState α := ⟨σ.vecs i, σ.heap⟩

def contents (σ : PodFamily α) (i : ℕ) : List α := (σ.object i).contents

/-- What a change to one vector leaves. -/
def put (σ : PodFamily α) (i : ℕ) (t : PodState α) : PodFamily α :=
  { vecs := Function.update σ.vecs i t.vec, heap := t.heap }

/-- What an action returns or throws, and what it leaves. -/
def act (cxx20 : Bool) (sizeof : ℕ) (σ : PodFamily α) :
    PodAction α → Except PodError (Option ℕ) × PodFamily α
  | .call i op grant =>
    let r := Throwing.exec (op.run cxx20 sizeof grant) (σ.object i)
    (r.1, σ.put i r.2)
  | .swap i j => (.ok none, { σ with vecs := σ.vecs ∘ Equiv.swap i j })
  | .assignRv i j =>
    (.ok none, { σ with vecs := Function.update (Function.update σ.vecs i (σ.vecs j)) j {} })
  | .destroy i => (.ok none, σ.put i (Throwing.exec PodVector.tidy (σ.object i)).2)
  | .outside b cells => (.ok none, { σ with heap := Function.update σ.heap b cells })

def step (cxx20 : Bool) (sizeof : ℕ) (a : PodAction α) (σ : PodFamily α) : Option (PodFamily α) :=
  some (σ.act cxx20 sizeof a).2

/-- Positions are in range, `realloc` gives blocks that no one has, and nobody touches a block that
a vector has. -/
def Legal (sizeof : ℕ) (σ : PodFamily α) : PodAction α → Prop
  | .call i op grant => op.InRange sizeof σ.heap (σ.contents i) ∧ Grant.Valid grant (σ.object i) ∧
    ∀ b len, op = .attachAbi (some b) len → ∀ k, (σ.vecs k).first ≠ some b
  | .swap _ _ => True
  | .assignRv i j => i ≠ j
  | .destroy _ => True
  | .outside b _ => ∀ k, (σ.vecs k).first ≠ some b

/-- What an action with this result makes of the elements of the vectors. -/
def Makes (heap : Heap α) (lists lists' : ℕ → List α) :
    PodAction α → Except PodError (Option ℕ) → Prop
  | .call i op _, .ok pos => pos = op.position (lists i) ∧
    ∃ l', op.Makes heap (lists i) l' ∧ lists' = Function.update lists i l'
  | .call i op grant, .error e => e = .badAlloc ∧ grant = none ∧
    lists' = Function.update lists i (if op.isAssign then [] else lists i)
  | .swap i j, _ => lists' = lists ∘ Equiv.swap i j
  | .assignRv i j, _ => lists' = Function.update (Function.update lists i (lists j)) j []
  | .destroy i, _ => lists' = Function.update lists i []
  | .outside _ _, _ => lists' = lists

/-- The size of each vector is the number of its elements, and its capacity is not less. -/
def Sized (σ : PodFamily α) : Prop :=
  ∀ i, (σ.vecs i).size = (σ.contents i).length ∧ (σ.vecs i).size ≤ (σ.vecs i).res

/-- The action does on the elements what it does on lists. -/
def Refines (cxx20 : Bool) (sizeof : ℕ) (σ : PodFamily α) (a : PodAction α) : Prop :=
  let r := σ.act cxx20 sizeof a
  Makes σ.heap σ.contents r.2.contents a r.1 ∧ r.2.Sized

/-- Each vector owns its block, and no other vector does. -/
structure WellFormed (sizeof : ℕ) (σ : PodFamily α) : Prop where
  each : ∀ i, (σ.object i).WellFormed sizeof
  distinct : ∀ i j b, i ≠ j → (σ.vecs i).first = some b → (σ.vecs j).first ≠ some b

variable {cxx20 : Bool} {sizeof : ℕ} {σ : PodFamily α} {a : PodAction α}

theorem WellFormed.sized (h : σ.WellFormed sizeof) : σ.Sized := by
  intro i
  have hsize := (h.each i).size_le
  refine ⟨?_, hsize⟩
  rw [contents, PodState.contents, List.length_take, Nat.min_eq_left]
  · rfl
  · exact Nat.le_trans hsize (h.each i).res_le

/-- Vectors depend on their own blocks only. -/
theorem wellFormed_of_block {v : PodVector} {heap heap' : Heap α}
    (h : (PodState.mk v heap).WellFormed sizeof) (hblock : v.first.bind heap' = v.first.bind heap) :
    (PodState.mk v heap').WellFormed sizeof where
  owns := fun b hb => by
    have hlive := h.owns b hb
    rw [show v.first = some b from hb, Option.bind_some, Option.bind_some] at hblock
    exact (congrArg Option.isSome hblock).trans hlive
  size_le := h.size_le
  res_le := by
    have hroom := h.res_le
    unfold PodState.cells at hroom ⊢
    rwa [hblock]
  res_le_max := h.res_le_max

theorem contents_of_block {v : PodVector} {heap heap' : Heap α}
    (hblock : v.first.bind heap' = v.first.bind heap) :
    (PodState.mk v heap').contents = (PodState.mk v heap).contents := by
  unfold PodState.contents PodState.cells
  rw [hblock]

open Classical in
/-- The blocks of the other vectors. -/
noncomputable def others (σ : PodFamily α) (i : ℕ) : Heap α := fun b =>
  if ∃ k, k ≠ i ∧ (σ.vecs k).first = some b then σ.heap b else none

theorem others_of_ne {i k b : ℕ} (hk : k ≠ i) (hb : (σ.vecs k).first = some b) :
    σ.others i b = σ.heap b := if_pos ⟨k, hk, hb⟩

theorem others_of_forall {i b : ℕ} (h : ∀ k, (σ.vecs k).first ≠ some b) : σ.others i b = none := by
  apply if_neg
  rintro ⟨k, -, hb⟩
  exact h k hb

theorem WellFormed.has (h : σ.WellFormed sizeof) (i : ℕ) :
    (σ.object i).Has sizeof (σ.others i) (σ.contents i) := by
  refine ⟨h.each i, rfl, ?_⟩
  intro c cells hc
  unfold others at hc
  split at hc
  · next hother =>
    obtain ⟨k, hk, hfirst⟩ := hother
    exact ⟨hc, h.distinct k i c hk hfirst⟩
  · cases hc

theorem vecs_put (i : ℕ) (t : PodState α) : (σ.put i t).vecs i = t.vec := Function.update_self ..

theorem vecs_put_of_ne {i k : ℕ} (hk : k ≠ i) (t : PodState α) :
    (σ.put i t).vecs k = σ.vecs k := Function.update_of_ne hk _ _

theorem object_put (i : ℕ) (t : PodState α) : (σ.put i t).object i = t := by
  unfold object
  rw [vecs_put]
  rfl

theorem object_put_of_ne {i k : ℕ} (hk : k ≠ i) (t : PodState α) :
    (σ.put i t).object k = ⟨σ.vecs k, t.heap⟩ := by
  unfold object
  rw [vecs_put_of_ne hk]
  rfl

section

variable {i : ℕ} {t : PodState α} {l : List α}

/-- The blocks of the other vectors are as before. -/
theorem WellFormed.apart (h : σ.WellFormed sizeof) (ht : t.Has sizeof (σ.others i) l) {k b : ℕ}
    (hk : k ≠ i) (hb : (σ.vecs k).first = some b) :
    t.heap b = σ.heap b ∧ t.vec.first ≠ some b := by
  obtain ⟨cells, hcells⟩ := Option.isSome_iff_exists.1 ((h.each k).owns b hb)
  rw [show σ.heap b = some cells from hcells]
  exact ht.apart b cells ((others_of_ne hk hb).trans hcells)

theorem WellFormed.block_eq (h : σ.WellFormed sizeof) (ht : t.Has sizeof (σ.others i) l) {k : ℕ}
    (hk : k ≠ i) : (σ.vecs k).first.bind t.heap = (σ.vecs k).first.bind σ.heap := by
  cases hfirst : (σ.vecs k).first with
  | none => rfl
  | some b => exact (h.apart ht hk hfirst).1

theorem WellFormed.put (h : σ.WellFormed sizeof) (ht : t.Has sizeof (σ.others i) l) :
    (σ.put i t).WellFormed sizeof where
  each := fun k => by
    by_cases hk : k = i
    · rw [hk, object_put]
      exact ht.wellFormed
    · rw [object_put_of_ne hk]
      exact wellFormed_of_block (h.each k) (h.block_eq ht hk)
  distinct := fun j k b hjk => by
    by_cases hj : j = i
    · have hk : k ≠ i := fun hk => hjk (hj.trans hk.symm)
      rw [hj, vecs_put, vecs_put_of_ne hk]
      exact fun hb hkb => (h.apart ht hk hkb).2 hb
    · rw [vecs_put_of_ne hj]
      by_cases hk : k = i
      · rw [hk, vecs_put]
        exact fun hb => (h.apart ht hj hb).2
      · rw [vecs_put_of_ne hk]
        exact h.distinct j k b hjk

theorem WellFormed.contents_put (h : σ.WellFormed sizeof) (ht : t.Has sizeof (σ.others i) l) :
    (σ.put i t).contents = Function.update σ.contents i l := by
  funext k
  unfold contents
  by_cases hk : k = i
  · rw [hk, object_put, Function.update_self]
    exact ht.contents_eq
  · rw [object_put_of_ne hk, Function.update_of_ne hk]
    exact contents_of_block (h.block_eq ht hk)

end

theorem WellFormed.call (h : σ.WellFormed sizeof) {i : ℕ} {op : PodOp α} {grant : Option (Grant α)}
    (hlegal : σ.Legal sizeof (.call i op grant)) :
    (σ.act cxx20 sizeof (.call i op grant)).2.WellFormed sizeof ∧
      Makes σ.heap σ.contents (σ.act cxx20 sizeof (.call i op grant)).2.contents
        (.call i op grant) (σ.act cxx20 sizeof (.call i op grant)).1 := by
  obtain ⟨hrange, hgrant, hattach⟩ := hlegal
  -- For this vector the blocks of the others are the rest of the heap.
  have hrun := PodOp.wp_run cxx20 (h.has i) hrange hgrant
    fun b len hop => ⟨hattach b len hop i, others_of_forall (hattach b len hop)⟩
  unfold wp at hrun
  cases hexec : Throwing.exec (op.run cxx20 sizeof grant) (σ.object i) with
  | mk r t =>
    have hact : σ.act cxx20 sizeof (.call i op grant) = (r, σ.put i t) := by
      rw [act, hexec]
    rw [hexec] at hrun
    rw [hact]
    cases r with
    | ok pos =>
      obtain ⟨hpos, l', hmakes, ht⟩ := hrun
      exact ⟨h.put ht, hpos, l', hmakes, h.contents_put ht⟩
    | error e =>
      obtain ⟨he, hnone, ht⟩ := hrun
      exact ⟨h.put ht, he, hnone, h.contents_put ht⟩

theorem WellFormed.swap (h : σ.WellFormed sizeof) (i j : ℕ) :
    (σ.act cxx20 sizeof (.swap i j)).2.WellFormed sizeof where
  each := fun k => h.each (Equiv.swap i j k)
  distinct := fun _ _ b hne =>
    h.distinct _ _ b fun heq => hne ((Equiv.swap i j).injective heq)

/-- A swap with a function that has another value at one of the two. -/
theorem update_update_eq {β : Type} (f : ℕ → β) (v : β) (i j : ℕ) :
    Function.update (Function.update f i (f j)) j v = Function.update (f ∘ Equiv.swap i j) j v := by
  funext k
  by_cases hkj : k = j
  · rw [hkj, Function.update_self, Function.update_self]
  · rw [Function.update_of_ne hkj, Function.update_of_ne hkj]
    by_cases hki : k = i
    · rw [hki, Function.update_self, Function.comp_apply, Equiv.swap_apply_left]
    · rw [Function.update_of_ne hki, Function.comp_apply, Equiv.swap_apply_of_ne_of_ne hki hkj]

/-- `_Assign_rv` is a swap after which the source is empty. -/
theorem WellFormed.assignRv (h : σ.WellFormed sizeof) (i j : ℕ) :
    (σ.act cxx20 sizeof (.assignRv i j)).2.WellFormed sizeof ∧
      (σ.act cxx20 sizeof (.assignRv i j)).2.contents =
        Function.update (Function.update σ.contents i (σ.contents j)) j [] := by
  have hact : (σ.act cxx20 sizeof (.assignRv i j)).2 =
      (σ.act cxx20 sizeof (.swap i j)).2.put j ⟨{}, σ.heap⟩ := by
    unfold act PodFamily.put
    dsimp only
    rw [update_update_eq σ.vecs {} i j]
  have hempty : (PodState.mk {} σ.heap).Has sizeof
      ((σ.act cxx20 sizeof (.swap i j)).2.others j) [] :=
    PodVector.has_empty fun c cells hc => (((h.swap i j).has j).apart c cells hc).1
  rw [hact]
  -- After the swap the source holds what the target had, which `_Assign_rv` forgets.
  refine ⟨(h.swap i j).put hempty, ?_⟩
  rw [(h.swap i j).contents_put hempty, update_update_eq σ.contents [] i j]
  rfl

theorem WellFormed.destroy (h : σ.WellFormed sizeof) (i : ℕ) :
    (σ.act cxx20 sizeof (.destroy i)).2.WellFormed sizeof ∧
      (σ.act cxx20 sizeof (.destroy i)).2.contents = Function.update σ.contents i [] := by
  have htidy : wp PodVector.tidy (fun _ t => t.Has sizeof (σ.others i) []) (fun _ _ => False)
      (σ.object i) := PodVector.wp_tidy (h.has i) fun t ht _ => ht
  exact ⟨h.put htidy, h.contents_put htidy⟩

/-- A change to a block that no vector has. -/
theorem block_outside {b : ℕ} (hb : ∀ k, (σ.vecs k).first ≠ some b) (cells : Option (List α))
    (k : ℕ) : (σ.vecs k).first.bind (Function.update σ.heap b cells) =
      (σ.vecs k).first.bind σ.heap := by
  cases hfirst : (σ.vecs k).first with
  | none => rfl
  | some c =>
    have hcb : c ≠ b := fun hcb => hb k (hcb ▸ hfirst)
    exact Function.update_of_ne hcb _ _

theorem WellFormed.outside (h : σ.WellFormed sizeof) {b : ℕ} {cells : Option (List α)}
    (hlegal : σ.Legal sizeof (.outside b cells)) :
    (σ.act cxx20 sizeof (.outside b cells)).2.WellFormed sizeof ∧
      (σ.act cxx20 sizeof (.outside b cells)).2.contents = σ.contents := by
  have hblock := block_outside hlegal cells
  refine ⟨⟨fun k => wellFormed_of_block (h.each k) (hblock k), h.distinct⟩, ?_⟩
  funext k
  exact contents_of_block (hblock k)

theorem WellFormed.act (h : σ.WellFormed sizeof) (cxx20 : Bool) (hlegal : σ.Legal sizeof a) :
    (σ.act cxx20 sizeof a).2.WellFormed sizeof ∧
      Makes σ.heap σ.contents (σ.act cxx20 sizeof a).2.contents a (σ.act cxx20 sizeof a).1 := by
  cases a with
  | call i op grant => exact h.call hlegal
  | swap i j => exact ⟨h.swap i j, rfl⟩
  | assignRv i j => exact h.assignRv i j
  | destroy i => exact h.destroy i
  | outside b cells => exact h.outside hlegal

/-- Vectors that are all empty. -/
theorem wellFormed_empty (heap : Heap α) :
    (PodFamily.mk (fun _ => {}) heap).WellFormed sizeof where
  each := fun _ => (PodVector.has_empty fun _ _ hc => hc).wellFormed
  distinct := fun _ _ _ _ hb => nomatch hb

/-- In every run of legal actions, each action does on the elements what it does on lists. -/
theorem refines_lists (cxx20 : Bool) (sizeof : ℕ) (heap : Heap α) (as : List (PodAction α))
    (hlegal : Machine.Meets (step cxx20 sizeof) (Legal sizeof) as ⟨fun _ => {}, heap⟩) :
    Machine.Meets (step cxx20 sizeof) (Refines cxx20 sizeof) as ⟨fun _ => {}, heap⟩ := by
  have hboth : Machine.Meets (step cxx20 sizeof)
      (fun σ a => Legal sizeof σ a ∧ Refines cxx20 sizeof σ a) as ⟨fun _ => {}, heap⟩ := by
    refine (Machine.meets_iff_meets (I := WellFormed sizeof) ?_ ?_ (wellFormed_empty heap)).1 hlegal
    · intro σ a hσ
      refine ⟨fun hlegal => ⟨hlegal, ?_⟩, fun h => h.1⟩
      obtain ⟨hnext, hmakes⟩ := hσ.act cxx20 hlegal
      exact ⟨hmakes, hnext.sized⟩
    · rintro σ a σ' hσ ⟨hlegal, -⟩ hstep
      obtain rfl := Option.some.inj hstep
      exact (hσ.act cxx20 hlegal).1
  exact hboth.mono fun _ _ h => h.2

theorem legal_call {i : ℕ} {op : PodOp α} {grant : Option (Grant α)}
    (hop : ∀ block len, op ≠ .attachAbi block len)
    (hrange : op.InRange sizeof σ.heap (σ.contents i))
    (hgrant : Grant.Valid grant (σ.object i)) : Legal sizeof σ (.call i op grant) :=
  ⟨hrange, hgrant, fun b len h => absurd h (hop (some b) len)⟩

theorem valid_some {g : Grant α} {s : PodState α} (h : (s.heap g.block).isSome = false) :
    Grant.Valid (some g) s := by
  intro g' hg'
  cases hg'
  exact .inl (Option.isNone_iff_eq_none.1 (Option.isSome_eq_false_iff.1 h))

/-- Two vectors that grow, one in the middle, are exchanged, and an element is erased. -/
def growth : List (PodAction ℕ) :=
  [.call 0 (.emplaceBack 7) (some ⟨0, fun _ => 0⟩), .call 0 (.emplaceBack 8) (some ⟨1, fun _ => 0⟩),
    .call 0 (.insertFill 1 2 9) (some ⟨2, fun _ => 0⟩), .call 1 (.resize 1) (some ⟨3, fun _ => 5⟩),
    .swap 0 1, .call 1 (.erase 0) none]

theorem refines_lists_growth :
    Machine.Meets (step true 1) (Refines true 1) growth ⟨fun _ => {}, fun _ => none⟩ ∧
      ∃ σ, Machine.run (step true 1) growth ⟨fun _ => {}, fun _ => none⟩ = some σ ∧
        σ.contents 0 = [5] ∧ σ.contents 1 = [9, 9, 8] := by
  refine ⟨refines_lists true 1 _ _ ⟨?_, ?_, ?_, ?_, trivial, ?_, trivial⟩,
    _, rfl, by decide +kernel, by decide +kernel⟩
  · exact legal_call nofun (by decide +kernel : 0 + 1 ≤ PodVector.maxSize 1)
      (valid_some (by decide +kernel))
  · exact legal_call nofun (by decide +kernel : 1 + 1 ≤ PodVector.maxSize 1)
      (valid_some (by decide +kernel))
  · exact legal_call nofun
      (by decide +kernel : (0 ≤ (1 : ℤ) ∧ (1 : ℤ) ≤ 2) ∧ 2 + 2 ≤ PodVector.maxSize 1)
      (valid_some (by decide +kernel))
  · exact legal_call nofun (by decide +kernel : 1 ≤ PodVector.maxSize 1)
      (valid_some (by decide +kernel))
  · exact legal_call nofun (by decide +kernel : 0 ≤ (0 : ℤ) ∧ (0 : ℤ) < 4) nofun

end PodFamily

end Yasio
