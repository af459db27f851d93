import Mathlib.Algebra.Ring.Nat
import Mathlib.Data.List.Basic

/-!
# Splitting a text

`split_if_n` cuts the first characters of a zero-terminated text at a delimiter.  The search goes
on to the terminator, so the delimiter that it finds may lie behind the range.
-/

namespace Yasio

/-- What the predicate keeps between its calls, and the indices that are read. -/
structure SplitPass (τ : Type) where
  kept : τ
  reads : List ℕ := []

namespace SplitPass

variable {α τ : Type} [DecidableEq α] [Zero α]

/-- `strchr` on the memory behind a pointer: how far away the character is, and how many characters
are read.  There is nothing to read behind the end of the list. -/
def strchr (delim : α) : List α → Option ℕ × ℕ
  | [] => (none, 1)
  | x :: mem =>
    if x = delim then (some 0, 1)
    else if x = 0 then (none, 1)
    else ((strchr delim mem).1.map (· + 1), (strchr delim mem).2 + 1)

section

variable (mem : List α) (slen : ℕ) (delim : α) (pred : ℕ → ℕ → τ → Bool × τ)

/-- What follows the loop. -/
def splitLast (start : ℕ) (s : SplitPass τ) : SplitPass τ :=
  if start ≤ slen then { s with kept := (pred start slen s.kept).2 } else s

def splitLoop (ptr start : ℕ) (s : SplitPass τ) : SplitPass τ :=
  let found := strchr delim (mem.drop ptr)
  let s := { s with reads := s.reads ++ List.range' ptr found.2 }
  match found.1 with
  | none => splitLast slen pred start s
  | some n =>
    if _h : slen ≤ ptr + n then splitLast slen pred start s
    else
      let called := if start ≤ ptr + n then pred start (ptr + n) s.kept else (true, s.kept)
      let s := { s with kept := called.2 }
      if called.1 then splitLoop (ptr + n + 1) (ptr + n + 1) s else s
termination_by slen - ptr

/-- The predicate gets the first index of a piece and that behind it. -/
def splitIfN (kept : τ) : SplitPass τ := splitLoop mem slen delim pred 0 0 { kept }

/-- `split_n` -/
def splitN (func : ℕ → ℕ → τ → τ) (kept : τ) : SplitPass τ :=
  splitIfN mem slen delim (fun first last t => (true, func first last t)) kept

end

/-! ## The search -/

variable {delim : α} {text rest p : List α}

theorem strchr_append_cons (hdelim : delim ∉ p) (hzero : 0 ∉ p) (q : List α) :
    strchr delim (p ++ delim :: q) = (some p.length, p.length + 1) := by
  induction p with
  | nil => exact if_pos rfl
  | cons x p ih =>
    rw [List.mem_cons, not_or] at hdelim hzero
    rw [List.cons_append, strchr, if_neg (Ne.symm hdelim.1), if_neg (Ne.symm hzero.1),
      ih hdelim.2 hzero.2]
    rfl

/-- Nothing is read behind the terminator. -/
theorem strchr_reads_le (delim : α) (text rest : List α) :
    (strchr delim (text ++ 0 :: rest)).2 ≤ text.length + 1 := by
  induction text with
  | nil =>
    rw [List.nil_append, strchr]
    split
    · exact Nat.le_refl 1
    · rw [if_pos rfl]
      exact Nat.le_refl 1
  | cons x text ih =>
    rw [List.cons_append, strchr, List.length_cons]
    split
    · omega
    · split
      · omega
      · exact Nat.succ_le_succ ih

theorem le_of_strchr {n : ℕ} (hdelim : delim ∉ p) (h : (strchr delim (p ++ rest)).1 = some n) :
    p.length ≤ n := by
  induction p generalizing n with
  | nil => exact Nat.zero_le n
  | cons x p ih =>
    rw [List.mem_cons, not_or] at hdelim
    rw [List.cons_append, strchr, if_neg (Ne.symm hdelim.1)] at h
    split at h
    · cases h
    · obtain ⟨m, hm, rfl⟩ := Option.map_eq_some_iff.1 h
      exact Nat.succ_le_succ (ih hdelim.2 hm)

/-! ## The loop -/

/-- The first index of each piece and that behind it, when the first piece begins at `i`. -/
def spans : ℕ → List (List α) → List (ℕ × ℕ)
  | _, [] => []
  | i, p :: ps => (i, i + p.length) :: spans (i + p.length + 1) ps

/-- The predicate is called on one piece after the other until it returns false. -/
def untilFalse (pred : ℕ → ℕ → τ → Bool × τ) : List (ℕ × ℕ) → τ → τ
  | [], t => t
  | (first, last) :: ps, t =>
    if (pred first last t).1 then untilFalse pred ps (pred first last t).2
    else (pred first last t).2

section

variable {mem behind : List α} {slen ptr : ℕ} {pred : ℕ → ℕ → τ → Bool × τ} {s : SplitPass τ}

theorem splitLoop_found {n k : ℕ} (h : strchr delim (mem.drop ptr) = (some n, k))
    (hlt : ptr + n < slen) :
    splitLoop mem slen delim pred ptr ptr s =
      if (pred ptr (ptr + n) s.kept).1 then
        splitLoop mem slen delim pred (ptr + n + 1) (ptr + n + 1)
          { kept := (pred ptr (ptr + n) s.kept).2, reads := s.reads ++ List.range' ptr k }
      else { kept := (pred ptr (ptr + n) s.kept).2, reads := s.reads ++ List.range' ptr k } := by
  rw [splitLoop]
  simp only [h, dif_neg (Nat.not_le.2 hlt), if_pos (Nat.le_add_right ptr n)]

theorem splitLoop_last (h : ∀ n ∈ (strchr delim (mem.drop ptr)).1, slen ≤ ptr + n)
    (hle : ptr ≤ slen) :
    splitLoop mem slen delim pred ptr ptr s =
      { kept := (pred ptr slen s.kept).2,
        reads := s.reads ++ List.range' ptr (strchr delim (mem.drop ptr)).2 } := by
  rw [splitLoop]
  dsimp only
  split
  · exact if_pos hle
  · next n hn =>
    rw [dif_pos (h n hn)]
    exact if_pos hle

/-- The loop at the beginning of a piece. -/
theorem splitLoop_spec (hzero : 0 ∉ text) (front : List α)
    (hmem : mem = front ++ (text ++ (behind ++ 0 :: rest))) (s : SplitPass τ) :
    let slen := front.length + text.length
    let pass := splitLoop mem slen delim pred front.length front.length s
    pass.kept = untilFalse pred (spans front.length (text.splitOn delim)) s.kept ∧
      ∀ i ∈ pass.reads, i ∈ s.reads ∨ i ≤ slen + behind.length := by
  induction hn : text.length using Nat.strongRecOn generalizing text front s with
  | ind n ih =>
    subst hn
    intro slen pass
    have hdrop : mem.drop front.length = text ++ (behind ++ 0 :: rest) := by
      rw [hmem, List.drop_left]
    by_cases hdelim : delim ∈ text
    · obtain ⟨p, q, rfl, hp⟩ := List.eq_append_cons_of_mem hdelim
      rw [List.mem_append, List.mem_cons, not_or, not_or] at hzero
      have hsearch : strchr delim (mem.drop front.length) = (some p.length, p.length + 1) := by
        rw [hdrop, List.append_assoc, List.cons_append]
        exact strchr_append_cons hp hzero.1 _
      have hlen : slen = front.length + p.length + 1 + q.length := by
        simp only [slen, List.length_append, List.length_cons]
        omega
      have hreads : ∀ i ∈ s.reads ++ List.range' front.length (p.length + 1),
          i ∈ s.reads ∨ i ≤ slen + behind.length := by
        intro i hi
        refine (List.mem_append.1 hi).imp id fun hi => ?_
        have hrange := List.mem_range'_1.1 hi
        omega
      simp only [pass, splitLoop_found hsearch (by omega : front.length + p.length < slen)]
      rw [List.splitOn_append_cons_self_of_not_mem hp, spans, untilFalse]
      split
      · have hfront : (front ++ (p ++ [delim])).length = front.length + p.length + 1 := by
          simp [Nat.add_assoc]
        have hshort : q.length < (p ++ delim :: q).length := by
          rw [List.length_append, List.length_cons]
          omega
        have hrest := ih q.length hshort hzero.2.2 (front ++ (p ++ [delim])) (by simp [hmem])
          { kept := (pred front.length (front.length + p.length) s.kept).2
            reads := s.reads ++ List.range' front.length (p.length + 1) } rfl
        rw [hfront, ← hlen] at hrest
        exact ⟨hrest.1, fun i hi => (hrest.2 i hi).elim (hreads i) .inr⟩
      · exact ⟨rfl, hreads⟩
    · have hlast : ∀ n ∈ (strchr delim (mem.drop front.length)).1, slen ≤ front.length + n := by
        intro n hn
        rw [hdrop] at hn
        exact Nat.add_le_add_left (le_of_strchr hdelim hn) _
      have hcount : (strchr delim (mem.drop front.length)).2 ≤
          text.length + behind.length + 1 := by
        rw [hdrop, ← List.append_assoc, ← List.length_append]
        exact strchr_reads_le delim _ rest
      simp only [pass, splitLoop_last hlast (Nat.le_add_right _ _)]
      rw [List.splitOn_eq_singleton hdelim, spans, untilFalse]
      refine ⟨?_, fun i hi => (List.mem_append.1 hi).imp id fun hi => ?_⟩
      · split <;> rfl
      · have hrange := List.mem_range'_1.1 hi
        omega

end

/-! ## The pieces -/

/-- What is between two pointers. -/
def slice (mem : List α) (first last : ℕ) : List α := (mem.take last).drop first

omit [DecidableEq α] [Zero α] in
theorem slice_append (front p tail : List α) :
    slice (front ++ (p ++ tail)) front.length (front.length + p.length) = p := by
  unfold slice
  rw [← List.append_assoc, List.take_left' List.length_append, List.drop_left]

omit [DecidableEq α] [Zero α] in
theorem slice_spans (delim : α) {pieces : List (List α)} (front : List α) {tail mem : List α}
    (h : mem = front ++ ([delim].intercalate pieces ++ tail)) :
    (spans front.length pieces).map (fun span => slice mem span.1 span.2) = pieces := by
  induction pieces generalizing front with
  | nil => rfl
  | cons p pieces ih =>
    rw [spans, List.map_cons, List.cons.injEq]
    cases pieces with
    | nil =>
      rw [List.intercalate_singleton] at h
      exact ⟨by rw [h, slice_append], rfl⟩
    | cons q pieces =>
      rw [List.intercalate_cons_of_ne_nil (List.cons_ne_nil q pieces)] at h
      have hnext : (front ++ (p ++ [delim])).length = front.length + p.length + 1 := by
        rw [List.length_append, List.length_append, ← Nat.add_assoc]
        rfl
      have hrest := ih (front ++ (p ++ [delim])) (by rw [h]; simp only [List.append_assoc])
      rw [hnext] at hrest
      exact ⟨by rw [h, List.append_assoc, List.append_assoc, slice_append], hrest⟩

omit [Zero α] in
theorem notMem_of_mem_splitOn (hp : p ∈ text.splitOn delim) : delim ∉ p := by
  induction text generalizing p with
  | nil =>
    rw [List.mem_singleton.1 hp]
    exact List.not_mem_nil
  | cons x text ih =>
    obtain ⟨q, ps, hsplit⟩ := List.exists_cons_of_ne_nil (List.splitOn_ne_nil delim text)
    rw [List.splitOn_cons_eq_if_modifyHead, hsplit] at hp
    rw [hsplit] at ih
    split at hp
    · rcases List.mem_cons.1 hp with rfl | hp
      · exact List.not_mem_nil
      · exact ih hp
    · next hx =>
      rw [List.modifyHead_cons] at hp
      rcases List.mem_cons.1 hp with rfl | hp
      · have hq := ih List.mem_cons_self
        rw [List.mem_cons, not_or]
        exact ⟨fun h => hx (beq_iff_eq.2 h.symm), hq⟩
      · exact ih (List.mem_cons_of_mem q hp)

theorem splitIfN_spec (hzero : 0 ∉ text) (rest : List α) {slen : ℕ} (hle : slen ≤ text.length)
    (delim : α) (pred : ℕ → ℕ → τ → Bool × τ) (kept : τ) :
    let pass := splitIfN (text ++ 0 :: rest) slen delim pred kept
    pass.kept = untilFalse pred (spans 0 ((text.take slen).splitOn delim)) kept ∧
      ∀ i ∈ pass.reads, i ≤ text.length := by
  have hmem : text ++ 0 :: rest = [] ++ (text.take slen ++ (text.drop slen ++ 0 :: rest)) := by
    rw [List.nil_append, ← List.append_assoc, List.take_append_drop]
  have hlen : (text.take slen).length = slen := List.length_take_of_le hle
  have hrange : 0 ∉ text.take slen := fun h => hzero (List.mem_of_mem_take h)
  have hspec : _ ∧ ∀ i ∈ (splitLoop _ _ delim pred _ _ _).reads, _ :=
    splitLoop_spec hrange [] hmem { kept }
  simp only [hlen, List.length_nil, Nat.zero_add, List.length_drop,
    Nat.add_sub_cancel' hle] at hspec
  exact ⟨hspec.1, fun i hi => (hspec.2 i hi).elim (fun h => absurd h List.not_mem_nil) id⟩

theorem untilFalse_true (func : ℕ → ℕ → τ → τ) (ps : List (ℕ × ℕ)) (t : τ) :
    untilFalse (fun first last t => (true, func first last t)) ps t =
      ps.foldl (fun t span => func span.1 span.2 t) t := by
  induction ps generalizing t with
  | nil => rfl
  | cons span ps ih =>
    rw [untilFalse, if_pos rfl, List.foldl_cons]
    exact ih _

omit [DecidableEq α] [Zero α] in
theorem bounds_of_mem_spans (delim : α) {pieces : List (List α)} {i : ℕ} {span : ℕ × ℕ}
    (h : span ∈ spans i pieces) :
    span.1 ≤ span.2 ∧ span.2 ≤ i + ([delim].intercalate pieces).length := by
  induction pieces generalizing i with
  | nil => cases h
  | cons p pieces ih =>
    cases pieces with
    | nil =>
      rw [spans, spans, List.mem_singleton] at h
      rw [h, List.intercalate_singleton]
      exact ⟨Nat.le_add_right i p.length, Nat.le_refl _⟩
    | cons q pieces =>
      rw [List.intercalate_cons_of_ne_nil (List.cons_ne_nil q pieces), List.length_append,
        List.length_append, List.length_singleton]
      rcases List.mem_cons.1 h with rfl | h
      · dsimp only
        omega
      · have hrest := ih h
        omega

/-- What each call of the predicate keeps holds in the end, whatever the memory is. -/
theorem splitLoop_induction {mem : List α} {slen : ℕ} {pred : ℕ → ℕ → τ → Bool × τ} (I : τ → Prop)
    (hpred : ∀ first last t, I t → I (pred first last t).2) (ptr start : ℕ) (s : SplitPass τ)
    (h : I s.kept) : I (splitLoop mem slen delim pred ptr start s).kept := by
  have hlast : ∀ start (t : SplitPass τ), I t.kept → I (splitLast slen pred start t).kept := by
    intro start t ht
    unfold splitLast
    split
    · exact hpred _ _ _ ht
    · exact ht
  induction hn : slen - ptr using Nat.strongRecOn generalizing ptr start s with
  | ind n ih =>
    subst hn
    rw [splitLoop]
    dsimp only
    split
    · exact hlast start _ h
    · next n _ =>
      split
      · exact hlast start _ h
      · next hlt =>
        have hcalled : I (if start ≤ ptr + n then pred start (ptr + n) s.kept
            else (true, s.kept)).2 := by
          split
          · exact hpred _ _ _ h
          · exact h
        generalize (if start ≤ ptr + n then pred start (ptr + n) s.kept
          else (true, s.kept)) = called at hcalled ⊢
        split
        · exact ih (slen - (ptr + n + 1)) (by omega) _ _ _ hcalled rfl
        · exact hcalled

theorem splitN_induction {mem : List α} {slen : ℕ} {func : ℕ → ℕ → τ → τ} (I : τ → Prop)
    (hfunc : ∀ first last t, I t → I (func first last t)) {kept : τ} (h : I kept) :
    I (splitN mem slen delim func kept).kept :=
  splitLoop_induction I hfunc 0 0 { kept } h

/-- A function of the pieces is called on each of them. -/
theorem splitN_kept (hzero : 0 ∉ text) (rest : List α) {slen : ℕ} (hle : slen ≤ text.length)
    (delim : α) (func : ℕ → ℕ → τ → τ) (f : τ → List α → τ) (kept : τ)
    (hfunc : ∀ first last t, first ≤ last → last ≤ slen →
      func first last t = f t (slice (text ++ 0 :: rest) first last)) :
    (splitN (text ++ 0 :: rest) slen delim func kept).kept =
      ((text.take slen).splitOn delim).foldl f kept := by
  have hmem : text ++ 0 :: rest = [] ++ ([delim].intercalate ((text.take slen).splitOn delim) ++
      (text.drop slen ++ 0 :: rest)) := by
    rw [List.intercalate_splitOn, List.nil_append, ← List.append_assoc, List.take_append_drop]
  have hbounds : ∀ span ∈ spans 0 ((text.take slen).splitOn delim),
      span.1 ≤ span.2 ∧ span.2 ≤ slen := by
    intro span hspan
    have hspan := bounds_of_mem_spans delim hspan
    rwa [List.intercalate_splitOn, List.length_take_of_le hle, Nat.zero_add] at hspan
  have hslices := slice_spans delim [] hmem
  rw [List.length_nil] at hslices
  rw [splitN, (splitIfN_spec hzero rest hle delim _ kept).1, untilFalse_true]
  conv_rhs => rw [← hslices, List.foldl_map]
  exact List.foldl_ext _ _ _ fun t span hspan =>
    hfunc _ _ t (hbounds span hspan).1 (hbounds span hspan).2

/-- The range is cut at each delimiter in it, the pieces are shown to the predicate one after the
other until it returns false, and nothing behind the terminator is read. -/
theorem splitIfN_pieces (hzero : 0 ∉ text) (rest : List α) {slen : ℕ} (hle : slen ≤ text.length)
    (delim : α) (pred : ℕ → ℕ → τ → Bool × τ) (kept : τ) :
    let mem := text ++ 0 :: rest
    let pass := splitIfN mem slen delim pred kept
    ∃ pieces : List (List α),
      pieces ≠ [] ∧ (∀ p ∈ pieces, delim ∉ p) ∧ [delim].intercalate pieces = text.take slen ∧
      (spans 0 pieces).map (fun span => slice mem span.1 span.2) = pieces ∧
      pass.kept = untilFalse pred (spans 0 pieces) kept ∧ ∀ i ∈ pass.reads, i ≤ text.length := by
  intro mem pass
  obtain ⟨hkept, hreads⟩ := splitIfN_spec hzero rest hle delim pred kept
  have hmem : mem = [] ++ ([delim].intercalate ((text.take slen).splitOn delim) ++
      (text.drop slen ++ 0 :: rest)) := by
    rw [List.intercalate_splitOn, List.nil_append, ← List.append_assoc, List.take_append_drop]
  exact ⟨(text.take slen).splitOn delim, List.splitOn_ne_nil _ _, fun p => notMem_of_mem_splitOn,
    List.intercalate_splitOn _, slice_spans delim [] hmem, hkept, hreads⟩

/-- The fields of a line, the second of them empty. -/
theorem splitIfN_pieces_fields :
    let mem : List ℕ := [7, 9, 9, 8] ++ 0 :: [9]
    let pass := splitIfN mem 4 9 (fun first last spans => (true, spans ++ [(first, last)])) []
    ∃ pieces : List (List ℕ),
      pieces ≠ [] ∧ (∀ p ∈ pieces, 9 ∉ p) ∧ [9].intercalate pieces = [7, 9, 9, 8] ∧
      (spans 0 pieces).map (fun span => slice mem span.1 span.2) = pieces ∧
      pass.kept = untilFalse (fun first last spans => (true, spans ++ [(first, last)]))
        (spans 0 pieces) [] ∧ ∀ i ∈ pass.reads, i ≤ 4 :=
  splitIfN_pieces (by decide : 0 ∉ [7, 9, 9, 8]) [9] (Nat.le_refl 4) 9 _ []

end SplitPass

end Yasio
