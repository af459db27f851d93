import Yasio.StringReplaceAll
import Mathlib.Data.Set.Basic

/-!
# What `replace` and `replace_all` make of the text

A call of `replace` that does not fit throws or does something undefined, and what is undefined
stays on the record.  So a string is spliced, and rewritten, exactly when each replacement fits.
-/

namespace Yasio

open Throwing (wp wp_pure wp_bind wp_get wp_set wp_modify Holds)
open PodVector (sizeT maxSize calculateGrowth)

variable {α β γ : Type} {s : StringState α} {d : List α}

/-! ## Faults stay on the record -/

section

variable {m : Stringing α β} {offset target source n : ℕ}

namespace BasicString

/-- What has happened stays on the record. -/
abbrev Lasting (m : Stringing α β) : Prop := Holds (fun s => s.faults ≠ []) (fun _ => True) m

/-- The call throws, or something undefined has happened. -/
def Stains (m : Stringing α β) (s : StringState α) : Prop :=
  wp m (fun _ t => t.faults ≠ []) (fun _ _ => True) s

theorem Lasting.bind {f : β → Stringing α γ} (h : Lasting m) (hf : ∀ b, Lasting (f b)) :
    Lasting (m >>= f) := Holds.bind h fun b _ => hf b

theorem lasting_pure (b : β) : Lasting (pure b : Stringing α β) := Holds.pure trivial

theorem lasting_get_bind {f : StringState α → Stringing α γ} (hf : ∀ s, Lasting (f s)) :
    Lasting (get >>= f) := Holds.bind Holds.get fun s _ => hf s

theorem lasting_onVec (m : Podding α β) : Lasting (onVec m) := Holds.zoom fun _ _ hs => hs

theorem lasting_mark (fault : StringFault) (cond : Prop) [Decidable cond] :
    Lasting (mark fault cond : Stringing α Unit) := by
  apply Holds.modify
  intro s hs
  split
  · exact List.cons_ne_nil _ _
  · exact hs

theorem Lasting.stains (h : Lasting m) (hs : s.faults ≠ []) : Stains m s :=
  Holds.wp h hs (fun _ _ _ ht => ht) fun _ _ _ => trivial

theorem Stains.bind {f : β → Stringing α γ} (h : Stains m s) (hf : ∀ b, Lasting (f b)) :
    Stains (m >>= f) s := by
  unfold Stains
  rw [wp_bind]
  exact h.mono fun b t ht => (hf b).stains ht

theorem stains_mark {fault : StringFault} {cond : Prop} [Decidable cond] (hcond : cond) :
    Stains (mark fault cond) s := by
  unfold Stains mark
  rw [wp_modify, if_pos hcond]
  exact List.cons_ne_nil _ _

theorem lasting_write (offset : ℕ) (d : List α) : Lasting (write offset d) :=
  lasting_get_bind fun _ => (lasting_mark _ _).bind fun _ => lasting_onVec _

theorem stains_write (hd : d ≠ []) (hlt : s.cells.length < offset + d.length) :
    Stains (write offset d) s := by
  unfold Stains write
  rw [wp_bind, wp_get]
  exact (stains_mark ⟨hd, hlt⟩).bind fun _ => lasting_onVec _

variable [Zero α]

theorem lasting_read (offset n : ℕ) : Lasting (read offset n : Stringing α (List α)) :=
  lasting_get_bind fun _ => (lasting_mark _ _).bind fun _ => lasting_pure _

theorem lasting_move (target source n : ℕ) : Lasting (move target source n : Stringing α Unit) :=
  (lasting_read _ _).bind fun _ => lasting_write _ _

theorem lasting_copy (target source n : ℕ) : Lasting (copy target source n : Stringing α Unit) :=
  (lasting_mark _ _).bind fun _ => lasting_move _ _ _

theorem lasting_readText (k n : ℕ) (text : StringText α) : Lasting (readText k n text) := by
  cases text with
  | outside d => exact (lasting_mark _ _).bind fun _ => lasting_pure _
  | own start count => exact lasting_read _ _

theorem lasting_copyText (target k n : ℕ) (text : StringText α) :
    Lasting (copyText target k n text) := by
  cases text with
  | outside d => exact (lasting_readText _ _ _).bind fun _ => lasting_write _ _
  | own start count => exact lasting_copy _ _ _

theorem lasting_staleText (text : StringText α) : Lasting (staleText text) := by
  cases text with
  | outside d => exact lasting_pure _
  | own start count => exact (lasting_mark _ _).bind fun _ => lasting_pure _

/-- A move from or to cells that are not there. -/
theorem stains_move (hn : n ≠ 0)
    (h : s.cells.length < source + n ∨ s.cells.length < target + n) :
    Stains (move target source n) s := by
  by_cases hread : s.cells.length < source + n
  · have hmark : Stains (read source n) s := by
      unfold Stains read
      rw [wp_bind, wp_get]
      exact (stains_mark ⟨hn, hread⟩).bind fun _ => lasting_pure _
    exact hmark.bind fun _ => lasting_write _ _
  · unfold Stains move read mark
    rw [wp_bind, wp_bind, wp_get, wp_bind, wp_modify, if_neg fun hboth => hread hboth.2, wp_pure]
    apply stains_write
    · intro hnil
      have hlen := length_loaded s.cells source n
      rw [hnil] at hlen
      exact hn hlen.symm
    · rw [length_loaded]
      exact h.resolve_left hread

/-- A copy between ranges that overlap, or to cells that are not there. -/
theorem stains_copy (hn : n ≠ 0)
    (h : (source < target + n ∧ target < source + n) ∨ s.cells.length < target + n) :
    Stains (copy target source n) s := by
  by_cases hover : source < target + n ∧ target < source + n
  · exact (stains_mark hover).bind fun _ => lasting_move _ _ _
  · unfold Stains copy mark
    rw [wp_bind, wp_modify, if_neg hover]
    exact stains_move hn (.inr (h.resolve_left hover))

variable {sizeof off nx growth : ℕ} {grant : Option (Grant α)} {text : StringText α}

omit [Zero α] in
theorem lasting_verifyRange (cond : Prop) [Decidable cond] :
    Lasting (verifyRange cond : Stringing α Unit) := lasting_onVec _

theorem lasting_reallocateGrowBy :
    Lasting (reallocateGrowBy sizeof grant growth off nx text) := by
  refine Holds.bind Holds.get fun s hs => ?_
  dsimp only
  split
  · exact Holds.throw _
  · refine Holds.bind (Holds.set hs) fun _ _ => ?_
    exact (lasting_copy _ _ _).bind fun _ => (lasting_staleText _).bind fun _ => lasting_write _ _

theorem lasting_replace : Lasting (replace sizeof grant off nx text) := by
  refine lasting_get_bind fun s => (lasting_verifyRange _).bind fun _ => ?_
  dsimp only
  split
  · exact (lasting_readText _ _ _).bind fun _ => lasting_write _ _
  · split
    · exact (lasting_readText _ _ _).bind fun _ => (lasting_write _ _).bind fun _ =>
        (lasting_move _ _ _).bind fun _ => lasting_onVec _
    · split
      · exact (lasting_onVec _).bind fun _ => (lasting_move _ _ _).bind fun _ =>
          (lasting_readText _ _ _).bind fun _ => (lasting_write _ _).bind fun _ =>
            lasting_copyText _ _ _ _
      · exact lasting_reallocateGrowBy

/-! ## Calls that do not fit -/

omit [Zero α] in
/-- One element more than `max_size()` takes so many bytes that hardly any are left of them in a
`size_t`. -/
theorem bytes_maxSize_succ (hpos : 0 < maxSize sizeof) :
    sizeT (maxSize sizeof + 1 : ℕ) * sizeof % 2 ^ 64 < sizeof := by
  have hsizeof : 0 < sizeof := PodVector.sizeof_pos hpos (Nat.le_refl _)
  have hle : sizeof ≤ 2 ^ 64 - 1 := Nat.div_pos_iff.1 hpos |>.2
  have hrem : (2 ^ 64 - 1) % sizeof < sizeof := Nat.mod_lt _ hsizeof
  have hsplit : maxSize sizeof * sizeof + (2 ^ 64 - 1) % sizeof = 2 ^ 64 - 1 :=
    Nat.div_add_mod' _ _
  have hmul : (maxSize sizeof + 1) * sizeof = maxSize sizeof * sizeof + sizeof := Nat.succ_mul _ _
  have hsum : sizeT (maxSize sizeof + 1 : ℕ) = (maxSize sizeof + 1) % 2 ^ 64 := by
    unfold sizeT
    omega
  rw [hsum, Nat.mul_mod, Nat.mod_mod, ← Nat.mul_mod, hmul]
  omega

omit [Zero α] in
/-- The block that `_Reallocate_grow_by` goes on with has no cells, or is null. -/
theorem cells_reallocBlock {heap : Heap α} {block : Option ℕ} {newSize : ℕ}
    (h : grant = none ∨ newSize * sizeof % 2 ^ 64 < sizeof) :
    ((reallocBlock sizeof heap block newSize grant).1.bind
      (reallocBlock sizeof heap block newSize grant).2).getD [] = [] := by
  unfold reallocBlock
  dsimp only
  split
  · rfl
  · cases grant with
    | none => rfl
    | some g =>
      have hzero : newSize * sizeof % 2 ^ 64 / sizeof = 0 :=
        Nat.div_eq_of_lt (h.resolve_left nofun)
      dsimp only
      rw [hzero, List.take_zero, Nat.zero_sub, Option.bind_some, Function.update_self]
      rfl

variable {rest : Heap α} {allowed : Set StringFault} {ends : Prop}

theorem stains_reallocateGrowBy (h : s.Sound sizeof rest allowed ends) (hlen : nx < text.length)
    (hgrowth : growth = text.length - nx) (hoff : off + nx ≤ s.vec.size) (hpos : 0 < s.vec.size)
    (hsum : s.vec.size + growth ≤ maxSize sizeof)
    (hnot : ¬ (calculateGrowth sizeof s.vec.res (s.vec.size + growth) + 1 ≤ maxSize sizeof ∧
      grant.isSome ∧ s.vec.size - nx - off + 1 ≤ growth)) :
    Stains (reallocateGrowBy sizeof grant growth off nx text) s := by
  have hlimit : maxSize sizeof ≤ 2 ^ 64 - 1 := Nat.div_le_self _ _
  have hmax := PodVector.calculateGrowth_le h.res_le_max hsum
  have hnothrow : ¬ sizeT ((maxSize sizeof : Int) - s.vec.size) < growth := by
    unfold sizeT
    omega
  unfold Stains reallocateGrowBy
  rw [wp_bind, wp_get]
  dsimp only
  rw [if_neg hnothrow, wp_bind, wp_set]
  refine Stains.bind (stains_copy (Nat.succ_ne_zero _) ?_) fun _ =>
    (lasting_staleText _).bind fun _ => lasting_write _ _
  by_cases hover : s.vec.size - nx - off + 1 ≤ growth
  · right
    have hfails : grant = none ∨ sizeT (calculateGrowth sizeof s.vec.res (s.vec.size + growth) + 1 :
        ℕ) * sizeof % 2 ^ 64 < sizeof := by
      cases grant with
      | none => exact .inl rfl
      | some g =>
        right
        have hfull : calculateGrowth sizeof s.vec.res (s.vec.size + growth) = maxSize sizeof := by
          by_contra hne
          exact hnot ⟨by omega, rfl, hover⟩
        rw [hfull]
        exact bytes_maxSize_succ (by omega)
    have hempty := congrArg List.length
      (cells_reallocBlock hfails : ((reallocBlock sizeof s.heap s.vec.first _ grant).1.bind _).getD
        [] = [])
    change (((reallocBlock _ _ _ _ _).1.bind (reallocBlock _ _ _ _ _).2).getD []).length < _
    rw [hempty, List.length_nil]
    omega
  · left
    omega

/-- Only a call that fits returns with nothing undefined. -/
theorem stains_replace (h : s.Sound sizeof rest allowed ends)
    (hnot : ¬ s.shape.Fits sizeof off nx ∅ grant.isSome (.outside d)) :
    Stains (replace sizeof grant off nx (.outside d)) s := by
  by_cases hthrows : s.shape.Throws sizeof off nx (StringText.outside d).length
  · exact wp_replace_throws h hthrows fun _ => trivial
  have hlimit : maxSize sizeof ≤ 2 ^ 64 - 1 := Nat.div_le_self _ _
  have hmax := h.res_le_max
  have hsize := h.size_le
  have hres := h.res_le
  have hroom : sizeT ((s.vec.res : Int) - s.vec.size) = s.vec.res - s.vec.size := by
    unfold sizeT
    omega
  have htaken : s.shape.taken off nx = min nx (s.vec.size - off) := rfl
  obtain ⟨hoff, hshort⟩ := not_or.1 hthrows
  have hlt : off < s.vec.size := Nat.not_le.1 hoff
  have hcount : (StringText.outside d).length = d.length := rfl
  simp only [StringState.shape_size, StringState.shape_res, StringShape.growth, hcount] at hshort
  have hle : off + s.shape.taken off nx ≤ s.vec.size := by omega
  unfold Stains replace
  rw [wp_bind, wp_get, wp_bind]
  dsimp only
  apply wp_verifyRange hlt
  rw [← htaken, hroom, hcount]
  split
  · next hsame =>
    refine absurd ⟨hlt, fun hshrink => ?_, fun hgrow => ?_, fun hgrow => ?_⟩ hnot
    · omega
    · omega
    · simp only [StringShape.growth, hcount] at hgrow
      omega
  · next hne =>
    split
    · next hshrink =>
      have hcells : s.cells.length ≤ s.vec.size := by
        by_contra hcells
        refine hnot ⟨hlt, fun _ => .inr (Nat.not_le.1 hcells), fun hgrow => ?_, fun hgrow => ?_⟩
        · omega
        · simp only [StringShape.growth, hcount] at hgrow
          omega
      -- The suffix is read up to the terminator, for which there is no cell.
      rw [wp_bind]
      change wp (readText 0 (StringText.outside d).length (.outside d)) _ _ s
      refine wp_readText_all h.is ?_ ?_
      · simp
      intro t d' hd' _ ht
      rw [wp_bind]
      apply wp_write ht (.inr (by rw [hd', hcount]; omega))
      intro u hu
      have hlen : u.cells.length = s.cells.length := by
        rw [hu.keeps.cells_eq, Memory.length_overwrite (by rw [hd', hcount]; omega)]
      exact (stains_move (Nat.succ_ne_zero _) (.inl (by rw [hlen]; omega))).bind
        fun _ => lasting_onVec _
    · next hgrow =>
      split
      · next hfits =>
        have hcells : s.cells.length ≤ s.vec.size + (d.length - s.shape.taken off nx) := by
          by_contra hcells
          refine hnot ⟨hlt, fun hshrink => ?_, fun _ _ => ⟨?_, Nat.le_refl _⟩, fun hfull => ?_⟩
          · omega
          · exact Nat.not_le.1 hcells
          · exact absurd hfits (Nat.not_le.2 hfull)
        -- The terminator moves to a cell behind the block.
        rw [wp_bind]
        apply wp_setSize h.is
        intro t ht
        have hlen : t.cells.length = s.cells.length := congrArg List.length ht.keeps.cells_eq
        refine (stains_move (Nat.succ_ne_zero _) (.inr (by rw [hlen]; omega))).bind fun _ => ?_
        exact (lasting_readText _ _ _).bind fun _ => (lasting_write _ _).bind fun _ =>
          lasting_copyText _ _ _ _
      · next hfull =>
        refine stains_reallocateGrowBy h (by omega) rfl hle (by omega) (by omega) ?_
        rintro ⟨hcap, hsome, hover⟩
        refine hnot ⟨hlt, fun hshrink => ?_, fun _ hfits => ?_,
          fun _ => ⟨?_, hcap, hsome, .inr hover⟩⟩
        · omega
        · exact absurd hfits hfull
        · simp only [StringState.shape_size, StringShape.growth, hcount]
          omega

/-! ## The loop of `replace_all` -/

variable [DecidableEq α] {grants : ℕ → Option (Grant α)} {fromText toText l : List α}
  {fuel hints pos i : ℕ}

theorem lasting_replaceAllLoop :
    Lasting (replaceAllLoop sizeof grants fromText toText fuel hints pos) := by
  induction fuel generalizing hints pos with
  | zero => exact lasting_pure _
  | succ fuel ih =>
    refine lasting_get_bind fun s => ?_
    split
    · exact lasting_pure _
    · exact lasting_replace.bind fun _ => (lasting_mark _ _).bind fun _ => ih

end BasicString

end

/-- A string that is sound, has done nothing undefined so far, and is alone on the heap. -/
def StringState.Clean [Zero α] (sizeof : ℕ) (s : StringState α) : Prop :=
  s.Sound sizeof (fun _ => none) ∅ False

/-- Each of the replacements fits, with nothing undefined. -/
def EachFits [DecidableEq α] (sizeof : ℕ) (grants : ℕ → Option (Grant α)) (fromText toText : List α)
    (hints : ℕ) (w : StringShape) (pos : ℕ) (l : List α) : Prop :=
  ∀ fuel, EachReplacement sizeof fromText toText
    (fun k w off => w.Fits sizeof off fromText.length ∅ (grants k).isSome (.outside toText))
    fuel hints w pos l

section

variable [DecidableEq α] {sizeof off nx : ℕ} {grants : ℕ → Option (Grant α)}
  {fromText toText l : List α} {fuel hints pos i : ℕ} {w : StringShape}

omit [DecidableEq α] in
theorem StringShape.Fits.not_throws {allowed : Set StringFault} {granted : Prop}
    {text : StringText α} (h : w.Fits sizeof off nx allowed granted text) :
    ¬ w.Throws sizeof off nx text.length := by
  rintro (hoff | ⟨hgrow, hlong⟩)
  · exact absurd h.off_lt (Nat.not_lt.2 hoff)
  · exact absurd (h.reallocates hgrow).1 (Nat.not_le.2 hlong)

theorem eachFits_of_none (h : Text.occurrence fromText l = none) :
    EachFits sizeof grants fromText toText hints w pos l := by
  intro fuel
  cases fuel with
  | zero => trivial
  | succ fuel =>
    unfold EachReplacement
    rw [h]
    trivial

theorem eachFits_of_some (h : Text.occurrence fromText l = some i) :
    EachFits sizeof grants fromText toText hints w pos l ↔
      w.Fits sizeof (pos + i) fromText.length ∅ (grants hints).isSome (.outside toText) ∧
        EachFits sizeof grants fromText toText (hints + 1)
          (w.replaced sizeof (pos + i) fromText.length toText.length)
          (pos + i + stride fromText toText)
          (l.drop (i + fromText.length + if fromText = [] then 1 else 0)) := by
  have hstep : ∀ fuel, EachReplacement sizeof fromText toText
      (fun k w off => w.Fits sizeof off fromText.length ∅ (grants k).isSome (.outside toText))
      (fuel + 1) hints w pos l ↔ _ := fun fuel => by rw [EachReplacement, h]
  constructor
  · intro heach
    have hfits := ((hstep 0).1 (heach 1)).1
    refine ⟨hfits, fun fuel => ?_⟩
    exact ((hstep fuel).1 (heach (fuel + 1))).2.resolve_left hfits.not_throws
  · rintro ⟨hfits, hrest⟩ fuel
    cases fuel with
    | zero => trivial
    | succ fuel => exact (hstep fuel).2 ⟨hfits, .inr (hrest fuel)⟩

variable [Zero α]

omit [DecidableEq α] in
theorem StringState.Clean.faults_eq (h : s.Clean sizeof) : s.faults = [] :=
  List.eq_nil_iff_forall_not_mem.2 fun fault hfault => h.faults fault hfault

namespace BasicString

theorem stains_iteration (h : s.Clean sizeof) (hpos : pos ≤ s.vec.size)
    (hfound : Text.occurrence fromText (s.contents.drop pos) = some i)
    (hnot : ¬ (s.shape.Fits sizeof (pos + i) fromText.length ∅ (grants hints).isSome
      (.outside toText) ∧ ¬ hints + 1 = 2 ^ 31)) :
    Stains (replaceAllLoop sizeof grants fromText toText (fuel + 1) hints pos) s := by
  unfold Stains
  rw [wp_replaceAllLoop_iff h hpos, hfound]
  dsimp only
  by_cases hfits : s.shape.Fits sizeof (pos + i) fromText.length ∅ (grants hints).isSome
      (.outside toText)
  · rw [wp_bind]
    apply wp_replace h hfits nofun fun _ _ => rfl
    intro t ht _ _
    have hover : hints + 1 = 2 ^ 31 := by
      by_contra hover
      exact hnot ⟨hfits, hover⟩
    exact (stains_mark hover).bind fun _ => lasting_replaceAllLoop
  · exact (stains_replace h hfits).bind fun _ => (lasting_mark _ _).bind
      fun _ => lasting_replaceAllLoop

/-- The loop for the empty text comes to the end of the string, where `replace` throws. -/
theorem wp_replaceAllLoop_nil (h : s.Clean sizeof) (hpos : pos ≤ s.vec.size) :
    wp (replaceAllLoop sizeof grants [] toText fuel hints pos)
      (fun r t => r = none ∨ t.faults ≠ []) (fun _ _ => True) s := by
  induction fuel generalizing hints pos s with
  | zero => exact .inl rfl
  | succ fuel ih =>
    have hfound := Text.occurrence_nil_left (s.contents.drop pos)
    by_cases hfits : s.shape.Fits sizeof (pos + 0) ([] : List α).length ∅ (grants hints).isSome
        (.outside toText) ∧ ¬ hints + 1 = 2 ^ 31
    · apply wp_replaceAllLoop_of_fits h hpos hfound hfits.1 (fun _ _ => rfl) (.inr hfits.2)
      exact fun t ht _ _ hstride => ih ht hstride
    · exact (stains_iteration h hpos hfound hfits).mono fun _ _ ht => .inr ht

/-- A loop in which a replacement does not fit, or `hints` runs over. -/
theorem wp_replaceAllLoop_of_not (h : s.Clean sizeof) (hpos : pos ≤ s.vec.size)
    (hne : fromText ≠ []) (hhints : hints < 2 ^ 31)
    (hnot : ¬ (EachFits sizeof grants fromText toText hints s.shape pos (s.contents.drop pos) ∧
      hints + Text.occurrences fromText (s.contents.drop pos) < 2 ^ 31)) :
    wp (replaceAllLoop sizeof grants fromText toText fuel hints pos)
      (fun r t => r = none ∨ t.faults ≠ []) (fun _ _ => True) s := by
  induction fuel generalizing hints pos s with
  | zero => exact .inl rfl
  | succ fuel ih =>
    cases hfound : Text.occurrence fromText (s.contents.drop pos) with
    | none =>
      refine absurd ⟨eachFits_of_none hfound, ?_⟩ hnot
      rwa [Text.occurrences_of_none hne hfound]
    | some i =>
      by_cases hfits : s.shape.Fits sizeof (pos + i) fromText.length ∅ (grants hints).isSome
          (.outside toText) ∧ ¬ hints + 1 = 2 ^ 31
      · apply wp_replaceAllLoop_of_fits h hpos hfound hfits.1 (fun _ _ => rfl) (.inr hfits.2)
        intro t ht hshape hcontents hstride
        have hdrop := drop_stride h hpos hfound hcontents
        have hrest : t.contents.drop (pos + i + stride fromText toText) =
            (s.contents.drop pos).drop (i + fromText.length) := by
          rw [hdrop, if_neg hne]
          rfl
        refine ih ht hstride (by omega) ?_
        rintro ⟨heach, hcount⟩
        rw [hshape, hdrop] at heach
        rw [hrest] at hcount
        refine hnot ⟨(eachFits_of_some hfound).2 ⟨hfits.1, heach⟩, ?_⟩
        rw [Text.occurrences_of_some hne hfound]
        omega
      · exact (stains_iteration h hpos hfound hfits).mono fun _ _ ht => .inr ht

/-- The loop that replaces all occurrences. -/
theorem wp_replaceAllLoop_rewrite (h : s.Clean sizeof) (hpos : pos ≤ s.vec.size)
    (hne : fromText ≠ [])
    (heach : EachFits sizeof grants fromText toText hints s.shape pos (s.contents.drop pos))
    (hcount : hints + Text.occurrences fromText (s.contents.drop pos) < 2 ^ 31)
    (hfuel : Text.occurrences fromText (s.contents.drop pos) < fuel) :
    wp (replaceAllLoop sizeof grants fromText toText fuel hints pos)
      (fun r t => r = some (hints + Text.occurrences fromText (s.contents.drop pos)) ∧
        t.contents = s.contents.take pos ++ Text.rewrite fromText toText (s.contents.drop pos) ∧
        t.faults = []) (fun _ _ => False) s := by
  induction fuel generalizing hints pos s with
  | zero => exact absurd hfuel (Nat.not_lt_zero _)
  | succ fuel ih =>
    cases hfound : Text.occurrence fromText (s.contents.drop pos) with
    | none =>
      rw [wp_replaceAllLoop_iff h hpos, hfound, Text.occurrences_of_none hne hfound,
        Text.rewrite_of_none hne hfound]
      exact ⟨rfl, (List.take_append_drop _ _).symm, h.faults_eq⟩
    | some i =>
      obtain ⟨hfits, hrest⟩ := (eachFits_of_some hfound).1 heach
      rw [Text.occurrences_of_some hne hfound] at hcount hfuel ⊢
      apply wp_replaceAllLoop_of_fits h hpos hfound hfits (fun _ _ => rfl) (.inr (by omega))
      intro t ht hshape hcontents hstride
      have hdrop := drop_stride h hpos hfound hcontents
      rw [← hshape, ← hdrop] at hrest
      rw [if_neg hne, Nat.add_zero] at hdrop
      rw [← hdrop] at hcount hfuel ⊢
      refine (ih ht hstride hrest (by omega) (by omega)).mono ?_
      rintro r u ⟨hr, hu, hfaults⟩
      refine ⟨?_, ?_, hfaults⟩
      · rw [hr]
        congr 1
        omega
      · have hoff : pos + i ≤ s.contents.length := by
          rw [h.length_contents]
          exact Nat.le_of_lt hfits.off_lt
        have hfront : t.contents.take (pos + i + stride fromText toText) =
            s.contents.take (pos + i) ++ toText := by
          unfold stride
          rw [hcontents, if_neg hne, Nat.add_zero, take_splice hoff]
        rw [hu, hfront, Text.rewrite_of_some hne hfound, hdrop, List.take_add]
        simp only [List.append_assoc]

end BasicString

namespace StringState

omit [DecidableEq α] in
/-- `replace` returns, the text is in the place of what was taken out, and nothing undefined has
happened. -/
def Splices (sizeof : ℕ) (grant : Option (Grant α)) (s : StringState α) (off nx : ℕ)
    (d : List α) : Prop :=
  wp (BasicString.replace sizeof grant off nx (.outside d))
    (fun _ t => t.contents = splice s.contents off nx d ∧ t.faults = []) (fun _ _ => False) s

/-- `replace_all` comes to an end, all occurrences are replaced, it returns how many they were, and
nothing undefined has happened. -/
def Rewrites (sizeof : ℕ) (grants : ℕ → Option (Grant α)) (s : StringState α)
    (fromText toText : List α) : Prop :=
  ∃ fuel, wp (BasicString.replaceAll sizeof grants fromText toText fuel)
    (fun r t => r = some (Text.occurrences fromText s.contents) ∧
      t.contents = Text.rewrite fromText toText s.contents ∧ t.faults = []) (fun _ _ => False) s

omit [DecidableEq α] in
theorem Clean.splices_iff (h : s.Clean sizeof) {grant : Option (Grant α)} :
    s.Splices sizeof grant off nx d ↔
      s.shape.Fits sizeof off nx ∅ grant.isSome (.outside d) := by
  constructor
  · intro hsplices
    by_contra hnot
    exact hsplices.not_both (BasicString.stains_replace h hnot) fun _ _ hdone hfault =>
      hfault hdone.2
  · intro hfits
    apply BasicString.wp_replace h hfits nofun fun _ _ => rfl
    exact fun t ht _ hcontents => ⟨hcontents d rfl, Clean.faults_eq ht⟩

theorem not_rewrites_of_loop (hdiffer : fromText ≠ toText)
    (h : ∀ fuel, wp (BasicString.replaceAllLoop sizeof grants fromText toText fuel 0 0)
      (fun r t => r = none ∨ t.faults ≠ []) (fun _ _ => True) s) :
    ¬ s.Rewrites sizeof grants fromText toText := by
  rintro ⟨fuel, hloop⟩
  unfold BasicString.replaceAll at hloop
  rw [if_neg hdiffer] at hloop
  refine hloop.not_both (h fuel) ?_
  rintro r t ⟨rfl, -, hfaults⟩ (hnone | hfault)
  · cases hnone
  · exact hfault hfaults

theorem Clean.rewrites_iff (h : s.Clean sizeof) (hdiffer : fromText ≠ toText) :
    s.Rewrites sizeof grants fromText toText ↔ fromText ≠ [] ∧
      EachFits sizeof grants fromText toText 0 s.shape 0 s.contents ∧
      Text.occurrences fromText s.contents < 2 ^ 31 := by
  have hstart : s.contents.drop 0 = s.contents := rfl
  constructor
  · intro hrewrites
    have hne : fromText ≠ [] := by
      rintro rfl
      exact not_rewrites_of_loop hdiffer
        (fun _ => BasicString.wp_replaceAllLoop_nil h (Nat.zero_le _)) hrewrites
    refine ⟨hne, ?_⟩
    by_contra hnot
    rw [← hstart, ← Nat.zero_add (Text.occurrences _ _)] at hnot
    exact not_rewrites_of_loop hdiffer (fun _ => BasicString.wp_replaceAllLoop_of_not h
      (Nat.zero_le _) hne (Nat.two_pow_pos 31) hnot) hrewrites
  · rintro ⟨hne, heach, hcount⟩
    refine ⟨Text.occurrences fromText s.contents + 1, ?_⟩
    have hloop := BasicString.wp_replaceAllLoop_rewrite h (Nat.zero_le s.vec.size) hne heach
      (by rwa [hstart, Nat.zero_add]) (Nat.lt_succ_self _)
    rw [hstart, Nat.zero_add] at hloop
    unfold BasicString.replaceAll
    rwa [if_neg hdiffer]

/-- `replace` splices the string exactly when the call fits, and for different texts `replace_all`
rewrites it exactly when there is a text to look for, each replacement fits, and `int` can count
them. -/
theorem splices_and_rewrites_iff (h : s.Clean sizeof) :
    (∀ off nx d grant, s.Splices sizeof grant off nx d ↔
      s.shape.Fits sizeof off nx ∅ grant.isSome (.outside d)) ∧
    ∀ fromText toText grants, fromText ≠ toText → (s.Rewrites sizeof grants fromText toText ↔
      fromText ≠ [] ∧ EachFits sizeof grants fromText toText 0 s.shape 0 s.contents ∧
      Text.occurrences fromText s.contents < 2 ^ 31) :=
  ⟨fun _ _ _ _ => h.splices_iff, fun _ _ _ hdiffer => h.rewrites_iff hdiffer⟩

/-- A string of four characters in a block of eight cells. -/
def fourChars : StringState ℕ :=
  ⟨⟨⟨some 0, 4, 7⟩, fun b => if b = 0 then some [97, 98, 97, 98, 0, 0, 0, 0] else none⟩, []⟩

theorem clean_fourChars : fourChars.Clean 1 where
  keeps := ⟨.inr ⟨0, rfl, rfl⟩, nofun⟩
  faults := nofun
  size_le := by decide
  res_le := by decide
  res_le_max := by decide
  terminated := False.elim

/-- Both occurrences are replaced in the block. -/
theorem eachFits_fourChars :
    EachFits 1 (fun _ => none) [98] [120, 121] 0 fourChars.shape 0 fourChars.contents := by
  rw [eachFits_of_some (i := 1) (by decide), eachFits_of_some (i := 1) (by decide)]
  refine ⟨⟨by decide, fun h => ?_, fun _ _ => by decide, fun h => ?_⟩,
    ⟨by decide, fun h => ?_, fun _ _ => by decide, fun h => ?_⟩, eachFits_of_none (by decide)⟩
  all_goals exact absurd h (by decide)

theorem occurrences_fourChars : Text.occurrences [98] fourChars.contents = 2 := by
  rw [Text.occurrences_of_some (i := 1) (by decide) (by decide),
    Text.occurrences_of_some (i := 1) (by decide) (by decide),
    Text.occurrences_of_none (by decide) (by decide)]

/-- A text that is shorter, one that fits, one that needs a new block, and the same text twice. -/
theorem splices_and_rewrites_fourChars : fourChars.Splices 1 none 0 2 [99] ∧
    fourChars.Splices 1 none 1 1 [49, 50, 51] ∧
    fourChars.Splices 1 (some ⟨1, fun _ => 0⟩) 3 1 [49, 50, 51, 52, 53, 54] ∧
    fourChars.Rewrites 1 (fun _ => none) [98] [120, 121] := by
  have hiff := splices_and_rewrites_iff clean_fourChars
  refine ⟨(hiff.1 0 2 [99] none).2 ⟨by decide, fun _ => .inr (by decide), fun h => ?_, fun h => ?_⟩,
    (hiff.1 1 1 [49, 50, 51] none).2 ⟨by decide, fun h => ?_, fun _ _ => by decide, fun h => ?_⟩,
    (hiff.1 3 1 [49, 50, 51, 52, 53, 54] (some ⟨1, fun _ => 0⟩)).2
      ⟨by decide, fun h => ?_, fun _ h => ?_,
        fun _ => ⟨by decide, by decide, rfl, .inr (by decide)⟩⟩,
    (hiff.2 [98] [120, 121] (fun _ => none) (by decide)).2
      ⟨by decide, eachFits_fourChars, by rw [occurrences_fourChars]; decide⟩⟩
  all_goals exact absurd h (by decide)

/-- A string of one character. -/
def oneChar : StringState ℕ := ⟨⟨⟨some 0, 1, 1⟩, fun b => if b = 0 then some [97, 0] else none⟩, []⟩

theorem clean_oneChar : oneChar.Clean 1 where
  keeps := ⟨.inr ⟨0, rfl, rfl⟩, nofun⟩
  faults := nofun
  size_le := Nat.le_refl 1
  res_le := by decide
  res_le_max := by decide
  terminated := False.elim

/-- `replace_all` with the empty text comes to the end of the string, where `replace` throws. -/
theorem not_rewrites_oneChar : ¬ ∀ (s : StringState ℕ) (grants : ℕ → Option (Grant ℕ)),
    s.Clean 1 → (∀ k, (grants k).isSome) → ∀ fromText toText, fromText ≠ toText →
      s.Rewrites 1 grants fromText toText := by
  intro hall
  have hrewrites := hall oneChar (fun k => some ⟨k, fun _ => 0⟩) clean_oneChar (fun _ => rfl) []
    [45] (by decide)
  exact not_rewrites_of_loop (by decide)
    (fun _ => BasicString.wp_replaceAllLoop_nil clean_oneChar (Nat.zero_le _)) hrewrites

end StringState

end

end Yasio
