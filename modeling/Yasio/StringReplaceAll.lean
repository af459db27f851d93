import Yasio.StringReplace

/-!
# `replace_all`

The loop keeps what is behind its position as it was, so which replacements it makes, and on what
sizes, can be told from the text and the sizes alone.
-/

namespace Yasio

open Throwing (wp wp_pure wp_bind wp_get)
open PodVector (sizeT maxSize)

section

variable {α : Type} [DecidableEq α] (sizeof : ℕ) (fromText toText : List α)
  (C : ℕ → StringShape → ℕ → Prop)

/-- How far the loop goes on behind a replacement. -/
def stride : ℕ := toText.length + if fromText = [] then 1 else 0

/-- Each of the first replacements is made on sizes and at an offset that the condition allows; `l`
is the text from the position on.  A replacement that throws is the last. -/
def EachReplacement : ℕ → ℕ → StringShape → ℕ → List α → Prop
  | 0, _, _, _, _ => True
  | fuel + 1, hints, w, pos, l =>
    match Text.occurrence fromText l with
    | none => True
    | some i => C hints w (pos + i) ∧
      (w.Throws sizeof (pos + i) fromText.length toText.length ∨
        EachReplacement fuel (hints + 1) (w.replaced sizeof (pos + i) fromText.length toText.length)
          (pos + i + stride fromText toText)
          (l.drop (i + fromText.length + if fromText = [] then 1 else 0)))

end

variable {α : Type} {rest : Heap α} {allowed : Set StringFault} {s t : StringState α}
  {c d l : List α} {E : PodError → StringState α → Prop} {sizeof n pos i k off nx : ℕ} {ends : Prop}

theorem drop_splice (h : off ≤ l.length) :
    (splice l off nx d).drop (off + d.length + k) = l.drop (off + nx + k) := by
  have hlen : (l.take off ++ d).length = off + d.length := by
    rw [List.length_append, List.length_take, Nat.min_eq_left h]
  unfold splice
  rw [← List.drop_drop, List.drop_left' hlen, List.drop_drop]

theorem take_splice (h : off ≤ l.length) :
    (splice l off nx d).take (off + d.length) = l.take off ++ d := by
  have hlen : (l.take off ++ d).length = off + d.length := by
    rw [List.length_append, List.length_take, Nat.min_eq_left h]
  unfold splice
  rw [← hlen, List.take_left]

variable [Zero α]

theorem StringState.Sound.view_eq (h : s.Sound sizeof rest allowed ends) : s.view = s.contents := by
  unfold StringState.view StringState.cStr
  split
  · rfl
  · next hnull =>
    have hsize := h.size_le
    have hres := h.res_le
    have hnone : s.cells = [] := by
      unfold PodState.cells
      rw [Option.not_isSome_iff_eq_none.1 hnull]
      rfl
    rw [hnone, List.length_nil] at hres
    rw [PodState.contents, show s.vec.size = 0 by omega, List.take_zero, List.take_zero]

namespace BasicString

theorem wp_mark_sound {fault : StringFault} {cond : Prop} [Decidable cond]
    {Q : Unit → StringState α → Prop} (h : s.Sound sizeof rest allowed ends)
    (hcond : fault ∈ allowed ∨ ¬ cond)
    (hQ : ∀ t, t.Sound sizeof rest allowed ends → t.toPodState = s.toPodState → Q () t) :
    wp (mark fault cond) Q E s := by
  unfold mark
  rw [Throwing.wp_modify]
  split
  · next hholds =>
    refine hQ _ ⟨h.keeps, fun f hf => ?_, h.size_le, h.res_le, h.res_le_max, h.terminated⟩ rfl
    obtain rfl | hf := List.mem_cons.1 hf
    · exact hcond.resolve_right (not_not_intro hholds)
    · exact h.faults f hf
  · exact hQ s h rfl

variable [DecidableEq α] {grants : ℕ → Option (Grant α)} {fromText toText : List α}

omit [Zero α] in
theorem find_eq (h : pos ≤ l.length) :
    find fromText pos l = (Text.occurrence fromText (l.drop pos)).map (pos + ·) := by
  unfold find
  split
  · next hshort =>
    rw [Text.occurrence_of_short]
    · rfl
    · rw [List.length_drop]
      omega
  · rfl

variable {Q : Option ℕ → StringState α → Prop} {fuel hints : ℕ}

/-- The search of one iteration. -/
theorem wp_replaceAllLoop_iff (h : s.Sound sizeof rest allowed ends) (hpos : pos ≤ s.vec.size) :
    wp (replaceAllLoop sizeof grants fromText toText (fuel + 1) hints pos) Q E s ↔
      match Text.occurrence fromText (s.contents.drop pos) with
      | none => Q (some hints) s
      | some i => wp (do
          replace sizeof (grants hints) (pos + i) fromText.length (.outside toText)
          mark .overflow (hints + 1 = 2 ^ 31)
          replaceAllLoop sizeof grants fromText toText fuel (hints + 1)
            (sizeT (pos + i + stride fromText toText : ℕ))) Q E s := by
  have hlen := h.length_contents
  rw [replaceAllLoop, wp_bind, wp_get, h.view_eq, find_eq (by omega)]
  cases Text.occurrence fromText (s.contents.drop pos) with
  | none => exact Iff.rfl
  | some i => exact Iff.rfl

omit [Zero α] [DecidableEq α] in
theorem taken_of_le {w : StringShape} (h : off + nx ≤ w.size) : w.taken off nx = nx := by
  unfold StringShape.taken
  omega

theorem occurrence_le (h : s.Sound sizeof rest allowed ends) (hpos : pos ≤ s.vec.size)
    (hfound : Text.occurrence fromText (s.contents.drop pos) = some i) :
    pos + i + fromText.length ≤ s.vec.size := by
  have hlen := h.length_contents
  have hle := Text.add_le_of_occurrence hfound
  rw [List.length_drop] at hle
  omega

/-- An iteration whose replacement fits. -/
theorem wp_replaceAllLoop_of_fits (h : s.Sound sizeof rest allowed ends) (hpos : pos ≤ s.vec.size)
    (hfound : Text.occurrence fromText (s.contents.drop pos) = some i)
    (hfits : s.shape.Fits sizeof (pos + i) fromText.length allowed (grants hints).isSome
      (.outside toText)) (hgrant : ∀ g ∈ grants hints, rest g.block = none)
    (hover : .overflow ∈ allowed ∨ ¬ hints + 1 = 2 ^ 31)
    (hQ : ∀ t, t.Sound sizeof rest allowed ends →
      t.shape = s.shape.replaced sizeof (pos + i) fromText.length toText.length →
      t.contents = splice s.contents (pos + i) fromText.length toText →
      pos + i + stride fromText toText ≤ t.vec.size →
      wp (replaceAllLoop sizeof grants fromText toText fuel (hints + 1)
        (pos + i + stride fromText toText)) Q E t) :
    wp (replaceAllLoop sizeof grants fromText toText (fuel + 1) hints pos) Q E s := by
  have hlimit : maxSize sizeof ≤ 2 ^ 64 - 1 := Nat.div_le_self _ _
  have hle := occurrence_le h hpos hfound
  have hoff := hfits.off_lt
  rw [wp_replaceAllLoop_iff h hpos, hfound]
  dsimp only
  rw [wp_bind]
  apply wp_replace h hfits nofun hgrant
  intro t ht hshape hcontents
  rw [wp_bind]
  apply wp_mark_sound ht hover
  intro u hu hsame
  have hshape' : u.shape = s.shape.replaced sizeof (pos + i) fromText.length toText.length := by
    refine Eq.trans ?_ hshape
    unfold StringState.shape
    rw [hsame]
  have hsize : u.vec.size = s.vec.size - fromText.length + toText.length := by
    have hnew := congrArg StringShape.size hshape'
    have htaken : s.shape.taken (pos + i) fromText.length = fromText.length := taken_of_le hle
    rw [StringState.shape_size, StringShape.replaced, htaken] at hnew
    split at hnew
    · exact hnew
    · exact hnew
  have hstride : pos + i + stride fromText toText ≤ u.vec.size := by
    rw [hsize]
    unfold stride
    rw [StringState.shape_size] at hoff
    split
    · next hempty =>
      rw [hempty, List.length_nil]
      omega
    · omega
  have hfits64 : sizeT (pos + i + stride fromText toText : ℕ) =
      pos + i + stride fromText toText := by
    have hmax := hu.res_le_max
    have hres := hu.size_le
    unfold sizeT
    omega
  rw [hfits64]
  refine hQ u hu hshape' ?_ hstride
  have hold : u.contents = t.contents := congrArg PodState.contents hsame
  rw [hold, hcontents toText rfl]

theorem drop_stride (h : s.Sound sizeof rest allowed ends) (hpos : pos ≤ s.vec.size)
    (hfound : Text.occurrence fromText (s.contents.drop pos) = some i)
    (hcontents : t.contents = splice s.contents (pos + i) fromText.length toText) :
    t.contents.drop (pos + i + stride fromText toText) =
      (s.contents.drop pos).drop (i + fromText.length + if fromText = [] then 1 else 0) := by
  have hlen := h.length_contents
  have hle := occurrence_le h hpos hfound
  unfold stride
  rw [hcontents, ← Nat.add_assoc, drop_splice (by omega), List.drop_drop]
  congr 1
  omega

/-- As long as each replacement throws or fits, the string stays sound. -/
theorem wp_replaceAllLoop (h : s.Sound sizeof rest allowed ends) (hpos : pos ≤ s.vec.size)
    (hgrant : ∀ k, ∀ g ∈ grants k, rest g.block = none) (hover : .overflow ∈ allowed)
    (heach : EachReplacement sizeof fromText toText
      (fun k w off => w.Throws sizeof off fromText.length toText.length ∨
        w.Fits sizeof off fromText.length allowed (grants k).isSome (.outside toText))
      fuel hints s.shape pos (s.contents.drop pos)) :
    wp (replaceAllLoop sizeof grants fromText toText fuel hints pos)
      (fun _ t => t.Sound sizeof rest allowed ends)
      (fun _ t => t.Sound sizeof rest allowed ends) s := by
  -- On `fuel`: the position stays in the string, and the text behind it is what it was.
  induction fuel generalizing hints pos s with
  | zero => exact h
  | succ fuel ih =>
    unfold EachReplacement at heach
    cases hfound : Text.occurrence fromText (s.contents.drop pos) with
    | none =>
      rw [wp_replaceAllLoop_iff h hpos, hfound]
      exact h
    | some i =>
      rw [hfound] at heach
      obtain ⟨hallowed, hrest⟩ := heach
      by_cases hthrows : s.shape.Throws sizeof (pos + i) fromText.length toText.length
      · rw [wp_replaceAllLoop_iff h hpos, hfound]
        dsimp only
        rw [wp_bind]
        exact wp_replace_throws h hthrows fun _ => h
      · apply wp_replaceAllLoop_of_fits h hpos hfound (hallowed.resolve_left hthrows) (hgrant hints)
          (.inl hover)
        intro t ht hshape hcontents hstride
        apply ih ht hstride
        rw [hshape, drop_stride h hpos hfound hcontents]
        exact hrest.resolve_left hthrows

end BasicString

end Yasio
