import Yasio.SpanAgreement

/-!
# Strings behind a length of fixed width

What `write_v8`, `write_v16` and `write_v32` have written, read back by `read_v8`, `read_v16` and
`read_v32`.  The length goes through an `int` and is cut to its width.
-/

namespace Yasio

open Throwing (exec exec_bind exec_bind_ok)

/-- The write is rejected and has left the stream alone, or what it has appended is read back as the
string, with the cursor behind it. -/
def NeverLies {β : Type} [BufferSpan β] (traits : ConvertTraits) (width : LengthWidth)
    (s : List UInt8) (w : Writer β) : Prop :=
  (∃ e, exec (Writer.writeVFx traits width s) w = (.error e, w)) ∨
    ∃ w' produced, exec (Writer.writeVFx traits width s) w = (.ok (), w') ∧
      BufferSpan.data w'.outs = BufferSpan.data w.outs ++ produced ∧
        ∀ r : Reader, r.Shows produced → ∃ view,
          exec ((BlobRead.fx width).run traits) r = (.ok view, r.skip produced.length) ∧
            view.bytes = s

/-- The length is an `int` and fits the width. -/
def LengthFits (width : LengthWidth) (s : List UInt8) : Prop :=
  s.length < 2 ^ 31 ∧ s.length < 2 ^ (8 * width.size.bytes)

/-- What the call appends. -/
def framed (traits : ConvertTraits) (width : LengthWidth) (s : List UInt8) : List UInt8 :=
  leBytes width.size.bytes (traits.swap width.size (Writer.castTo width.size (toInt32 s.length))) ++
    writeBytes s (toInt32 s.length)

variable {traits : ConvertTraits} {width : LengthWidth} {s : List UInt8}

theorem castTo_lt (size : IntSize) (x : Int) : Writer.castTo size x < 256 ^ size.bytes := by
  have hpos : (0 : Int) < 2 ^ (8 * size.bytes) := Int.pow_pos (by decide)
  have hlt := Int.emod_lt_of_pos x hpos
  have hnonneg := Int.emod_nonneg x hpos.ne'
  rw [← pow_eight_mul]
  unfold Writer.castTo
  have hcast : ((2 ^ (8 * size.bytes) : ℕ) : Int) = 2 ^ (8 * size.bytes) := by norm_cast
  omega

/-- The reader takes the first bytes for the length that was written. -/
theorem announces_leBytes (traits : ConvertTraits) (width : LengthWidth) {v : ℕ}
    (hv : v < 256 ^ width.size.bytes) :
    (BlobRead.fx width).Announces traits
      (leBytes width.size.bytes (traits.swap width.size v)) v := by
  refine ⟨length_leBytes _ _, ?_⟩
  rw [traits.leBytes_swap width.size hv, traits.order_order, leNat_leBytes, Nat.mod_eq_of_lt hv]

theorem castTo_natCast {n : ℕ} (h : n < 2 ^ (8 * width.size.bytes)) :
    Writer.castTo width.size n = n := by
  have hmod : ((n : Int) % 2 ^ (8 * width.size.bytes)) =
      ((n % 2 ^ (8 * width.size.bytes) : ℕ) : Int) := by norm_cast
  rw [Writer.castTo, hmod, Int.toNat_natCast, Nat.mod_eq_of_lt h]

theorem Reader.Shows.exec_readBytes_nil {r : Reader} {d : List UInt8} (h : r.Shows d) :
    ∃ view, exec (readBytes d.length) r = (.ok view, r.skip d.length) ∧ view.bytes = d := by
  have happend : r.Shows (d ++ []) := by rwa [List.append_nil]
  exact happend.exec_readBytes

/-- What was appended is read back exactly when its length fits. -/
theorem reads_framed_iff (traits : ConvertTraits) :
    (∀ r : Reader, r.Shows (framed traits width s) → ∃ view,
      exec ((BlobRead.fx width).run traits) r =
        (.ok view, r.skip (framed traits width s).length) ∧ view.bytes = s) ↔
      LengthFits width s := by
  have hannounced := announces_leBytes traits width
    (castTo_lt width.size (toInt32 s.length))
  constructor
  · intro hall
    have hshows : (Reader.ibstreamView (framed traits width s)).Shows (framed traits width s) :=
      Reader.shows_reset (Int.le_refl _)
    obtain ⟨view, hread, rfl⟩ := hall _ hshows
    obtain ⟨bs, n, hbs, hn, hbytes⟩ := ((BlobRead.fx width).exec_run_iff traits _ _ view).1 hread
    have hsame := BlobRead.announces_unique traits hbs hn hshows.left hannounced
    have hlt := castTo_lt width.size (toInt32 view.bytes.length)
    rw [← hsame, ← pow_eight_mul] at hlt
    by_cases hshort : n < 2 ^ 31
    · obtain ⟨⟨-, -, hlen, -⟩ | ⟨-, rfl⟩, -⟩ :=
        (BlobRead.exec_readBytes_iff hshort _ _ _).1 hbytes
      · exact ⟨hlen.trans_lt hshort, hlen.trans_lt hlt⟩
      · exact ⟨Nat.two_pow_pos 31, Nat.two_pow_pos _⟩
    · -- an empty string has a length that is not negative
      have hlong := BlobRead.announces_lt traits hn
      rw [BlobRead.exec_readBytes_of_le (Nat.not_lt.1 hshort) hlong] at hbytes
      obtain rfl : {} = view := Except.ok.inj (Prod.ext_iff.1 hbytes).1
      have hzero : n = 0 := hsame.trans (castTo_natCast (Nat.two_pow_pos _))
      omega
  · rintro ⟨hint, hwidth⟩ r hr
    have hsize : toInt32 s.length = s.length := toInt32_eq_self (by omega) (by omega)
    have hframe : framed traits width s =
        leBytes width.size.bytes (traits.swap width.size s.length) ++ s := by
      unfold framed
      rw [hsize, castTo_natCast hwidth, writeBytes_of_length rfl]
    rw [hsize, castTo_natCast hwidth] at hannounced
    rw [hframe] at hr ⊢
    obtain ⟨view, hread, hview⟩ := hr.right.exec_readBytes_nil
    refine ⟨view, ?_, hview⟩
    rw [List.length_append, ← Reader.skip_skip]
    refine ((BlobRead.fx width).exec_run_iff traits _ _ view).2 ⟨_, _, hr.left, hannounced, ?_⟩
    rw [hsize]
    exact hread

/-! ## Both buffers -/

theorem neverLies_of_ok {β : Type} [AppendSpan β] {w : Writer β}
    (hroom : AppendSpan.Room w.outs (framed traits width s).length) :
    NeverLies traits width s w ↔ LengthFits width s := by
  have hexec : exec (Writer.writeVFx traits width s) w = _ :=
    appends_writeVFx traits width s w hroom
  have hdata := AppendSpan.data_append w.outs (framed traits width s) hroom
  rw [← reads_framed_iff traits]
  constructor
  · rintro (⟨e, herror⟩ | ⟨w', produced, hok, hproduced, hall⟩)
    · cases hexec.symm.trans herror
    · obtain rfl := (Prod.ext_iff.1 (hexec.symm.trans hok)).2
      have hsame : framed traits width s = produced :=
        List.append_cancel_left (hdata.symm.trans hproduced)
      exact hsame ▸ hall
  · exact fun hall => .inr ⟨_, _, hexec, hdata, hall⟩

theorem length_framed (h : LengthFits width s) :
    (framed traits width s).length = width.size.bytes + s.length := by
  obtain ⟨hint, -⟩ := h
  have hsize : toInt32 s.length = s.length := toInt32_eq_self (by omega) (by omega)
  unfold framed
  rw [hsize, writeBytes_of_length rfl, List.length_append, length_leBytes]

/-- On a growing stream a string is never read back wrong exactly when its length fits; on a fixed
one exactly when, besides, there is room for all of it, or when there is none for the length. -/
theorem neverLies_iff (traits : ConvertTraits) (width : LengthWidth) (s : List UInt8) :
    (∀ w : Writer DynamicBuffer, NeverLies traits width s w ↔ LengthFits width s) ∧
      ∀ w : Writer FixedBuffer, NeverLies traits width s w ↔
        w.outs.maxSize < w.outs.pos + width.size.bytes ∨
          LengthFits width s ∧ w.outs.pos + width.size.bytes + s.length ≤ w.outs.maxSize := by
  refine ⟨fun w => neverLies_of_ok trivial, fun w => ?_⟩
  by_cases hfield : w.outs.maxSize < w.outs.pos + width.size.bytes
  · exact iff_of_true (.inl ⟨_, FixedBuffer.exec_writeVFx_none traits width s hfield⟩)
      (.inl hfield)
  · rw [or_iff_right hfield]
    by_cases hroom : w.outs.pos + (framed traits width s).length ≤ w.outs.maxSize
    · rw [neverLies_of_ok hroom, iff_self_and]
      intro hfits
      rw [length_framed hfits] at hroom
      omega
    · -- There is room for the length, but not for the string behind it.
      have hlen : (framed traits width s).length =
          width.size.bytes + (writeBytes s (toInt32 s.length)).length := by
        unfold framed
        rw [List.length_append, length_leBytes]
      have hexec := FixedBuffer.exec_writeVFx_full traits width (w := w) (d := s)
        (Nat.not_lt.1 hfield) (by unfold FixedBuffer.maxSize at hroom; omega)
      refine iff_of_false ?_ fun h => hroom ?_
      · rintro (⟨e, herror⟩ | ⟨w', produced, hok, -⟩)
        · -- the length is left in the stream
          have hleft := congrArg (fun w : Writer FixedBuffer => w.outs.pos)
            (Prod.ext_iff.1 (hexec.symm.trans herror)).2
          change w.outs.pos + (leBytes width.size.bytes _).length = w.outs.pos at hleft
          rw [length_leBytes] at hleft
          have hsize : 0 < width.size.bytes := by cases width <;> decide
          omega
        · cases hexec.symm.trans hok
      · rw [length_framed h.1]
        omega

/-- 256 bytes behind a one-byte length are read back as none. -/
theorem not_neverLies_256 :
    ¬ NeverLies .network .v8 (List.replicate 256 7) ({ outs := {} } : Writer DynamicBuffer) := by
  rw [neverLies_of_ok trivial]
  rintro ⟨-, hwidth⟩
  rw [List.length_replicate] at hwidth
  exact absurd hwidth (by decide)

end Yasio
