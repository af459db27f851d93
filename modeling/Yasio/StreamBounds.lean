import Yasio.Stream
import Yasio.Lib.Machine

/-!
# The cursor of a reader

`consume` compares the cursor with the end of the buffer only.  `advance`, `advance_v` and two
origins of `seek` compare it with nothing.
-/

namespace Yasio

open Throwing (exec exec_bind exec_bind_ok Holds)

/-! ## Reads -/

/-- All bytes of the view are in front of `last`. -/
def View.Inside (last : Int) (view : View) : Prop :=
  view.bytes ≠ [] → 0 ≤ view.start ∧ view.start + view.bytes.length ≤ last

/-- All bytes that the value shows are in front of `last`. -/
def Value.Inside (last : Int) : Value → Prop
  | view v => v.Inside last
  | _ => True

theorem Value.Inside.mono {last last' : Int} (hle : last ≤ last') {value : Value}
    (h : value.Inside last) : value.Inside last' := by
  cases value with
  | view v => exact fun hne => ⟨(h hne).1, (h hne).2.trans hle⟩
  | _ => trivial

/-- The calls that move the cursor through `consume` only. -/
def Read.consumes : Read → Bool
  | advance _ | advanceV | seek _ _ => false
  | _ => true

section

variable {P : Reader → Prop} {last : Int}

/-- A property of readers that `consume` keeps, and that has the cursor behind `first_`. -/
structure Stable (last : Int) (P : Reader → Prop) : Prop where
  nonneg : ∀ r, P r → 0 ≤ r.ptr
  last : ∀ r, P r → r.last = last
  skip : ∀ r (n : ℕ), P r → r.ptr + n ≤ r.last → P { r with ptr := r.ptr + n }

namespace Stable

theorem holds_consume (h : Stable last P) (n : ℕ) :
    Holds P (fun ptr => 0 ≤ ptr ∧ ptr + n ≤ last) (consume n) := by
  intro r hr
  unfold consume
  rw [exec_bind_ok (Throwing.exec_get r)]
  split
  · next hle =>
    refine ⟨h.skip r n hr hle, fun ptr hptr => ?_⟩
    cases hptr
    exact ⟨h.nonneg r hr, h.last r hr ▸ hle⟩
  · exact ⟨hr, nofun⟩

theorem holds_get (P : Reader → Prop) :
    Holds P (fun _ => True) (get : Reading Reader) :=
  fun _ hr => ⟨hr, fun _ _ => trivial⟩

theorem holds_take (h : Stable last P) (n : ℕ) : Holds P (View.Inside last) (take n) := by
  unfold take
  apply (h.holds_consume n).bind
  intro ptr hptr
  apply (holds_get P).bind
  intro r _
  apply Holds.pure
  intro _
  have hlen : (r.load ptr n).length = n := by simp [Reader.load]
  exact ⟨hptr.1, by rw [hlen]; exact hptr.2⟩

theorem holds_readByte (h : Stable last P) : Holds P (fun _ => True) readByte := by
  unfold readByte
  apply (h.holds_consume 1).bind
  intro ptr _
  apply (holds_get P).bind
  exact fun r _ => Holds.pure trivial

theorem holds_readIxFrom (h : Stable last P) (maxLast : ℕ) (error : StreamError)
    (n shift result : ℕ) : Holds P (fun _ => True) (readIxFrom maxLast error n shift result) := by
  induction n generalizing shift result with
  | zero =>
    unfold readIxFrom
    apply h.holds_readByte.bind
    intro b _
    dsimp only
    split
    · exact Holds.pure trivial
    · exact Holds.throw error
  | succ n ih =>
    unfold readIxFrom
    apply h.holds_readByte.bind
    intro b _
    dsimp only
    split
    · exact Holds.pure trivial
    · exact ih _ _

theorem holds_readIx32 (h : Stable last P) : Holds P (fun _ => True) readIx32 := by
  unfold readIx32
  apply (h.holds_readIxFrom 0x0f .bad7BitInt32 4 0 0).bind
  exact fun _ _ => Holds.pure trivial

theorem holds_readInt (h : Stable last P) (traits : ConvertTraits) (size : IntSize) :
    Holds P (fun _ => True) (readInt traits size) := by
  unfold readInt
  apply (h.holds_take _).bind
  exact fun _ _ => Holds.pure trivial

theorem holds_readIx64 (h : Stable last P) : Holds P (fun _ => True) readIx64 := by
  unfold readIx64
  apply (h.holds_readIxFrom 1 .bad7BitInt64 9 0 0).bind
  exact fun _ _ => Holds.pure trivial

theorem holds_readVarint (h : Stable last P) (traits : ConvertTraits) (size : Int) :
    Holds P (fun _ => True) (readVarint traits size) := by
  unfold readVarint
  apply (h.holds_take _).bind
  exact fun _ _ => Holds.pure trivial

theorem holds_readBytes (h : Stable last P) (len : Int) :
    Holds P (View.Inside last) (readBytes len) := by
  unfold readBytes
  split
  · exact h.holds_take _
  · exact Holds.pure fun hne => absurd rfl hne

/-- Whether the call succeeds or throws, the property holds afterwards, and a view that it returns
lies inside the buffer. -/
theorem holds_run (h : Stable last P) (traits : ConvertTraits) {op : Read}
    (hop : op.consumes = true) : Holds P (Value.Inside last) (op.run traits) := by
  cases op with
  | int size =>
    unfold Read.run
    apply (h.holds_readInt traits size).bind
    exact fun _ _ => Holds.pure trivial
  | ix32 =>
    unfold Read.run
    apply h.holds_readIx32.bind
    exact fun _ _ => Holds.pure trivial
  | ix64 =>
    unfold Read.run
    apply h.holds_readIx64.bind
    exact fun _ _ => Holds.pure trivial
  | varint size =>
    unfold Read.run
    apply (h.holds_readVarint traits size).bind
    exact fun _ _ => Holds.pure trivial
  | byte =>
    unfold Read.run
    apply h.holds_readByte.bind
    exact fun _ _ => Holds.pure trivial
  | bytes len =>
    unfold Read.run
    apply (h.holds_readBytes len).bind
    exact fun _ hview => Holds.pure hview
  | v =>
    unfold Read.run readV
    apply (h.holds_readIx32.bind fun count _ => h.holds_readBytes count.toInt).bind
    exact fun _ hview => Holds.pure hview
  | vFx size =>
    have hview : Holds P (View.Inside last) (readVFx traits size) := by
      unfold readVFx
      apply (h.holds_readInt traits size).bind
      intro n _
      split
      · exact h.holds_readBytes _
      · exact Holds.pure fun hne => absurd rfl hne
    unfold Read.run
    apply hview.bind
    exact fun _ hview => Holds.pure hview
  | advance offset => cases hop
  | advanceV => cases hop
  | seek offset whence => cases hop

end Stable

end

/-! ## Every call -/

/-- The cursor is inside the buffer or at its end. -/
def Reader.InBounds (r : Reader) : Prop := 0 ≤ r.ptr ∧ r.ptr ≤ r.last

instance (r : Reader) : Decidable r.InBounds := inferInstanceAs (Decidable (_ ∧ _))

/-- The call does not put the cursor outside the buffer: what `advance` and the length that
`advance_v` reads lead to, and the offset of `seek` from either end, is inside. -/
def Read.Allowed (r : Reader) : Read → Prop
  | advance offset => 0 ≤ r.ptr + offset ∧ r.ptr + offset ≤ r.last
  | advanceV =>
    match exec readIx32 r with
    | (.ok offset, r') => 0 ≤ r'.ptr + offset.toInt ∧ r'.ptr + offset.toInt ≤ r'.last
    | (.error _, _) => True
  | seek offset .ending => 0 ≤ offset ∧ offset ≤ r.last
  | seek offset .set => 0 ≤ offset ∧ offset ≤ r.last
  | _ => True

theorem stable_inBounds (last : Int) : Stable last fun r => r.InBounds ∧ r.last = last where
  nonneg _ h := h.1.1
  last _ h := h.2
  skip _ n h hle := ⟨⟨Int.add_nonneg h.1.1 (Int.natCast_nonneg n), hle⟩, h.2⟩

/-- One call on a reader whose cursor is inside its buffer. -/
theorem Reader.InBounds.exec_run {r : Reader} (h : r.InBounds) (traits : ConvertTraits)
    (op : Read) :
    ((exec (op.run traits) r).2.InBounds ↔ op.Allowed r) ∧
      (exec (op.run traits) r).2.last = r.last ∧
        ∀ value, (exec (op.run traits) r).1 = .ok value → value.Inside r.last := by
  have hstable := stable_inBounds r.last
  cases hop : op.consumes with
  | true =>
    obtain ⟨⟨hin, hlast⟩, hvalue⟩ := hstable.holds_run traits hop r ⟨h, rfl⟩
    have hallowed : op.Allowed r := by
      cases op with
      | advance | advanceV | seek => cases hop
      | _ => trivial
    exact ⟨iff_of_true hin hallowed, hlast, hvalue⟩
  | false =>
    cases op with
    | advance offset =>
      refine ⟨Iff.rfl, rfl, ?_⟩
      rintro value hvalue
      cases hvalue
      trivial
    | advanceV =>
      obtain ⟨⟨hin, hlast⟩, -⟩ := hstable.holds_readIx32 r ⟨h, rfl⟩
      change (_ ↔ match exec readIx32 r with
        | (.ok offset, r') => 0 ≤ r'.ptr + offset.toInt ∧ r'.ptr + offset.toInt ≤ r'.last
        | (.error _, _) => True) ∧ _
      unfold Read.run Yasio.advanceV
      cases hread : exec readIx32 r with
      | mk result r' =>
        rw [hread] at hin hlast
        cases result with
        | error e =>
          rw [exec_bind, exec_bind, hread]
          exact ⟨iff_of_true hin trivial, hlast, nofun⟩
        | ok offset =>
          rw [exec_bind, exec_bind, hread]
          refine ⟨Iff.rfl, hlast, ?_⟩
          rintro value hvalue
          cases hvalue
          trivial
    | seek offset whence =>
      refine ⟨?_, rfl, ?_⟩
      · have hle := h.1.trans h.2
        change (0 ≤ r.target offset whence ∧ r.target offset whence ≤ r.last) ↔ _
        cases whence with
        | cur =>
          refine iff_of_true ?_ trivial
          unfold Reader.target
          dsimp only
          split
          · exact ⟨Int.le_refl _, hle⟩
          · split <;> omega
        | ending =>
          unfold Reader.target Read.Allowed
          dsimp only
          omega
        | set => exact Iff.rfl
        | other => exact iff_of_true h trivial
      · rintro value hvalue
        cases hvalue
        trivial
    | _ => cases hop

/-! ## Every sequence of calls -/

/-- The reader after a call, whether it has succeeded or thrown. -/
def Read.step (traits : ConvertTraits) (op : Read) (r : Reader) : Option Reader :=
  some (exec (op.run traits) r).2

/-- After each of the calls the cursor is inside the buffer of these data, and whatever is read
next, all bytes that it shows are bytes of the buffer. -/
structure Contained (traits : ConvertTraits) (data : List UInt8) (ops : List Read) (r : Reader) :
    Prop where
  cursor : ∀ ops', ops' <+: ops → ∀ r', Machine.run (Read.step traits) ops' r = some r' →
    r'.InBounds
  views : ∀ ops', ops' <+: ops → ∀ r', Machine.run (Read.step traits) ops' r = some r' →
    ∀ (op : Read) value, (exec (op.run traits) r').1 = .ok value → value.Inside data.length

theorem cursor_iff {traits : ConvertTraits} {ops : List Read} {r : Reader} :
    (∀ ops', ops' <+: ops → ∀ r', Machine.run (Read.step traits) ops' r = some r' → r'.InBounds) ↔
      r.InBounds ∧ Machine.Meets (Read.step traits) (fun r op => op.Allowed r) ops r := by
  apply Machine.forall_prefix_iff_meets
  intro r op hr
  rw [← (hr.exec_run traits op).1]
  constructor
  · rintro h t ht
    exact Option.some.inj ht ▸ h
  · exact fun h => h _ rfl

theorem last_run {traits : ConvertTraits} {ops : List Read} {r r' : Reader}
    (h : ∀ ops', ops' <+: ops → ∀ r', Machine.run (Read.step traits) ops' r = some r' →
      r'.InBounds) (hrun : Machine.run (Read.step traits) ops r = some r') : r'.last = r.last := by
  obtain ⟨hr, hmeets⟩ := cursor_iff.1 h
  have hinv : r'.InBounds ∧ r'.last = r.last := by
    apply Machine.invariant_of_meets (I := fun t => t.InBounds ∧ t.last = r.last) _ ⟨hr, rfl⟩
      hmeets hrun
    rintro s op s' ⟨hs, hlast⟩ hallowed hstep
    obtain rfl := Option.some.inj hstep
    obtain ⟨hin, hsame, -⟩ := hs.exec_run traits op
    exact ⟨hin.2 hallowed, hsame.trans hlast⟩
  exact hinv.2

theorem contained_iff_of_last {traits : ConvertTraits} {data : List UInt8} {ops : List Read}
    {r : Reader} (hlast : r.last ≤ data.length) :
    Contained traits data ops r ↔
      r.InBounds ∧ Machine.Meets (Read.step traits) (fun r op => op.Allowed r) ops r := by
  rw [← cursor_iff]
  constructor
  · exact Contained.cursor
  · intro h
    refine ⟨h, fun ops' hops r' hrun op value hvalue => ?_⟩
    have hsame : r'.last = r.last := last_run (fun bs hbs => h bs (hbs.trans hops)) hrun
    have hinside := ((h ops' hops r' hrun).exec_run traits op).2.2 value hvalue
    exact hinside.mono (hsame.trans_le hlast)

theorem toInt32_le (n : ℕ) : toInt32 n ≤ n := by
  unfold toInt32
  rw [Int.bmod_eq_emod]
  split <;> omega

/-- The cursor of an `ibstream_view` stays inside the buffer exactly when each call in turn keeps it
there; that of an `ibstream`, when the size of the buffer as an `int` is not negative either. -/
theorem contained_iff (traits : ConvertTraits) (data : List UInt8) (ops : List Read) :
    (Contained traits data ops (.ibstreamView data) ↔
      Machine.Meets (Read.step traits) (fun r op => op.Allowed r) ops (.ibstreamView data)) ∧
    (Contained traits data ops (.ibstream data) ↔ 0 ≤ toInt32 data.length ∧
      Machine.Meets (Read.step traits) (fun r op => op.Allowed r) ops (.ibstream data)) := by
  constructor
  · rw [contained_iff_of_last (r := .ibstreamView data) (Int.le_refl _), and_iff_right]
    exact ⟨Int.le_refl _, Int.natCast_nonneg _⟩
  · have hlast : (Reader.ibstream data).last = toInt32 data.length := by
      simp only [Reader.ibstream, Reader.reset]
    have hptr : (Reader.ibstream data).ptr = 0 := by
      simp only [Reader.ibstream, Reader.reset]
    have hin : (Reader.ibstream data).InBounds ↔ 0 ≤ toInt32 data.length := by
      unfold Reader.InBounds
      rw [hlast, hptr, and_iff_right (Int.le_refl 0)]
    have hle : (Reader.ibstream data).last ≤ data.length := by
      rw [hlast]
      exact toInt32_le data.length
    rw [contained_iff_of_last hle, hin]

/-- The peer sends the length -10 as five bytes: `advance_v` puts the cursor five bytes before the
buffer, and the next read returns what is there. -/
theorem not_contained_of_advanceV :
    (exec (Read.advanceV.run .network) (.ibstreamView [0xf6, 0xff, 0xff, 0xff, 0x0f])).2.ptr = -5 ∧
      ¬ Contained .network [0xf6, 0xff, 0xff, 0xff, 0x0f] [.advanceV]
        (.ibstreamView [0xf6, 0xff, 0xff, 0xff, 0x0f]) := by
  have hptr : (exec (Read.advanceV.run .network)
      (.ibstreamView [0xf6, 0xff, 0xff, 0xff, 0x0f])).2.ptr = -5 := by decide +kernel
  refine ⟨hptr, fun h => ?_⟩
  have hin := (h.cursor [.advanceV] (List.prefix_refl _) _ rfl).1
  rw [hptr] at hin
  omega

end Yasio
