import Mathlib.Algebra.Ring.Nat
import Yasio.Lib.Overwrite

/-!
# `_vstrfmt`

Formatting behind what a `std::basic_string` already holds.  The formatter of the C library returns
the length of the whole output, or an older one -1 when the output does not fit; for that the buffer
is doubled until it does.
-/

namespace Yasio

open Memory (overwrite)

variable {α : Type}

/-- `vsnprintf` or `vswprintf` on a format and its arguments.  `older` ones return -1 when the
output does not fit.  `cut` is what is then left in the room. -/
structure Formatter (α : Type) where
  out : List α
  /-- The length is returned as an `int`. -/
  length_lt : out.length < 2 ^ 31
  older : Bool
  cut : ℕ → List α
  length_cut : ∀ m, (cut m).length = m

inductive StrfmtError
  | lengthError
  /-- a write behind the buffer, or `front()` of an empty one -/
  | undefined
  deriving DecidableEq, Repr

namespace Formatter

variable (f : Formatter α)

/-- What `format` returns when there is room for `m` characters and the terminator. -/
def count (m : ℕ) : Int := if f.older ∧ m < f.out.length then -1 else f.out.length

/-- What `format` writes into the room; a terminator behind the room takes the place of one. -/
def written [Zero α] (m : ℕ) : List α :=
  if f.out.length ≤ m then (f.out ++ [0]).take m else f.cut m

end Formatter

section

variable [Zero α] (maxSize : ℕ) (f : Formatter α)

/-- `std::basic_string::resize` -/
def resizeString (buf : List α) (n : ℕ) : Except StrfmtError (List α) :=
  if maxSize < n then throw .lengthError
  else return buf.take n ++ List.replicate (n - buf.length) 0

/-- `format_traits::format` on the buffer from `&buf.front() + offset` on. -/
def formatAt (offset : ℕ) (buf : List α) : Except StrfmtError (Int × List α) :=
  if buf.length = 0 ∨ buf.length < offset then throw .undefined
  else
    let room := buf.length - offset
    return (f.count room, overwrite buf offset (f.written room))

/-- The buffer with this size, formatted into. -/
def resizeFormat (offset : ℕ) (buf : List α) (n : ℕ) : Except StrfmtError (Int × List α) := do
  let buf ← resizeString maxSize buf n
  formatAt f offset buf

def enlargeLimits : ℕ := 2 ^ 20

/-- The loop for a formatter that returns -1; none when it has not ended after `fuel` turns. -/
def enlarge (offset : ℕ) (buf : List α) : ℕ → Option (Except StrfmtError (Int × List α))
  | 0 => none
  | fuel + 1 =>
    match resizeFormat maxSize f offset buf ((offset + (buf.length - offset) * 2) % 2 ^ 64) with
    | .error e => some (.error e)
    | .ok (nret, buf) =>
      if nret < 0 ∧ buf.length - offset ≤ enlargeLimits then enlarge offset buf fuel
      else some (.ok (nret, buf))

/-- `_vstrfmt`: what it returns, and the buffer. -/
def vstrfmt (buf : List α) (initialBufSize : UInt64) (fuel : ℕ) :
    Option (Except StrfmtError (Bool × List α)) :=
  let offset := buf.length
  match resizeFormat maxSize f offset buf ((offset + initialBufSize.toNat) % 2 ^ 64) with
  | .error e => some (.error e)
  | .ok (nret, buf) =>
    if 0 ≤ nret then
      some <|
        if nret.toNat < buf.length - offset then do
          let buf ← resizeString maxSize buf (offset + nret.toNat)
          return (true, buf)
        else if buf.length - offset < nret.toNat then do
          let (_, buf) ← resizeFormat maxSize f offset buf (offset + nret.toNat)
          return (true, buf)
        else return (true, buf)
    else
      (enlarge maxSize f offset buf fuel).map fun result => do
        let (nret, buf) ← result
        if 0 < nret then
          let buf ← resizeString maxSize buf (offset + nret.toNat)
          return (true, buf)
        else return (false, buf)

/-- The call ends with this result. -/
def Formats (buf : List α) (initialBufSize : UInt64)
    (result : Except StrfmtError (Bool × List α)) : Prop :=
  ∃ fuel, vstrfmt maxSize f buf initialBufSize fuel = some result

/-- The call ends without anything undefined, and an output that is not too long stands behind the
prefix. -/
def Complete (buf : List α) (initialBufSize : UInt64) : Prop :=
  ∃ result, Formats maxSize f buf initialBufSize result ∧ result ≠ .error .undefined ∧
    (f.out.length ≤ 2 ^ 20 → result = .ok (true, buf ++ f.out))

end

/-- The buffer has a first character.  There is room to double, or no need to; and a string may be
as long as the buffer gets. -/
structure Formatter.Works (maxSize : ℕ) (f : Formatter α) (offset room : ℕ) : Prop where
  pos : 0 < offset + room
  sum_lt : offset + room < 2 ^ 64
  grows : room = 0 → f.older = true → f.out = []
  fits : f.out.length ≤ 2 ^ 20 → offset + room ≤ maxSize ∧
    if f.older then ∀ k, room * 2 ^ k < f.out.length → offset + room * 2 ^ (k + 1) ≤ maxSize
    else room < f.out.length → offset + f.out.length ≤ maxSize

/-! ## One call of the formatter -/

theorem Formatter.count_of_le {f : Formatter α} {m : ℕ} (h : f.out.length ≤ m) :
    f.count m = f.out.length :=
  if_neg fun hcut => Nat.not_lt.2 h hcut.2

theorem Formatter.count_of_older {f : Formatter α} {m : ℕ} (holder : f.older = true)
    (h : m < f.out.length) : f.count m = -1 := if_pos ⟨holder, h⟩

/-- Room for an output that is not too long, and not enough of it. -/
theorem Formatter.more_of_lt {f : Formatter α} (holder : f.older = true)
    (hlimit : f.out.length ≤ enlargeLimits) {m : ℕ} (hshort : m < f.out.length) :
    f.count m < 0 ∧ m ≤ enlargeLimits := by
  rw [f.count_of_older holder hshort]
  exact ⟨by decide, by omega⟩

theorem Formatter.works_of_le {f : Formatter α} {maxSize m offset : ℕ} (hmax : maxSize < 2 ^ 63)
    (hpos : 0 < offset + m) (hfits : offset + m ≤ maxSize) (hout : f.out.length ≤ m) :
    f.Works maxSize offset m where
  pos := hpos
  sum_lt := by omega
  grows := by
    rintro rfl -
    exact List.eq_nil_of_length_eq_zero (Nat.le_zero.1 hout)
  fits := fun _ => by
    refine ⟨hfits, ?_⟩
    split
    · intro k hk
      have hle : m ≤ m * 2 ^ k := Nat.le_mul_of_pos_right m (Nat.two_pow_pos k)
      omega
    · omega

section

variable [Zero α] {maxSize : ℕ} {f : Formatter α} {buf front : List α} {n : ℕ}

/-- The buffer has this length, the prefix, and behind it the output if there is room. -/
structure Formatted (f : Formatter α) (front : List α) (n : ℕ) (buf : List α) : Prop where
  length_eq : buf.length = n
  pos : 0 < n
  front_le : front.length ≤ n
  take_front : buf.take front.length = front
  take_out : front.length + f.out.length ≤ n →
    buf.take (front.length + f.out.length) = front ++ f.out

theorem Formatter.length_written_le (m : ℕ) : (f.written m).length ≤ m := by
  unfold written
  split
  · exact List.length_take_le _ _
  · exact Nat.le_of_eq (f.length_cut m)

/-- The output is what is written first. -/
theorem Formatter.take_written {m : ℕ} (h : f.out.length ≤ m) :
    (f.written m).take f.out.length = f.out := by
  unfold written
  rw [if_pos h, List.take_take, Nat.min_eq_left h, List.take_left]

theorem formatAt_eq (hlen : buf.length = n) (hpos : 0 < n) (hle : front.length ≤ n)
    (hfront : buf.take front.length = front) :
    ∃ buf', formatAt f front.length buf = .ok (f.count (n - front.length), buf') ∧
      Formatted f front n buf' := by
  have hroom := f.length_written_le (n - front.length)
  have hend : front.length + (f.written (n - front.length)).length ≤ buf.length := by omega
  refine ⟨overwrite buf front.length (f.written (n - front.length)), ?_, ?_, hpos, hle, ?_, ?_⟩
  · unfold formatAt
    rw [if_neg (by omega), hlen]
    rfl
  · rw [Memory.length_overwrite hend, hlen]
  · have hwritten := Memory.take_overwrite (d := f.written (n - front.length))
      (show front.length ≤ buf.length by omega)
    have htake := congrArg (List.take front.length) hwritten
    rwa [List.take_take, Nat.min_eq_left (Nat.le_add_right _ _), hfront, List.take_left] at htake
  · intro hout
    have hfits : f.out.length ≤ n - front.length := by omega
    have hlong : f.out.length ≤ (f.written (n - front.length)).length := by
      have htake := congrArg List.length (f.take_written hfits)
      rw [List.length_take] at htake
      omega
    have hwritten := Memory.take_overwrite (d := f.written (n - front.length))
      (show front.length ≤ buf.length by omega)
    have htake := congrArg (List.take (front.length + f.out.length)) hwritten
    rw [List.take_take, Nat.min_eq_left (by omega), hfront, List.take_length_add_append] at htake
    rw [htake, f.take_written hfits]

theorem resizeString_eq (hn : n ≤ maxSize) :
    resizeString maxSize buf n = .ok (buf.take n ++ List.replicate (n - buf.length) 0) :=
  if_neg (Nat.not_lt.2 hn)

theorem length_resized : (buf.take n ++ List.replicate (n - buf.length) (0 : α)).length = n := by
  rw [List.length_append, List.length_take, List.length_replicate]
  omega

theorem resizeFormat_eq (hfront : buf.take front.length = front) (hlen : front.length ≤ buf.length)
    (hpos : 0 < n) (hle : front.length ≤ n) (hn : n ≤ maxSize) :
    ∃ buf', resizeFormat maxSize f front.length buf n =
        .ok (f.count (n - front.length), buf') ∧ Formatted f front n buf' := by
  have hkept : (buf.take n ++ List.replicate (n - buf.length) (0 : α)).take front.length =
      front := by
    rw [List.take_append_of_le_length (by rw [List.length_take]; omega), List.take_take,
      Nat.min_eq_left hle, hfront]
  unfold resizeFormat
  rw [resizeString_eq hn]
  exact formatAt_eq length_resized hpos hle hkept

theorem resizeFormat_error {offset : ℕ} (hn : maxSize < n) :
    resizeFormat maxSize f offset buf n = .error .lengthError := by
  unfold resizeFormat resizeString
  rw [if_pos hn]
  rfl

/-! ## The loop -/

/-- One turn, with twice the room. -/
theorem enlarge_turn {m : ℕ} (hbuf : Formatted f front (front.length + m) buf)
    (hmax : maxSize < 2 ^ 63) (hlen : front.length + m ≤ maxSize) :
    (maxSize < front.length + m * 2 ∧ ∀ fuel,
      enlarge maxSize f front.length buf (fuel + 1) = some (.error .lengthError)) ∨
    (front.length + m * 2 ≤ maxSize ∧ ∃ buf', Formatted f front (front.length + m * 2) buf' ∧
      ∀ fuel, enlarge maxSize f front.length buf (fuel + 1) =
        if f.count (m * 2) < 0 ∧ m * 2 ≤ enlargeLimits then
          enlarge maxSize f front.length buf' fuel
        else some (.ok (f.count (m * 2), buf'))) := by
  -- The size is far from the wrap-around.
  have hroom : (front.length + (buf.length - front.length) * 2) % 2 ^ 64 =
      front.length + m * 2 := by
    rw [hbuf.length_eq, Nat.add_sub_cancel_left]
    omega
  have hpos : 0 < front.length + m * 2 := by
    have := hbuf.pos
    omega
  by_cases hfits : front.length + m * 2 ≤ maxSize
  · obtain ⟨buf', heq, hbuf'⟩ := resizeFormat_eq (f := f) hbuf.take_front
      (hbuf.length_eq ▸ hbuf.front_le) hpos (Nat.le_add_right _ (m * 2)) hfits
    refine .inr ⟨hfits, buf', hbuf', fun fuel => ?_⟩
    rw [enlarge, hroom, heq]
    dsimp only
    rw [hbuf'.length_eq, Nat.add_sub_cancel_left]
  · refine .inl ⟨by omega, fun fuel => ?_⟩
    rw [enlarge, hroom, resizeFormat_error (by omega)]

/-- The room grows beyond the limit. -/
theorem enlarge_terminates {m : ℕ} (hm : 0 < m) (hbuf : Formatted f front (front.length + m) buf)
    (hmax : maxSize < 2 ^ 63) (hlen : front.length + m ≤ maxSize) :
    ∃ fuel result, enlarge maxSize f front.length buf fuel = some result ∧
      result ≠ .error .undefined := by
  induction hgap : enlargeLimits + 1 - m using Nat.strongRecOn generalizing m buf with
  | _ gap ih =>
    rcases enlarge_turn hbuf hmax hlen with ⟨-, herror⟩ | ⟨hfits, buf', hbuf', hturn⟩
    · exact ⟨1, _, herror 0, nofun⟩
    · by_cases hmore : f.count (m * 2) < 0 ∧ m * 2 ≤ enlargeLimits
      · obtain ⟨fuel, result, hrest, hdefined⟩ :=
          ih (enlargeLimits + 1 - m * 2) (by omega) (by omega) hbuf' hfits rfl
        refine ⟨fuel + 1, result, ?_, hdefined⟩
        rw [hturn, if_pos hmore, hrest]
      · refine ⟨1, .ok (f.count (m * 2), buf'), ?_, nofun⟩
        rw [hturn, if_neg hmore]

/-- A buffer without room stays as it is. -/
theorem enlarge_zero (holder : f.older = true) (hout : f.out ≠ [])
    (hbuf : Formatted f front front.length buf) (hmax : maxSize < 2 ^ 63)
    (hlen : front.length ≤ maxSize) (fuel : ℕ) :
    enlarge maxSize f front.length buf fuel = none := by
  have hpos : 0 < f.out.length := List.length_pos_of_ne_nil hout
  induction fuel generalizing buf with
  | zero => rfl
  | succ fuel ih =>
    rcases enlarge_turn (m := 0) hbuf hmax hlen with ⟨hover, -⟩ | ⟨-, buf', hbuf', hturn⟩
    · omega
    · have hmore : f.count (0 * 2) < 0 ∧ 0 * 2 ≤ enlargeLimits := by
        rw [f.count_of_older holder hpos]
        decide
      rw [hturn, if_pos hmore]
      exact ih hbuf'

theorem mul_two_pow_succ (m k : ℕ) : m * 2 ^ (k + 1) = m * 2 * 2 ^ k := by
  rw [Nat.pow_succ', Nat.mul_assoc]

/-- The loop that ends has doubled the room as often as the output asks for. -/
theorem fits_of_enlarge {m fuel : ℕ} {result : Int × List α} (holder : f.older = true)
    (hlimit : f.out.length ≤ enlargeLimits) (hbuf : Formatted f front (front.length + m) buf)
    (hmax : maxSize < 2 ^ 63) (hlen : front.length + m ≤ maxSize)
    (hend : enlarge maxSize f front.length buf fuel = some (.ok result)) :
    ∀ k, m * 2 ^ k < f.out.length → front.length + m * 2 ^ (k + 1) ≤ maxSize := by
  induction fuel generalizing m buf with
  | zero => cases hend
  | succ fuel ih =>
    rcases enlarge_turn hbuf hmax hlen with ⟨-, herror⟩ | ⟨hfits, buf', hbuf', hturn⟩
    · cases (herror fuel).symm.trans hend
    · intro k hk
      cases k with
      | zero => rwa [Nat.zero_add, Nat.pow_one]
      | succ k =>
        rw [mul_two_pow_succ] at hk ⊢
        have hshort : m * 2 < f.out.length :=
          Nat.lt_of_le_of_lt (Nat.le_mul_of_pos_right _ (Nat.two_pow_pos k)) hk
        rw [hturn, if_pos (f.more_of_lt holder hlimit hshort)] at hend
        exact ih hbuf' hfits hend k hk

/-- The loop reaches a room that is enough. -/
theorem enlarge_of_fits {m : ℕ} (holder : f.older = true) (hm : 0 < m)
    (hshort : m < f.out.length) (hlimit : f.out.length ≤ enlargeLimits)
    (hbuf : Formatted f front (front.length + m) buf) (hmax : maxSize < 2 ^ 63)
    (hlen : front.length + m ≤ maxSize)
    (hfits : ∀ k, m * 2 ^ k < f.out.length → front.length + m * 2 ^ (k + 1) ≤ maxSize) :
    ∃ fuel n buf', enlarge maxSize f front.length buf fuel = some (.ok (f.out.length, buf')) ∧
      front.length + f.out.length ≤ n ∧ n ≤ maxSize ∧ Formatted f front n buf' := by
  induction hgap : f.out.length - m using Nat.strongRecOn generalizing m buf with
  | _ gap ih =>
    have hnext : front.length + m * 2 ≤ maxSize := by
      have hfirst := hfits 0 (by rwa [Nat.pow_zero, Nat.mul_one])
      rwa [Nat.zero_add, Nat.pow_one] at hfirst
    rcases enlarge_turn hbuf hmax hlen with ⟨hover, -⟩ | ⟨-, buf', hbuf', hturn⟩
    · omega
    · by_cases hshort' : m * 2 < f.out.length
      · have hfits' : ∀ k, m * 2 * 2 ^ k < f.out.length →
            front.length + m * 2 * 2 ^ (k + 1) ≤ maxSize := by
          intro k hk
          rw [← mul_two_pow_succ] at hk ⊢
          exact hfits (k + 1) hk
        obtain ⟨fuel, n, buf'', hend, hrest⟩ :=
          ih (f.out.length - m * 2) (by omega) (by omega) hshort' hbuf' hnext hfits' rfl
        refine ⟨fuel + 1, n, buf'', ?_, hrest⟩
        rw [hturn, if_pos (f.more_of_lt holder hlimit hshort'), hend]
      · have hcount : f.count (m * 2) = f.out.length := f.count_of_le (by omega)
        have hdone : ¬ (f.count (m * 2) < 0 ∧ m * 2 ≤ enlargeLimits) := by
          rw [hcount]
          omega
        refine ⟨1, front.length + m * 2, buf', ?_, by omega, hnext, hbuf'⟩
        rw [hturn, if_neg hdone, hcount]

/-! ## The call -/

/-- The first call of the formatter. -/
theorem resizeFormat_first {initial : UInt64} (hmax : maxSize < 2 ^ 63)
    (hpos : 0 < front.length + initial.toNat) (hfits : front.length + initial.toNat ≤ maxSize) :
    ∃ buf', resizeFormat maxSize f front.length front
        ((front.length + initial.toNat) % 2 ^ 64) = .ok (f.count initial.toNat, buf') ∧
      Formatted f front (front.length + initial.toNat) buf' := by
  obtain ⟨buf', heq, hbuf'⟩ := resizeFormat_eq (f := f) (List.take_length) (Nat.le_refl _) hpos
    (Nat.le_add_right _ initial.toNat) hfits
  rw [Nat.add_sub_cancel_left] at heq
  rw [Nat.mod_eq_of_lt (by omega)]
  exact ⟨buf', heq, hbuf'⟩

/-- A string cannot be that long.  Where the sum has wrapped around, the buffer ends in front of
where the formatter writes. -/
theorem resizeFormat_over {initial : UInt64} (hmax : maxSize < 2 ^ 63)
    (hlen : front.length ≤ maxSize) (hover : ¬ front.length + initial.toNat ≤ maxSize) :
    resizeFormat maxSize f front.length front ((front.length + initial.toNat) % 2 ^ 64) =
      .error (if front.length + initial.toNat < 2 ^ 64 then .lengthError else .undefined) := by
  have hinitial := initial.toNat_lt
  split
  · next hsum =>
    rw [Nat.mod_eq_of_lt hsum]
    exact resizeFormat_error (by omega)
  · have hshort : (front.length + initial.toNat) % 2 ^ 64 < front.length := by omega
    unfold resizeFormat
    rw [resizeString_eq (by omega)]
    exact if_pos (.inr (by rwa [length_resized]))

/-- Cutting off what stands behind the output. -/
theorem resizeString_out (hbuf : Formatted f front n buf) (hout : front.length + f.out.length ≤ n)
    (hmax : n ≤ maxSize) :
    resizeString maxSize buf (front.length + f.out.length) = .ok (front ++ f.out) := by
  rw [resizeString_eq (by omega), hbuf.take_out hout, hbuf.length_eq, Nat.sub_eq_zero_of_le hout,
    List.replicate_zero, List.append_nil]

variable {initial : UInt64}

theorem vstrfmt_of_over (hmax : maxSize < 2 ^ 63) (hlen : front.length ≤ maxSize)
    (hover : ¬ front.length + initial.toNat ≤ maxSize) (fuel : ℕ) :
    vstrfmt maxSize f front initial fuel = some (.error
      (if front.length + initial.toNat < 2 ^ 64 then .lengthError else .undefined)) := by
  unfold vstrfmt
  dsimp only
  rw [resizeFormat_over hmax hlen hover]

theorem resizeFormat_zero (offset : ℕ) (buf : List α) :
    resizeFormat maxSize f offset buf 0 = .error .undefined := by
  unfold resizeFormat
  rw [resizeString_eq (Nat.zero_le _)]
  exact if_pos (.inl (by rw [length_resized]))

/-- `front()` of an empty buffer. -/
theorem vstrfmt_of_empty (hpos : ¬ 0 < front.length + initial.toNat) (fuel : ℕ) :
    vstrfmt maxSize f front initial fuel = some (.error .undefined) := by
  have hzero : front.length + initial.toNat = 0 := Nat.eq_zero_of_not_pos hpos
  unfold vstrfmt
  dsimp only
  rw [hzero, Nat.zero_mod, resizeFormat_zero]

/-- The output fits at once. -/
theorem vstrfmt_of_le (hmax : maxSize < 2 ^ 63) (hpos : 0 < front.length + initial.toNat)
    (hfits : front.length + initial.toNat ≤ maxSize) (hout : f.out.length ≤ initial.toNat)
    (fuel : ℕ) : vstrfmt maxSize f front initial fuel = some (.ok (true, front ++ f.out)) := by
  obtain ⟨buf, heq, hbuf⟩ := resizeFormat_first (f := f) hmax hpos hfits
  have hroom : buf.length - front.length = initial.toNat := by
    rw [hbuf.length_eq, Nat.add_sub_cancel_left]
  unfold vstrfmt
  dsimp only
  rw [heq, f.count_of_le hout]
  dsimp only
  rw [if_pos (by omega), Int.toNat_natCast, hroom]
  split
  · rw [resizeString_out hbuf (by omega) hfits]
    rfl
  · next hnot =>
    have hsame : front.length + f.out.length = front.length + initial.toNat := by omega
    have hwhole := hbuf.take_out (Nat.le_of_eq hsame)
    rw [hsame, ← hbuf.length_eq, List.take_length] at hwhole
    rw [if_neg (by omega), hwhole]
    rfl

/-- The formatter has told how much room the output needs. -/
theorem vstrfmt_of_required (hmax : maxSize < 2 ^ 63) (hpos : 0 < front.length + initial.toNat)
    (hfits : front.length + initial.toNat ≤ maxSize) (hout : initial.toNat < f.out.length)
    (hrequired : f.older = false) (fuel : ℕ) :
    vstrfmt maxSize f front initial fuel =
      if front.length + f.out.length ≤ maxSize then some (.ok (true, front ++ f.out))
      else some (.error .lengthError) := by
  obtain ⟨buf, heq, hbuf⟩ := resizeFormat_first (f := f) hmax hpos hfits
  have hroom : buf.length - front.length = initial.toNat := by
    rw [hbuf.length_eq, Nat.add_sub_cancel_left]
  have hcount : f.count initial.toNat = f.out.length := by
    unfold Formatter.count
    simp [hrequired]
  unfold vstrfmt
  dsimp only
  rw [heq, hcount]
  dsimp only
  rw [if_pos (by omega), Int.toNat_natCast, hroom, if_neg (by omega), if_pos hout]
  split
  · next hmore =>
    obtain ⟨buf', heq', hbuf'⟩ := resizeFormat_eq (f := f) hbuf.take_front
      (hbuf.length_eq ▸ hbuf.front_le) (by omega) (Nat.le_add_right _ f.out.length) hmore
    have hwhole := hbuf'.take_out (Nat.le_refl _)
    rw [← hbuf'.length_eq, List.take_length] at hwhole
    rw [heq', hwhole]
    rfl
  · rw [resizeFormat_error (by omega)]
    rfl

/-- The formatter has only told that the room is not enough. -/
theorem vstrfmt_of_older (hmax : maxSize < 2 ^ 63) (hpos : 0 < front.length + initial.toNat)
    (hfits : front.length + initial.toNat ≤ maxSize) (hout : initial.toNat < f.out.length)
    (holder : f.older = true) :
    ∃ buf, Formatted f front (front.length + initial.toNat) buf ∧ ∀ fuel,
      vstrfmt maxSize f front initial fuel =
        (enlarge maxSize f front.length buf fuel).map fun result => do
          let (nret, buf) ← result
          if 0 < nret then
            let buf ← resizeString maxSize buf (front.length + nret.toNat)
            return (true, buf)
          else return (false, buf) := by
  obtain ⟨buf, heq, hbuf⟩ := resizeFormat_first (f := f) hmax hpos hfits
  refine ⟨buf, hbuf, fun fuel => ?_⟩
  unfold vstrfmt
  dsimp only
  rw [heq, f.count_of_older holder hout]
  rfl

/-- Cutting the buffer does not write behind it. -/
theorem cut_ne_undefined {turns : Except StrfmtError (Int × List α)} {offset : ℕ}
    (hdefined : turns ≠ .error .undefined) :
    (do
      let (nret, buf) ← turns
      if 0 < nret then
        let buf ← resizeString maxSize buf (offset + nret.toNat)
        return (true, buf)
      else return (false, buf) : Except StrfmtError (Bool × List α)) ≠ .error .undefined := by
  cases turns with
  | error e =>
    intro heq
    exact hdefined (congrArg Except.error (Except.error.inj heq))
  | ok turns =>
    change (if 0 < turns.1 then _ else _) ≠ _
    split
    · by_cases hn : maxSize < offset + turns.1.toNat
      · have hover : resizeString maxSize turns.2 (offset + turns.1.toNat) =
            .error .lengthError := if_pos hn
        rw [hover]
        nofun
      · rw [resizeString_eq (Nat.not_lt.1 hn)]
        nofun
    · nofun

/-- Without room to begin with, the loop never ends. -/
theorem not_formats_of_zero (hmax : maxSize < 2 ^ 63) (hpos : 0 < front.length)
    (hlen : front.length ≤ maxSize) (hzero : initial.toNat = 0) (holder : f.older = true)
    (hne : f.out ≠ [])
    (result : Except StrfmtError (Bool × List α)) : ¬ Formats maxSize f front initial result := by
  have hout : initial.toNat < f.out.length := by
    rw [hzero]
    exact List.length_pos_of_ne_nil hne
  have hfits : front.length + initial.toNat ≤ maxSize := by rwa [hzero]
  obtain ⟨buf, hbuf, heq⟩ := vstrfmt_of_older hmax (Nat.add_pos_left hpos _) hfits hout holder
  rw [hzero] at hbuf
  rintro ⟨fuel, hend⟩
  rw [heq, enlarge_zero holder hne hbuf hmax hlen] at hend
  cases hend

/-- The call with a formatter that has to be asked again and again. -/
theorem complete_older_iff (hmax : maxSize < 2 ^ 63) (hpos : 0 < front.length + initial.toNat)
    (hfits : front.length + initial.toNat ≤ maxSize) (hout : initial.toNat < f.out.length)
    (holder : f.older = true) :
    Complete maxSize f front initial ↔ f.Works maxSize front.length initial.toNat := by
  obtain ⟨buf, hbuf, heq⟩ := vstrfmt_of_older hmax hpos hfits hout holder
  have hne : f.out ≠ [] := List.ne_nil_of_length_pos (by omega)
  rcases Nat.eq_zero_or_pos initial.toNat with hzero | hroom
  · refine iff_of_false ?_ fun hworks => hne (hworks.grows hzero holder)
    rintro ⟨result, hformats, -⟩
    exact not_formats_of_zero hmax (by omega) (by omega) hzero holder hne result hformats
  · constructor
    · rintro ⟨result, ⟨fuel, hend⟩, -, hresult⟩
      refine ⟨hpos, by omega, fun hzero => absurd hzero (Nat.ne_of_gt hroom),
        fun hlimit => ⟨hfits, ?_⟩⟩
      rw [if_pos holder]
      rw [heq, hresult hlimit] at hend
      obtain ⟨turns, hturns, hlast⟩ := Option.map_eq_some_iff.1 hend
      cases turns with
      | error e => cases hlast
      | ok turns => exact fits_of_enlarge holder hlimit hbuf hmax hfits hturns
    · intro hworks
      by_cases hlimit : f.out.length ≤ 2 ^ 20
      · have hdoubles := (hworks.fits hlimit).2
        rw [if_pos holder] at hdoubles
        obtain ⟨fuel, n, buf', hend, hlong, hn, hbuf'⟩ :=
          enlarge_of_fits holder hroom hout hlimit hbuf hmax hfits hdoubles
        refine ⟨.ok (true, front ++ f.out), ⟨fuel, ?_⟩, nofun, fun _ => rfl⟩
        rw [heq, hend, Option.map_some]
        refine congrArg some ?_
        change (if 0 < (f.out.length : Int) then _ else _) = _
        rw [if_pos (by omega), Int.toNat_natCast, resizeString_out hbuf' hlong hn]
        rfl
      · obtain ⟨fuel, turns, hend, hdefined⟩ := enlarge_terminates (f := f) hroom hbuf hmax hfits
        have hresult := heq fuel
        rw [hend, Option.map_some] at hresult
        exact ⟨_, ⟨fuel, hresult⟩, cut_ne_undefined hdefined, fun hle => absurd hle hlimit⟩

end

/-- `_vstrfmt` ends with the whole output exactly when it has room to double. -/
theorem complete_iff [Zero α] {maxSize : ℕ} (f : Formatter α) (buf : List α) (initial : UInt64)
    (hmax : maxSize < 2 ^ 63) (hlen : buf.length ≤ maxSize) :
    Complete maxSize f buf initial ↔ f.Works maxSize buf.length initial.toNat := by
  by_cases hpos : 0 < buf.length + initial.toNat
  swap
  · refine iff_of_false ?_ fun hworks => hpos hworks.pos
    rintro ⟨result, ⟨fuel, hend⟩, hdefined, -⟩
    rw [vstrfmt_of_empty hpos] at hend
    exact hdefined (Option.some.inj hend).symm
  by_cases hfits : buf.length + initial.toNat ≤ maxSize
  · by_cases hout : f.out.length ≤ initial.toNat
    · refine iff_of_true ?_ (f.works_of_le hmax hpos hfits hout)
      exact ⟨_, ⟨0, vstrfmt_of_le hmax hpos hfits hout 0⟩, by simp, fun _ => rfl⟩
    · cases holder : f.older with
      | true => exact complete_older_iff hmax hpos hfits (by omega) holder
      | false =>
        have heq := vstrfmt_of_required hmax hpos hfits (Nat.lt_of_not_le hout) holder
        constructor
        · rintro ⟨result, ⟨fuel, hend⟩, -, hresult⟩
          refine ⟨hpos, by omega, fun _ htrue => Bool.noConfusion (holder.symm.trans htrue), ?_⟩
          intro hlimit
          rw [holder, if_neg Bool.false_ne_true]
          refine ⟨hfits, fun _ => ?_⟩
          rw [heq, hresult hlimit] at hend
          by_contra hover
          rw [if_neg hover] at hend
          cases hend
        · intro hworks
          by_cases hmore : buf.length + f.out.length ≤ maxSize
          · exact ⟨_, ⟨0, (heq 0).trans (if_pos hmore)⟩, by simp, fun _ => rfl⟩
          · refine ⟨_, ⟨0, (heq 0).trans (if_neg hmore)⟩, by simp, fun hlimit => ?_⟩
            have hroom := (hworks.fits hlimit).2
            rw [holder, if_neg Bool.false_ne_true] at hroom
            exact absurd (hroom (Nat.lt_of_not_le hout)) hmore
  · have hover := vstrfmt_of_over (f := f) hmax hlen hfits
    constructor
    · rintro ⟨result, ⟨fuel, hend⟩, hdefined, hresult⟩
      rw [hover] at hend
      obtain rfl := Option.some.inj hend
      have hsum : buf.length + initial.toNat < 2 ^ 64 := by
        by_contra hwrap
        exact hdefined (by rw [if_neg hwrap])
      exact ⟨hpos, hsum, fun hzero => absurd hzero (by omega),
        fun hlimit => by cases hresult hlimit⟩
    · intro hworks
      rw [if_pos hworks.sum_lt] at hover
      exact ⟨_, ⟨0, hover 0⟩, by simp, fun hlimit => absurd (hworks.fits hlimit).1 hfits⟩

/-- A `vswprintf` that prints the character 7, into a buffer of one character to begin with. -/
def olderSeven : Formatter ℕ where
  out := [7]
  length_lt := by decide
  older := true
  cut := fun m => List.replicate m 0
  length_cut := fun m => List.length_replicate

theorem complete_seven :
    Complete 100 olderSeven [1, 2] 1 ↔ olderSeven.Works 100 2 1 :=
  complete_iff olderSeven [1, 2] 1 (by decide) (by decide)

/-- The loop over a buffer without room never ends. -/
theorem not_complete_zero : ¬ ∀ (f : Formatter ℕ) (buf : List ℕ) (initial : UInt64),
    buf.length ≤ 2 ^ 62 → Complete (2 ^ 62) f buf initial := by
  intro hall
  obtain ⟨result, hformats, -⟩ := hall olderSeven [1] 0 (by decide)
  exact not_formats_of_zero (by decide) (by decide) (by decide) rfl rfl (by decide) result hformats

end Yasio
