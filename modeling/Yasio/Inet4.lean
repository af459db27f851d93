import Yasio.EndpointTrip

/-!
# IPv4 addresses as text

`inet_ntop4` and `inet_pton4`, which the library brings for systems that are without them.
-/

namespace Yasio

/-- An address in network order: the `u_char` array of the source, with its size. -/
structure Octets (n : ℕ) where
  bytes : List UInt8
  length_bytes : bytes.length = n
  deriving DecidableEq

@[ext]
theorem Octets.ext {n : ℕ} {a b : Octets n} (h : a.bytes = b.bytes) : a = b := by
  cases a
  cases b
  cases h
  rfl

/-- The values that `errno` gets. -/
inductive InetErrno
  | EAFNOSUPPORT
  | ENOSPC
  deriving DecidableEq, Repr

/-- How a parser ends without an address: it returns 0, or it stores behind its array. -/
inductive Halt
  | invalid
  | outside
  deriving DecidableEq, Repr

abbrev Parse := Except Halt

/-! ## Printing -/

/-- `sprintf` with `%u.%u.%u.%u` -/
def dotted (octets : List UInt8) : List Char :=
  ['.'].intercalate (octets.map fun octet => decimal octet.toNat)

/-- `inet_ntop4`.  The length is compared with the size as an `int`. -/
def inetNtop4 (src : Octets 4) (size : ℕ) : Except InetErrno (List Char) :=
  let tmp := dotted src.bytes
  if toInt32 size ≤ (tmp.length : ℤ) then .error .ENOSPC else .ok tmp

/-! ## Parsing -/

/-- The locals of `inet_pton4`: what is in `tmp` below `tp`, `*tp`, and the two counters. -/
structure Quad where
  done : List UInt8 := []
  cur : UInt8 := 0
  sawDigit : Bool := false
  octets : ℕ := 0
  deriving DecidableEq

namespace Quad

/-- `*++tp = 0` -/
def advance (q : Quad) : Parse Quad :=
  if q.done.length + 1 < 4 then
    .ok { q with done := q.done ++ [q.cur], cur := 0, sawDigit := false }
  else .error .outside

/-- A digit. -/
def digit (q : Quad) (ch : Char) : Parse Quad :=
  let newv := q.cur.toNat * 10 + (ch.toNat - '0'.toNat)
  if q.sawDigit = true ∧ q.cur = 0 then .error .invalid
  else if 255 < newv then .error .invalid
  else if q.sawDigit = true then .ok { q with cur := UInt8.ofNat newv }
  else if 4 < q.octets + 1 then .error .invalid
  else .ok { q with cur := UInt8.ofNat newv, sawDigit := true, octets := q.octets + 1 }

/-- The body of the loop. -/
def step (q : Quad) (ch : Char) : Parse Quad :=
  if ch.isDigit = true then q.digit ch
  else if ch = '.' ∧ q.sawDigit = true then
    if q.octets = 4 then .error .invalid else q.advance
  else .error .invalid

/-- What the code does behind the loop. -/
def finish (q : Quad) : Parse (Octets 4) :=
  if q.octets < 4 then .error .invalid
  else if h : (q.done ++ [q.cur]).length = 4 then .ok ⟨q.done ++ [q.cur], h⟩
  else .error .outside

end Quad

/-- `inet_pton4` -/
def inetPton4 (src : List Char) : Parse (Octets 4) := do
  let q ← src.foldlM Quad.step {}
  q.finish

/-! ## The text that has been read -/

theorem decimal_of_lt_ten {n : ℕ} (h : n < 10) : decimal n = [n.digitChar] :=
  Nat.toDigits_of_lt_base h

theorem decimal_append {n d : ℕ} (hn : 0 < n) (hd : d < 10) :
    decimal (10 * n + d) = decimal n ++ [d.digitChar] := by
  rw [decimal, decimal, ← Nat.toDigits_of_lt_base hd]
  exact (Nat.toDigits_append_toDigits (by decide) hn hd).symm

theorem digitChar_of_isDigit {c : Char} (h : c.isDigit = true) :
    c.toNat - '0'.toNat < 10 ∧ (c.toNat - '0'.toNat).digitChar = c := by
  obtain ⟨hlow, hhigh⟩ := Char.isDigit_iff_toNat.1 h
  have hlt : c.toNat - '0'.toNat < 10 := Nat.sub_lt_left_of_lt_add hlow (Nat.lt_succ_of_le hhigh)
  have hchar : ∀ d < 10, (Nat.digitChar d).toNat = '0'.toNat + d := by decide
  refine ⟨hlt, ?_⟩
  rw [← Char.toNat_inj, hchar _ hlt]
  exact Nat.add_sub_cancel' hlow

namespace Quad

/-- What the locals say about the text in front of `src`. -/
structure Read (q : Quad) (text : List Char) : Prop where
  text_eq : text = q.done.flatMap (fun octet => decimal octet.toNat ++ ['.']) ++
    (if q.sawDigit = true then decimal q.cur.toNat else [])
  octets_eq : q.octets = q.done.length + q.sawDigit.toNat
  cur_eq : q.sawDigit = false → q.cur = 0
  octets_le : q.octets ≤ 4
  octets_lt : q.sawDigit = false → q.octets < 4

theorem read_nil : Read {} [] where
  text_eq := rfl
  octets_eq := rfl
  cur_eq _ := rfl
  octets_le := by decide
  octets_lt _ := by decide

variable {q q' : Quad} {text : List Char} {c : Char}

theorem Read.digit (h : q.Read text) (hc : c.isDigit = true) (hstep : q.digit c = .ok q') :
    q'.Read (text ++ [c]) := by
  obtain ⟨hlt, hchar⟩ := digitChar_of_isDigit hc
  unfold Quad.digit at hstep
  dsimp only at hstep
  split at hstep
  · cases hstep
  rename_i hzero
  split at hstep
  · cases hstep
  rename_i hle
  have hvalue : (UInt8.ofNat (q.cur.toNat * 10 + (c.toNat - '0'.toNat))).toNat =
      10 * q.cur.toNat + (c.toNat - '0'.toNat) := by
    rw [UInt8.toNat_ofNat_of_lt' (Nat.lt_succ_of_le (Nat.not_lt.1 hle)), Nat.mul_comm]
  split at hstep
  · rename_i hsaw
    cases hstep
    have hpos : 0 < q.cur.toNat := by
      rw [Nat.pos_iff_ne_zero]
      intro h0
      exact hzero ⟨hsaw, UInt8.toNat_inj.1 h0⟩
    refine ⟨?_, h.octets_eq, fun hno => absurd (hsaw.symm.trans hno) (by decide), h.octets_le,
      h.octets_lt⟩
    rw [h.text_eq]
    simp only [hsaw, if_true, hvalue]
    rw [decimal_append hpos hlt, hchar, List.append_assoc]
  · rename_i hsaw
    split at hstep
    · cases hstep
    rename_i hoctets
    cases hstep
    have hno : q.sawDigit = false := by simpa using hsaw
    have hcur : q.cur.toNat = 0 := by rw [h.cur_eq hno]; rfl
    have hcount := h.octets_eq
    rw [hno, Bool.toNat_false] at hcount
    refine ⟨?_, ?_, fun hsaw => absurd hsaw (by simp), by dsimp only; omega,
      fun hsaw => absurd hsaw (by simp)⟩
    · rw [hcur, Nat.mul_zero, Nat.zero_add] at hvalue
      simp only [h.text_eq, hno, hcur, if_true, Bool.false_eq_true, if_false, List.append_nil,
        Nat.zero_mul, Nat.zero_add]
      rw [hvalue, decimal_of_lt_ten hlt, hchar]
    · simp only [Bool.toNat_true]
      omega

theorem Read.advance (h : q.Read text) (hsaw : q.sawDigit = true) (hlt : q.octets ≠ 4) :
    ∃ q', q.advance = .ok q' ∧ q'.Read (text ++ ['.']) := by
  have hcount := h.octets_eq
  rw [hsaw, Bool.toNat_true] at hcount
  have hle := h.octets_le
  have hlt' : q.octets < 4 := by omega
  refine ⟨_, if_pos (by omega), ?_, ?_, fun _ => rfl, h.octets_le, fun _ => hlt'⟩
  · rw [h.text_eq]
    simp [hsaw]
  · simp only [List.length_append, List.length_singleton, Bool.toNat_false]
    omega

/-- One character: it is read, or the code returns 0. -/
theorem Read.step (h : q.Read text) (c : Char) :
    (∃ q', q.step c = .ok q' ∧ q'.Read (text ++ [c])) ∨ q.step c = .error .invalid := by
  unfold Quad.step
  split
  · rename_i hc
    cases hstep : q.digit c with
    | ok q' => exact .inl ⟨q', rfl, h.digit hc hstep⟩
    | error halt =>
      refine .inr ?_
      unfold Quad.digit at hstep
      dsimp only at hstep
      split_ifs at hstep <;> cases hstep <;> rfl
  · split
    · rename_i hdot
      obtain ⟨rfl, hsaw⟩ := hdot
      split
      · exact .inr rfl
      · rename_i hlt
        exact .inl (h.advance hsaw hlt)
    · exact .inr rfl

/-- The whole loop. -/
theorem Read.run (h : q.Read text) (src : List Char) :
    (∃ q', src.foldlM Quad.step q = .ok q' ∧ q'.Read (text ++ src)) ∨
      src.foldlM Quad.step q = .error .invalid := by
  induction src generalizing q text with
  | nil => exact .inl ⟨q, rfl, by rwa [List.append_nil]⟩
  | cons c src ih =>
    rw [List.foldlM_cons]
    rcases h.step c with ⟨q', hstep, hread⟩ | hstep
    · rw [hstep]
      rcases ih hread with ⟨q'', hrun, hread'⟩ | hrun
      · refine .inl ⟨q'', hrun, ?_⟩
        rwa [List.append_assoc] at hread'
      · exact .inr hrun
    · rw [hstep]
      exact .inr rfl

theorem dotted_four (a b c d : UInt8) : dotted [a, b, c, d] =
    decimal a.toNat ++ '.' :: (decimal b.toNat ++ '.' ::
      (decimal c.toNat ++ '.' :: decimal d.toNat)) := by
  simp [dotted, List.intercalate]

theorem Read.finish (h : q.Read text) :
    (∃ addr, q.finish = .ok addr ∧ dotted addr.bytes = text) ∨ q.finish = .error .invalid := by
  unfold Quad.finish
  by_cases hlt : q.octets < 4
  · exact .inr (if_pos hlt)
  have hsaw : q.sawDigit = true := by
    rw [← Bool.not_eq_false]
    exact fun hno => hlt (h.octets_lt hno)
  have hcount := h.octets_eq
  rw [hsaw, Bool.toNat_true] at hcount
  have hle := h.octets_le
  have hlen : (q.done ++ [q.cur]).length = 4 := by
    rw [List.length_append, List.length_singleton]
    omega
  rw [if_neg hlt, dif_pos hlen]
  refine .inl ⟨_, rfl, ?_⟩
  obtain ⟨a, b, c, habc⟩ := List.length_eq_three.1 (show q.done.length = 3 by omega)
  rw [h.text_eq, if_pos hsaw]
  simp only [habc]
  simp [dotted_four]

end Quad

/-! ## The texts that are accepted -/

namespace Quad

variable {q : Quad}

theorem isDigit_digitChar {d : ℕ} (hd : d < 10) : d.digitChar.isDigit = true := by
  have hall : ∀ d < 10, (Nat.digitChar d).isDigit = true := by decide
  exact hall d hd

theorem toNat_digitChar {d : ℕ} (hd : d < 10) : d.digitChar.toNat - '0'.toNat = d := by
  have hall : ∀ d < 10, (Nat.digitChar d).toNat - '0'.toNat = d := by decide
  exact hall d hd

/-- The first digit of an octet. -/
theorem step_first (hsaw : q.sawDigit = false) (hcur : q.cur = 0) (hlt : q.octets < 4) {d : ℕ}
    (hd : d < 10) : q.step d.digitChar =
      .ok { q with cur := UInt8.ofNat d, sawDigit := true, octets := q.octets + 1 } := by
  have hle : ¬255 < d := by omega
  have hoctets : ¬4 < q.octets + 1 := by omega
  rw [Quad.step, if_pos (isDigit_digitChar hd), Quad.digit, toNat_digitChar hd]
  simp [hsaw, hcur, hle, hoctets]

/-- Another digit, behind one that is not a zero. -/
theorem step_next (hsaw : q.sawDigit = true) (hpos : 0 < q.cur.toNat) {d : ℕ} (hd : d < 10)
    (hle : 10 * q.cur.toNat + d < 256) :
    q.step d.digitChar = .ok { q with cur := UInt8.ofNat (10 * q.cur.toNat + d) } := by
  have hne : q.cur ≠ 0 := by
    intro hzero
    rw [hzero] at hpos
    exact absurd hpos (by decide)
  rw [Quad.step, if_pos (isDigit_digitChar hd), Quad.digit, toNat_digitChar hd,
    if_neg (by simp [hne]), if_neg (by omega), if_pos hsaw, Nat.mul_comm]

/-- The digits of an octet are read as that octet. -/
theorem foldlM_decimal (hsaw : q.sawDigit = false) (hcur : q.cur = 0) (hlt : q.octets < 4) {n : ℕ}
    (hn : n < 256) : (decimal n).foldlM Quad.step q =
      .ok { q with cur := UInt8.ofNat n, sawDigit := true, octets := q.octets + 1 } := by
  induction n using Nat.strongRecOn with
  | _ n ih =>
    by_cases hten : n < 10
    · rw [decimal_of_lt_ten hten, List.foldlM_cons, step_first hsaw hcur hlt hten]
      rfl
    · have hdiv : (UInt8.ofNat (n / 10)).toNat = n / 10 :=
        UInt8.toNat_ofNat_of_lt' ((Nat.div_le_self n 10).trans_lt hn)
      have hn10 : 10 * (n / 10) + n % 10 = n := Nat.div_add_mod n 10
      have hmod : n % 10 < 10 := Nat.mod_lt n (by decide)
      have hdigits : decimal n = decimal (n / 10) ++ [(n % 10).digitChar] := by
        rw [← decimal_append (by omega) hmod, hn10]
      rw [hdigits, List.foldlM_append, ih (n / 10) (by omega) (by omega)]
      change List.foldlM Quad.step _ [(n % 10).digitChar] = _
      rw [List.foldlM_cons, step_next rfl (by rw [hdiv]; omega) hmod (by rw [hdiv]; omega)]
      simp only [hdiv, hn10]
      rfl

/-- The dot behind an octet. -/
theorem step_dot (hsaw : q.sawDigit = true) (hoctets : q.octets ≠ 4)
    (hdone : q.done.length + 1 < 4) : q.step '.' =
      .ok { q with done := q.done ++ [q.cur], cur := 0, sawDigit := false } := by
  rw [Quad.step, if_neg (by decide), if_pos ⟨rfl, hsaw⟩, if_neg hoctets, Quad.advance,
    if_pos hdone]

/-- An octet and its dot, in front of the last octet. -/
theorem foldlM_octet (hsaw : q.sawDigit = false) (hcur : q.cur = 0)
    (hoctets : q.octets = q.done.length) (hlt : q.done.length < 3) (octet : UInt8)
    (src : List Char) : (decimal octet.toNat ++ '.' :: src).foldlM Quad.step q =
      src.foldlM Quad.step
        { q with
          done := q.done ++ [octet], cur := 0, sawDigit := false, octets := q.octets + 1 } := by
  rw [List.foldlM_append, foldlM_decimal hsaw hcur (by omega) octet.toNat_lt]
  change List.foldlM Quad.step _ ('.' :: src) = _
  rw [List.foldlM_cons, step_dot rfl (by dsimp only; omega) (by dsimp only; omega),
    UInt8.ofNat_toNat]
  rfl

end Quad

theorem inetPton4_dotted (addr : Octets 4) : inetPton4 (dotted addr.bytes) = .ok addr := by
  obtain ⟨bytes, hlen⟩ := addr
  obtain ⟨a, b, c, d, rfl⟩ := List.length_eq_four.1 hlen
  rw [inetPton4, Quad.dotted_four, Quad.foldlM_octet rfl rfl rfl (by simp),
    Quad.foldlM_octet rfl rfl rfl (by simp), Quad.foldlM_octet rfl rfl rfl (by simp),
    Quad.foldlM_decimal rfl rfl (by simp) d.toNat_lt, UInt8.ofNat_toNat]
  rfl

/-- `inet_pton4` never stores behind `tmp`. -/
theorem inetPton4_cases (text : List Char) :
    (∃ addr, inetPton4 text = .ok addr ∧ dotted addr.bytes = text) ∨
      inetPton4 text = .error .invalid := by
  unfold inetPton4
  rcases Quad.read_nil.run text with ⟨q, hrun, hread⟩ | hrun
  · rw [hrun]
    exact hread.finish
  · rw [hrun]
    exact .inr rfl

end Yasio
