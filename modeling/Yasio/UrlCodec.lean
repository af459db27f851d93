import Mathlib.Algebra.Ring.Nat
import Mathlib.Data.List.GetD

/-!
# URL encoding

`HttpClient::urlEncode` and `HttpClient::urlDecode`.  The index of the decoder has 32 bits, and its
bound has as many as the length of the text.
-/

namespace Yasio

namespace UrlCodec

/-- `hex2nibble` -/
def hex2nibble (c : UInt8) : UInt8 :=
  if '0'.toUInt8 ≤ c ∧ c ≤ '9'.toUInt8 then c - '0'.toUInt8
  else if 'a'.toUInt8 ≤ c ∧ c ≤ 'f'.toUInt8 then 10 + (c - 'a'.toUInt8)
  else if 'A'.toUInt8 ≤ c ∧ c ≤ 'F'.toUInt8 then 10 + (c - 'A'.toUInt8)
  else 0

/-- `nibble2hex` -/
def nibble2hex (c a : UInt8) : UInt8 := if c < 0xa then c + '0'.toUInt8 else c + a - 10

/-- `hex2char` on the two characters that it reads. -/
def hex2char (p₀ p₁ : UInt8) : UInt8 := hex2nibble p₀ <<< 4 ||| hex2nibble p₁

/-- `char2hex` -/
def char2hex (c a : UInt8) : List UInt8 := [nibble2hex (c >>> 4) a, nibble2hex (c &&& 0xf) a]

/-- `isalnum` of the C locale -/
def isalnum (c : UInt8) : Bool :=
  ('0'.toUInt8 ≤ c && c ≤ '9'.toUInt8) || ('A'.toUInt8 ≤ c && c ≤ 'Z'.toUInt8) ||
    ('a'.toUInt8 ≤ c && c ≤ 'z'.toUInt8)

/-- The characters that stay as they are. -/
def isUnreserved (c : UInt8) : Bool :=
  isalnum c || c == '-'.toUInt8 || c == '_'.toUInt8 || c == '.'.toUInt8 || c == '~'.toUInt8

/-- The turn of the loop of `urlEncode` on a character. -/
def encodeChar (c : UInt8) : List UInt8 :=
  if isUnreserved c then [c] else '%'.toUInt8 :: char2hex c 'A'.toUInt8

def urlEncode (s : List UInt8) : List UInt8 := s.flatMap encodeChar

/-- What `urlDecode` has pushed, and the indices that it has read. -/
structure Decoding where
  decoded : List UInt8 := []
  reads : List ℕ := []

def Decoding.push (d : Decoding) (c : UInt8) : Decoding := { d with decoded := d.decoded ++ [c] }

def Decoding.read (d : Decoding) (indices : List ℕ) : Decoding :=
  { d with reads := d.reads ++ indices }

section

variable (s : List UInt8) (behind : ℕ → UInt8)

/-- What stands at an index, also behind the text. -/
def charAt (i : ℕ) : UInt8 := s.getD i (behind i)

/-- The loop, for so many turns at most.  The index is an `unsigned int`. -/
def decodeLoop : ℕ → ℕ → Decoding → Option Decoding
  | 0, _, _ => none
  | fuel + 1, i, d =>
    if i < s.length then
      let c := charAt s behind i
      let d := d.read [i]
      if c = 0 then some d
      else if c = '%'.toUInt8 then
        let d := d.read [i + 1, i + 2]
        decodeLoop fuel ((i + 3) % 2 ^ 32)
          (d.push (hex2char (charAt s behind (i + 1)) (charAt s behind (i + 2))))
      else if c = '+'.toUInt8 then decodeLoop fuel ((i + 1) % 2 ^ 32) (d.push ' '.toUInt8)
      else decodeLoop fuel ((i + 1) % 2 ^ 32) (d.push c)
    else some d

def urlDecode (fuel : ℕ) : Option Decoding := decodeLoop s behind fuel 0 {}

end

/-! ## Encoded texts -/

def isxdigit (c : UInt8) : Bool :=
  ('0'.toUInt8 ≤ c && c ≤ '9'.toUInt8) || ('A'.toUInt8 ≤ c && c ≤ 'F'.toUInt8) ||
    ('a'.toUInt8 ≤ c && c ≤ 'f'.toUInt8)

/-- Unreserved characters and escapes. -/
inductive IsEncoded : List UInt8 → Prop
  | nil : IsEncoded []
  | plain {c : UInt8} {l : List UInt8} (hc : isUnreserved c) (hl : IsEncoded l) : IsEncoded (c :: l)
  | escape {a b : UInt8} {l : List UInt8} (ha : isxdigit a) (hb : isxdigit b) (hl : IsEncoded l) :
    IsEncoded ('%'.toUInt8 :: a :: b :: l)

section

variable {s l : List UInt8} {behind : ℕ → UInt8}

theorem forall_uint8 {P : UInt8 → Prop} (h : ∀ n < 256, P (UInt8.ofNat n)) (c : UInt8) : P c := by
  have hc := h c.toNat c.toNat_lt
  rwa [UInt8.ofNat_toNat] at hc

theorem isxdigit_char2hex : ∀ c : UInt8, isxdigit (nibble2hex (c >>> 4) 'A'.toUInt8) = true ∧
    isxdigit (nibble2hex (c &&& 0xf) 'A'.toUInt8) = true :=
  forall_uint8 (by decide +kernel)

theorem hex2char_char2hex : ∀ c : UInt8,
    hex2char (nibble2hex (c >>> 4) 'A'.toUInt8) (nibble2hex (c &&& 0xf) 'A'.toUInt8) = c :=
  forall_uint8 (by decide +kernel)

theorem ne_of_isUnreserved : ∀ c : UInt8, isUnreserved c = true →
    c ≠ 0 ∧ c ≠ '%'.toUInt8 ∧ c ≠ '+'.toUInt8 :=
  forall_uint8 (by decide +kernel)

theorem ne_of_isxdigit : ∀ c : UInt8, isxdigit c = true → c ≠ 0 :=
  forall_uint8 (by decide +kernel)

theorem isEncoded_urlEncode (s : List UInt8) : IsEncoded (urlEncode s) := by
  induction s with
  | nil => exact .nil
  | cons c s ih =>
    unfold urlEncode at ih ⊢
    rw [List.flatMap_cons]
    unfold encodeChar
    split
    · next hc => exact .plain hc ih
    · have hdigits := isxdigit_char2hex c
      exact .escape hdigits.1 hdigits.2 ih

theorem IsEncoded.zero_notMem (h : IsEncoded l) : 0 ∉ l := by
  induction h with
  | nil => exact List.not_mem_nil
  | plain hc hl ih =>
    have hne := (ne_of_isUnreserved _ hc).1
    rw [List.mem_cons, not_or]
    exact ⟨Ne.symm hne, ih⟩
  | escape ha hb hl ih =>
    simp only [List.mem_cons, not_or]
    exact ⟨by decide, Ne.symm (ne_of_isxdigit _ ha), Ne.symm (ne_of_isxdigit _ hb), ih⟩

theorem length_urlEncode (s : List UInt8) :
    (urlEncode s).length = s.length + 2 * s.countP fun c => !isUnreserved c := by
  induction s with
  | nil => rfl
  | cons c s ih =>
    unfold urlEncode at ih ⊢
    rw [List.flatMap_cons, List.length_append, ih, List.length_cons, List.countP_cons]
    unfold encodeChar
    split
    · next hc =>
      rw [hc, if_neg (by decide), List.length_singleton]
      omega
    · next hc =>
      have hescape : ('%'.toUInt8 :: char2hex c 'A'.toUInt8).length = 3 := rfl
      rw [Bool.eq_false_iff.2 hc, if_pos (by decide), hescape]
      omega

/-! ## The decoder -/

theorem charAt_of_lt (behind : ℕ → UInt8) {i : ℕ} (h : i < s.length) : charAt s behind i = s[i] :=
  List.getD_eq_getElem s _ h

theorem charAt_middle {front mid : List UInt8} {k : ℕ} {x : UInt8} (h : mid[k]? = some x)
    (tail : List UInt8) : charAt (front ++ mid ++ tail) behind (front.length + k) = x := by
  have hk := (List.getElem?_eq_some_iff.1 h).1
  unfold charAt
  rw [List.append_assoc, List.getD_eq_getElem?_getD, List.getElem?_append_right (by omega),
    Nat.add_sub_cancel_left, List.getElem?_append_left hk, h]
  rfl

variable {fuel i : ℕ} {d : Decoding}

theorem decodeLoop_end (h : s.length ≤ i) : decodeLoop s behind (fuel + 1) i d = some d :=
  if_neg (Nat.not_lt.2 h)

theorem decodeLoop_zero (h : i < s.length) (hzero : charAt s behind i = 0) :
    decodeLoop s behind (fuel + 1) i d = some (d.read [i]) := by
  rw [decodeLoop, if_pos h]
  exact if_pos hzero

theorem decodeLoop_escape (h : i < s.length) (hescape : charAt s behind i = '%'.toUInt8) :
    decodeLoop s behind (fuel + 1) i d = decodeLoop s behind fuel ((i + 3) % 2 ^ 32)
      (((d.read [i]).read [i + 1, i + 2]).push
        (hex2char (charAt s behind (i + 1)) (charAt s behind (i + 2)))) := by
  rw [decodeLoop, if_pos h]
  dsimp only
  rw [hescape, if_neg (by decide), if_pos rfl]

/-- A character that is not an escape stands for itself, or for a space. -/
theorem decodeLoop_plain (h : i < s.length) (hzero : charAt s behind i ≠ 0)
    (hescape : charAt s behind i ≠ '%'.toUInt8) :
    decodeLoop s behind (fuel + 1) i d = decodeLoop s behind fuel ((i + 1) % 2 ^ 32)
      ((d.read [i]).push (if charAt s behind i = '+'.toUInt8 then ' '.toUInt8
        else charAt s behind i)) := by
  rw [decodeLoop, if_pos h]
  dsimp only
  rw [if_neg hzero, if_neg hescape]
  split <;> rfl

/-- Without a zero byte the index never comes to an end that it can not hold. -/
theorem decodeLoop_eq_none (hlen : 2 ^ 32 ≤ s.length) (hzero : 0 ∉ s) (hi : i < 2 ^ 32) :
    decodeLoop s behind fuel i d = none := by
  induction fuel generalizing i d with
  | zero => rfl
  | succ fuel ih =>
    have hlt : i < s.length := Nat.lt_of_lt_of_le hi hlen
    have hne : charAt s behind i ≠ 0 := by
      intro h
      rw [charAt_of_lt behind hlt] at h
      exact hzero (h ▸ List.getElem_mem hlt)
    by_cases hescape : charAt s behind i = '%'.toUInt8
    · rw [decodeLoop_escape hlt hescape]
      exact ih (Nat.mod_lt _ (by decide))
    · rw [decodeLoop_plain hlt hne hescape]
      exact ih (Nat.mod_lt _ (by decide))

/-- The decoder at the encoded form of `s`. -/
theorem decodeLoop_urlEncode (s front : List UInt8) (d : Decoding)
    (hlen : (front ++ urlEncode s).length < 2 ^ 32) :
    ∃ fuel d', decodeLoop (front ++ urlEncode s) behind fuel front.length d = some d' ∧
      d'.decoded = d.decoded ++ s := by
  induction s generalizing front d with
  | nil =>
    refine ⟨1, d, decodeLoop_end ?_, (List.append_nil _).symm⟩
    rw [List.length_append]
    exact Nat.le_refl _
  | cons c s ih =>
    have hcons : urlEncode (c :: s) = encodeChar c ++ urlEncode s := List.flatMap_cons
    rw [hcons] at hlen ⊢
    by_cases hc : isUnreserved c = true
    · have hchar : encodeChar c = [c] := if_pos hc
      rw [hchar, ← List.append_assoc] at hlen ⊢
      obtain ⟨hzero, hescape, hplus⟩ := ne_of_isUnreserved c hc
      have hat : charAt (front ++ [c] ++ urlEncode s) behind front.length = c :=
        charAt_middle (k := 0) rfl (urlEncode s)
      have hlt : front.length < (front ++ [c] ++ urlEncode s).length := by simp
      obtain ⟨fuel, d', hrun, hdecoded⟩ := ih (front ++ [c]) ((d.read [front.length]).push c) hlen
      refine ⟨fuel + 1, d', ?_, ?_⟩
      · rw [decodeLoop_plain hlt (by rwa [hat]) (by rwa [hat]), hat, if_neg hplus, ← hrun,
          Nat.mod_eq_of_lt (Nat.lt_of_le_of_lt hlt hlen), List.length_append]
        rfl
      · rw [hdecoded]
        exact List.append_assoc d.decoded [c] s
    · obtain ⟨a, b, hchar, hvalue⟩ : ∃ a b, encodeChar c = ['%'.toUInt8, a, b] ∧
          hex2char a b = c := ⟨_, _, if_neg hc, hex2char_char2hex c⟩
      rw [hchar, ← List.append_assoc] at hlen ⊢
      have hat : ∀ k x, ['%'.toUInt8, a, b][k]? = some x →
          charAt (front ++ ['%'.toUInt8, a, b] ++ urlEncode s) behind (front.length + k) = x :=
        fun k x hx => charAt_middle hx (urlEncode s)
      have hlong : front.length + 3 ≤ (front ++ ['%'.toUInt8, a, b] ++ urlEncode s).length := by
        simp only [List.length_append, List.length_cons, List.length_nil]
        omega
      obtain ⟨fuel, d', hrun, hdecoded⟩ := ih (front ++ ['%'.toUInt8, a, b])
        (((d.read [front.length]).read [front.length + 1, front.length + 2]).push c) hlen
      refine ⟨fuel + 1, d', ?_, ?_⟩
      · have hescape := hat 0 _ rfl
        rw [Nat.add_zero] at hescape
        rw [decodeLoop_escape (by omega) hescape, hat 1 a rfl, hat 2 b rfl, hvalue, ← hrun,
          Nat.mod_eq_of_lt (Nat.lt_of_le_of_lt hlong hlen), List.length_append]
        rfl
      · rw [hdecoded]
        exact List.append_assoc d.decoded [c] s

/-- Decoding gives the text back exactly when the index of the decoder can hold the length of what
it decodes. -/
theorem urlDecode_urlEncode_iff (s : List UInt8) (behind : ℕ → UInt8) :
    ((∃ fuel d, urlDecode (urlEncode s) behind fuel = some d ∧ d.decoded = s) ∧
        IsEncoded (urlEncode s)) ↔
      s.length + 2 * s.countP (fun c => !isUnreserved c) < 2 ^ 32 := by
  rw [← length_urlEncode]
  constructor
  · rintro ⟨⟨fuel, d, hrun, -⟩, hencoded⟩
    refine Nat.lt_of_not_le fun hlen => ?_
    have hnone : urlDecode (urlEncode s) behind fuel = none :=
      decodeLoop_eq_none hlen hencoded.zero_notMem (by decide)
    cases hrun.symm.trans hnone
  · intro hlen
    exact ⟨decodeLoop_urlEncode s [] {} hlen, isEncoded_urlEncode s⟩

/-- Each space takes three characters. -/
theorem not_urlDecode_urlEncode_spaces : ¬ ∀ s : List UInt8, s.length < 2 ^ 31 →
    ∀ behind : ℕ → UInt8,
      (∃ fuel d, urlDecode (urlEncode s) behind fuel = some d ∧ d.decoded = s) ∧
        IsEncoded (urlEncode s) := by
  intro hall
  have hlength : (List.replicate 1431655766 ' '.toUInt8).length = 1431655766 :=
    List.length_replicate
  obtain ⟨⟨fuel, d, hrun, -⟩, hencoded⟩ :=
    hall (List.replicate 1431655766 ' '.toUInt8) (by rw [hlength]; decide) fun _ => 0
  have hlen : 2 ^ 32 ≤ (urlEncode (List.replicate 1431655766 ' '.toUInt8)).length := by
    rw [length_urlEncode, List.countP_replicate, hlength, if_pos (by decide)]
    decide
  have hnone : urlDecode (urlEncode (List.replicate 1431655766 ' '.toUInt8)) (fun _ => 0) fuel =
      none := decodeLoop_eq_none hlen hencoded.zero_notMem (by decide)
  cases hrun.symm.trans hnone

/-! ## What the decoder reads -/

/-- No index behind the text has been read. -/
def Decoding.Inside (s : List UInt8) (d : Decoding) : Prop := ∀ j ∈ d.reads, j < s.length

/-- The decoder returns, and has read nothing behind the text. -/
def ReadsInput (s : List UInt8) (behind : ℕ → UInt8) (i : ℕ) (d : Decoding) : Prop :=
  ∃ fuel d', decodeLoop s behind fuel i d = some d' ∧ d'.Inside s

/-- How a walk over a text ends: at its end or at a zero byte, in an escape that is cut off, or
where an `unsigned int` has wrapped to `k`. -/
inductive Walk
  | stops
  | breaks
  | leaves (k : ℕ)

/-- An escape has three bytes, and another character one. -/
def walk (s : List UInt8) (i : ℕ) : Walk :=
  if _h : 2 ^ 32 ≤ i then .leaves (i % 2 ^ 32)
  else
    match s[i]? with
    | none => .stops
    | some c =>
      if c = 0 then .stops
      else if c = '%'.toUInt8 then
        if i + 2 < s.length then walk s (i + 3) else .breaks
      else walk s (i + 1)
termination_by 2 ^ 32 - i

/-- The walk from an index stops, or the one from where it leaves the text does. -/
inductive Whole (s : List UInt8) : ℕ → Prop
  | stops {i : ℕ} (h : walk s i = .stops) : Whole s i
  | leaves {i k : ℕ} (h : walk s i = .leaves k) (hk : Whole s k) : Whole s i

theorem Decoding.Inside.read {indices : List ℕ} (h : d.Inside s)
    (hindices : ∀ j ∈ indices, j < s.length) : (d.read indices).Inside s :=
  fun j hj => (List.mem_append.1 hj).elim (h j) (hindices j)

theorem Decoding.Inside.read_self (h : d.Inside s) (hi : i < s.length) : (d.read [i]).Inside s :=
  h.read fun _ hj => List.mem_singleton.1 hj ▸ hi

theorem Decoding.Inside.push (h : d.Inside s) (c : UInt8) : (d.push c).Inside s := h

/-- What has been read stays so. -/
theorem mem_reads_of_decodeLoop {d' : Decoding} {j : ℕ}
    (h : decodeLoop s behind fuel i d = some d') (hj : j ∈ d.reads) : j ∈ d'.reads := by
  induction fuel generalizing i d with
  | zero => cases h
  | succ fuel ih =>
    have hread : ∀ indices, j ∈ (d.read indices).reads := fun _ => List.mem_append_left _ hj
    by_cases hi : i < s.length
    · by_cases hzero : charAt s behind i = 0
      · rw [decodeLoop_zero hi hzero] at h
        exact Option.some.inj h ▸ hread [i]
      · by_cases hescape : charAt s behind i = '%'.toUInt8
        · rw [decodeLoop_escape hi hescape] at h
          exact ih h (List.mem_append_left _ (hread [i]))
        · rw [decodeLoop_plain hi hzero hescape] at h
          exact ih h (hread [i])
    · rw [decodeLoop_end (Nat.not_lt.1 hi)] at h
      exact Option.some.inj h ▸ hj

/-- Where one walk comes to the place where the other begins, both end alike. -/
theorem Whole.of_walk_eq {j : ℕ} (h : walk s i = walk s j) (hj : Whole s (j % 2 ^ 32)) :
    Whole s i := by
  by_cases hlt : j < 2 ^ 32
  · rw [Nat.mod_eq_of_lt hlt] at hj
    cases hj with
    | stops hstops => exact .stops (h.trans hstops)
    | leaves hleaves hk => exact .leaves (h.trans hleaves) hk
  · have hleaves : walk s j = .leaves (j % 2 ^ 32) := by
      rw [walk, dif_pos (Nat.not_lt.1 hlt)]
    exact .leaves (h.trans hleaves) hj

theorem walk_of_lt (hi : i < 2 ^ 32) (hlt : i < s.length) :
    walk s i =
      if s[i] = 0 then .stops
      else if s[i] = '%'.toUInt8 then
        if i + 2 < s.length then walk s (i + 3) else .breaks
      else walk s (i + 1) := by
  rw [walk, dif_neg (Nat.not_le.2 hi), List.getElem?_eq_getElem hlt]

theorem walk_end (hi : i < 2 ^ 32) (h : s.length ≤ i) : walk s i = .stops := by
  rw [walk, dif_neg (Nat.not_le.2 hi), List.getElem?_eq_none h]

/-- A run that reads inside the text is a walk over it that stops. -/
theorem whole_of_decodeLoop {d' : Decoding} (hi : i < 2 ^ 32)
    (h : decodeLoop s behind fuel i d = some d') (hinside : d'.Inside s) : Whole s i := by
  induction fuel generalizing i d with
  | zero => cases h
  | succ fuel ih =>
    have hwrap : ∀ j, j % 2 ^ 32 < 2 ^ 32 := fun j => Nat.mod_lt j (by decide)
    by_cases hlt : i < s.length
    · have hwalk := walk_of_lt hi hlt
      rw [← charAt_of_lt behind hlt] at hwalk
      by_cases hzero : charAt s behind i = 0
      · rw [if_pos hzero] at hwalk
        exact .stops hwalk
      · rw [if_neg hzero] at hwalk
        by_cases hescape : charAt s behind i = '%'.toUInt8
        · rw [decodeLoop_escape hlt hescape] at h
          have hread : i + 2 < s.length := by
            refine hinside _ (mem_reads_of_decodeLoop h ?_)
            exact List.mem_append_right _ (List.mem_cons_of_mem _ List.mem_cons_self)
          rw [if_pos hescape, if_pos hread] at hwalk
          exact .of_walk_eq hwalk (ih (hwrap _) h)
        · rw [decodeLoop_plain hlt hzero hescape] at h
          rw [if_neg hescape] at hwalk
          exact .of_walk_eq hwalk (ih (hwrap _) h)
    · exact .stops (walk_end hi (Nat.not_lt.1 hlt))

/-- Where the walk ends, a run that reads inside the text so far does. -/
theorem readsInput_of_walk (behind : ℕ → UInt8) (i : ℕ)
    (h : match walk s i with
      | .stops => True
      | .breaks => False
      | .leaves k => ∀ d : Decoding, d.Inside s → ReadsInput s behind (k % 2 ^ 32) d)
    (d : Decoding) (hd : d.Inside s) : ReadsInput s behind (i % 2 ^ 32) d := by
  induction hn : 2 ^ 32 - i using Nat.strongRecOn generalizing i d with
  | ind n ih =>
    by_cases hi : i < 2 ^ 32
    · rw [Nat.mod_eq_of_lt hi]
      by_cases hlt : i < s.length
      · rw [walk_of_lt hi hlt, ← charAt_of_lt behind hlt] at h
        by_cases hzero : charAt s behind i = 0
        · exact ⟨1, _, decodeLoop_zero hlt hzero, hd.read_self hlt⟩
        · rw [if_neg hzero] at h
          by_cases hescape : charAt s behind i = '%'.toUInt8
          · rw [if_pos hescape] at h
            by_cases hlong : i + 2 < s.length
            · rw [if_pos hlong] at h
              have hread : ∀ j ∈ [i + 1, i + 2], j < s.length := by
                intro j hj
                simp only [List.mem_cons, List.not_mem_nil, or_false] at hj
                omega
              obtain ⟨fuel, d', hrun, hd'⟩ := ih (2 ^ 32 - (i + 3)) (by omega) (i + 3) h _
                (((hd.read_self hlt).read hread).push _) rfl
              exact ⟨fuel + 1, d', (decodeLoop_escape hlt hescape).trans hrun, hd'⟩
            · rw [if_neg hlong] at h
              exact h.elim
          · rw [if_neg hescape] at h
            obtain ⟨fuel, d', hrun, hd'⟩ := ih (2 ^ 32 - (i + 1)) (by omega) (i + 1) h _
              ((hd.read_self hlt).push _) rfl
            exact ⟨fuel + 1, d', (decodeLoop_plain hlt hzero hescape).trans hrun, hd'⟩
      · exact ⟨1, d, decodeLoop_end (Nat.not_lt.1 hlt), hd⟩
    · rw [walk, dif_pos (Nat.not_lt.1 hi)] at h
      exact Nat.mod_mod i (2 ^ 32) ▸ h d hd

theorem readsInput_of_whole (behind : ℕ → UInt8) (h : Whole s i) (d : Decoding)
    (hd : d.Inside s) : ReadsInput s behind (i % 2 ^ 32) d := by
  induction h generalizing d with
  | stops hstops => exact readsInput_of_walk behind _ (by rw [hstops]; trivial) d hd
  | leaves hleaves hk ih => exact readsInput_of_walk behind _ (by rw [hleaves]; exact ih) d hd

/-- The decoder ends and reads only its input exactly when the walk over the text from its
beginning does not come to an escape that is cut off. -/
theorem urlDecode_readsInput_iff (s : List UInt8) (behind : ℕ → UInt8) :
    (∃ fuel d, urlDecode s behind fuel = some d ∧ ∀ j ∈ d.reads, j < s.length) ↔ Whole s 0 := by
  constructor
  · rintro ⟨fuel, d, hrun, hinside⟩
    exact whole_of_decodeLoop (by decide) hrun hinside
  · intro h
    exact readsInput_of_whole behind h {} nofun

/-- The walk over a text that an `unsigned int` can count does not leave it. -/
theorem walk_ne_leaves (hlen : s.length < 2 ^ 32) (hi : i ≤ s.length) (k : ℕ) :
    walk s i ≠ .leaves k := by
  induction hn : s.length - i using Nat.strongRecOn generalizing i with
  | ind n ih =>
    have hbound : i < 2 ^ 32 := Nat.lt_of_le_of_lt hi hlen
    by_cases hlt : i < s.length
    · rw [walk_of_lt hbound hlt]
      split
      · exact nofun
      · split
        · split
          · exact ih (s.length - (i + 3)) (by omega) (by omega) rfl
          · exact nofun
        · exact ih (s.length - (i + 1)) (by omega) (by omega) rfl
    · rw [walk_end hbound (Nat.not_lt.1 hlt)]
      exact nofun

theorem whole_iff_of_length (hlen : s.length < 2 ^ 32) : Whole s 0 ↔ walk s 0 = .stops := by
  constructor
  · intro h
    cases h with
    | stops h => exact h
    | leaves h _ => exact absurd h (walk_ne_leaves hlen (Nat.zero_le _) _)
  · exact .stops

/-- A text of one character that begins an escape. -/
theorem not_urlDecode_readsInput_percent : ¬ ∀ (s : List UInt8) (behind : ℕ → UInt8),
    ∃ fuel d, urlDecode s behind fuel = some d ∧ ∀ j ∈ d.reads, j < s.length := by
  intro hall
  obtain ⟨fuel, d, hrun, hinside⟩ := hall ['%'.toUInt8] fun _ => 0
  cases fuel with
  | zero => cases hrun
  | succ fuel =>
    have hescape : charAt ['%'.toUInt8] (fun _ => 0) 0 = '%'.toUInt8 := rfl
    unfold urlDecode at hrun
    rw [decodeLoop_escape (by decide) hescape] at hrun
    have hread := hinside 1 (mem_reads_of_decodeLoop hrun (by decide))
    exact absurd hread (by decide)

end

end UrlCodec

end Yasio
