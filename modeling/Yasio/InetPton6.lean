import Mathlib.Data.List.Induction
import Yasio.Inet4

/-!
# IPv6 addresses from their text

`inet_pton6`, and the texts that it takes: groups of hexadecimal digits between colons, a dotted
quad in place of the last two, and one `::` for the zeros that are left out.
-/

namespace Yasio

/-- The table that `inet_pton6` searches with `strchr`. -/
def xdigits : List Char :=
  ['0', '1', '2', '3', '4', '5', '6', '7', '8', '9', 'a', 'b', 'c', 'd', 'e', 'f']

/-- `val` in network order, as the two stores write it. -/
def wordBytes (val : ℕ) : List UInt8 := [UInt8.ofNat (val >>> 8), UInt8.ofNat val]

/-- The locals of `inet_pton6`: what is in `tmp` below `tp`, `colonp` as an index, and the token. -/
structure Hextets where
  out : List UInt8 := []
  colonp : Option ℕ := none
  curtok : List Char
  sawXdigit : Bool := false
  val : ℕ := 0

namespace Hextets

/-- The loop. -/
def run : Hextets → List Char → Parse Hextets
  | w, [] => .ok w
  | w, c :: src =>
    match xdigits.idxOf? c.toLower with
    | some d =>
      if 0xffff < w.val <<< 4 ||| d then .error .invalid
      else run { w with val := w.val <<< 4 ||| d, sawXdigit := true } src
    | none =>
      if c.toLower = ':' then
        if w.sawXdigit = false then
          if w.colonp.isSome = true then .error .invalid
          else run { w with curtok := src, colonp := some w.out.length } src
        else if src = [] then .error .invalid
        else if 16 < w.out.length + 2 then .error .invalid
        else
          run
            { w with
              out := w.out ++ wordBytes w.val, curtok := src, sawXdigit := false, val := 0 }
            src
      else if c.toLower = '.' ∧ w.out.length + 4 ≤ 16 then do
        let quad ← inetPton4 w.curtok
        -- The quad ends the text: `inet_pton4` has seen the terminator.
        return { w with out := w.out ++ quad.bytes, sawXdigit := false }
      else .error .invalid

/-- The last group is stored behind the loop. -/
def drain (w : Hextets) : Parse (List UInt8) :=
  if w.sawXdigit = true then
    if 16 < w.out.length + 2 then .error .invalid else .ok (w.out ++ wordBytes w.val)
  else .ok w.out

end Hextets

/-- The `n` bytes from index `c` on are moved to the end of `tmp`, the last one first. -/
def shift (c n : ℕ) (tmp : List UInt8) : List UInt8 :=
  (List.range' 1 n).foldl
    (fun tmp i => (tmp.set (16 - i) (tmp.getD (c + n - i) 0)).set (c + n - i) 0) tmp

/-- What the code makes of `tmp`, which was filled with zeros, when `tp` has come to an index. -/
def spread (out : List UInt8) (colonp : Option ℕ) : Parse (List UInt8) :=
  let tmp := out ++ List.replicate (16 - out.length) 0
  match colonp with
  | some c =>
    if out.length = 16 then .error .invalid else .ok (shift c (out.length - c) tmp)
  | none => if out.length ≠ 16 then .error .invalid else .ok tmp

/-- `memcpy` of all of `tmp` -/
def copyOut (tmp : List UInt8) : Parse (Octets 16) :=
  if h : tmp.length = 16 then .ok ⟨tmp, h⟩ else .error .outside

/-- `inet_pton6` behind the leading colon. -/
def inetPton6Groups (src : List Char) : Parse (Octets 16) := do
  let w ← Hextets.run { curtok := src } src
  let out ← w.drain
  let tmp ← spread out w.colonp
  copyOut tmp

/-- `inet_pton6` -/
def inetPton6 : List Char → Parse (Octets 16)
  | ':' :: src => if src.head? = some ':' then inetPton6Groups src else .error .invalid
  | src => inetPton6Groups src

/-! ## The texts of an address -/

/-- `tolower` and `strchr` in the table of the digits. -/
def isXdigit (c : Char) : Bool := xdigits.contains c.toLower

/-- The number that digits append to a value. -/
def xvalue (val : ℕ) (digits : List Char) : ℕ :=
  digits.foldl (fun v c => 16 * v + xdigits.idxOf c.toLower) val

/-- A group: digits of either case, with any number of zeros in front. -/
structure Hextet (text : List Char) (val : ℕ) : Prop where
  ne_nil : text ≠ []
  xdigit : ∀ c ∈ text, isXdigit c = true
  value : xvalue 0 text = val
  le : val ≤ 0xffff

/-- Groups with colons between them; with `quad`, the last two may be a dotted quad. -/
inductive Groups (quad : Bool) : List Char → List UInt8 → Prop
  | last {text : List Char} {val : ℕ} (h : Hextet text val) : Groups quad text (wordBytes val)
  | dotted (hquad : quad = true) (octets : Octets 4) :
    Groups quad (dotted octets.bytes) octets.bytes
  | cons {text rest : List Char} {val : ℕ} {bytes : List UInt8} (h : Hextet text val)
    (hrest : Groups quad rest bytes) :
    Groups quad (text ++ ':' :: rest) (wordBytes val ++ bytes)

/-- What stands on one side of `::`. -/
def Side (quad : Bool) (text : List Char) (bytes : List UInt8) : Prop :=
  text = [] ∧ bytes = [] ∨ Groups quad text bytes

/-- The texts that denote an address. -/
inductive Spells (addr : Octets 16) : List Char → Prop
  | full {text : List Char} (h : Groups true text addr.bytes) : Spells addr text
  | zeros {front back : List Char} {high low : List UInt8} (hfront : Side false front high)
    (hback : Side true back low) (hlt : high.length + low.length < 16)
    (h : addr.bytes = high ++ List.replicate (16 - (high.length + low.length)) 0 ++ low) :
    Spells addr (front ++ ':' :: ':' :: back)

/-! ## Moving the low bytes -/

theorem set_append_cons {α : Type*} (l r : List α) (x y : α) :
    (l ++ x :: r).set l.length y = l ++ y :: r := by
  rw [List.set_append_right _ _ le_rfl, Nat.sub_self, List.set_cons_zero]

/-- One round: the last byte that is still in front of the zeros goes behind them. -/
theorem shift_round (front low : List UInt8) (x : UInt8) (z : ℕ) :
    let tmp := front ++ x :: (List.replicate (z + 1) 0 ++ low)
    (tmp.set (front.length + z + 1) (tmp.getD front.length 0)).set front.length 0 =
      front ++ (List.replicate (z + 1) 0 ++ x :: low) := by
  have hread : (front ++ x :: (List.replicate (z + 1) 0 ++ low)).getD front.length 0 = x := by
    simp
  have hsplit : front ++ x :: (List.replicate (z + 1) 0 ++ low) =
      (front ++ x :: List.replicate z 0) ++ 0 :: low := by
    rw [List.replicate_succ']
    simp
  have hlen : (front ++ x :: List.replicate z 0).length = front.length + z + 1 := by
    simp only [List.length_append, List.length_cons, List.length_replicate]
    omega
  dsimp only
  rw [hread, hsplit, ← hlen, set_append_cons, List.append_assoc, List.cons_append, set_append_cons]
  rw [List.replicate_succ, List.cons_append]

/-- The rounds that are left when the bytes of `low` have been moved. -/
theorem foldl_shift (front moved low : List UInt8) (z n : ℕ)
    (hlen : front.length + moved.length + (z + 1) + low.length = 16)
    (hn : moved.length + low.length = n) :
    (List.range' (low.length + 1) moved.length).foldl
      (fun tmp i => (tmp.set (16 - i) (tmp.getD (front.length + n - i) 0)).set
        (front.length + n - i) 0) (front ++ moved ++ (List.replicate (z + 1) 0 ++ low)) =
      front ++ (List.replicate (z + 1) 0 ++ (moved ++ low)) := by
  induction moved using List.reverseRecOn generalizing low with
  | nil => simp
  | append_singleton moved x ih =>
    rw [List.length_append, List.length_singleton] at hlen hn ⊢
    have hread : front.length + n - (low.length + 1) = (front ++ moved).length := by
      rw [List.length_append]
      omega
    have hwrite : 16 - (low.length + 1) = (front ++ moved).length + z + 1 := by
      rw [List.length_append]
      omega
    rw [List.range'_succ, List.foldl_cons, hread, hwrite]
    have hround := shift_round (front ++ moved) low x z
    dsimp only at hround
    simp only [List.append_assoc, List.cons_append, List.nil_append] at hround ⊢
    rw [hround]
    have hnext := ih (x :: low) (by rw [List.length_cons]; omega) (by rw [List.length_cons]; omega)
    rw [List.length_cons] at hnext
    simpa only [List.append_assoc, List.cons_append] using hnext

/-- What stands behind `colonp` goes to the end of `tmp`. -/
theorem shift_eq (high low : List UInt8) (h : high.length + low.length < 16) :
    shift high.length low.length
      (high ++ low ++ List.replicate (16 - (high.length + low.length)) 0) =
    high ++ List.replicate (16 - (high.length + low.length)) 0 ++ low := by
  obtain ⟨z, hz⟩ := Nat.exists_eq_add_of_lt h
  have hrounds := foldl_shift high low [] z low.length (by rw [List.length_nil]; omega) rfl
  rw [show 16 - (high.length + low.length) = z + 1 by omega, shift]
  simpa using hrounds

/-! ## One token -/

theorem le_xvalue (val : ℕ) (digits : List Char) : val ≤ xvalue val digits := by
  induction digits generalizing val with
  | nil => exact le_rfl
  | cons c digits ih =>
    refine le_trans ?_ (ih (16 * val + xdigits.idxOf c.toLower))
    omega

theorem xvalue_lt (digits : List Char) (h : ∀ c ∈ digits, isXdigit c = true) (val : ℕ) :
    xvalue val digits < (val + 1) * 16 ^ digits.length := by
  induction digits generalizing val with
  | nil => simp [xvalue]
  | cons c digits ih =>
    have hdigit : xdigits.idxOf c.toLower < 16 :=
      List.idxOf_lt_length_iff.2 (List.contains_iff_mem.1 (h c List.mem_cons_self))
    have hrest := ih (fun c hc => h c (List.mem_cons_of_mem _ hc))
      (16 * val + xdigits.idxOf c.toLower)
    calc xvalue val (c :: digits)
        < (16 * val + xdigits.idxOf c.toLower + 1) * 16 ^ digits.length := hrest
      _ ≤ ((val + 1) * 16) * 16 ^ digits.length := Nat.mul_le_mul_right _ (by omega)
      _ = (val + 1) * 16 ^ (c :: digits).length := by
        rw [List.length_cons, Nat.pow_succ', Nat.mul_assoc]

theorem idxOf?_of_isXdigit {c : Char} (h : isXdigit c = true) :
    xdigits.idxOf? c.toLower = some (xdigits.idxOf c.toLower) := by
  obtain ⟨d, hd⟩ := Option.isSome_iff_exists.1 (List.isSome_idxOf?.2 (List.contains_iff_mem.1 h))
  rw [List.idxOf_eq_getD_idxOf?, hd]
  rfl

theorem idxOf?_of_not_isXdigit {c : Char} (h : isXdigit c = false) :
    xdigits.idxOf? c.toLower = none := by
  rw [List.idxOf?_eq_none_iff, ← List.contains_iff_mem]
  exact Bool.not_eq_true _ ▸ h

theorem toLower_eq_self {c : Char} (h : ¬(65 ≤ c.toNat ∧ c.toNat ≤ 90)) : c.toLower = c := by
  unfold Char.toLower
  split
  · rename_i hrange
    exact absurd (show 65 ≤ c.toNat ∧ c.toNat ≤ 90 from hrange) h
  · rfl

/-- `tolower` gives a character that is not a letter for that character only. -/
theorem eq_of_toLower {c d : Char} (hd : d.isLower = false) (h : c.toLower = d) : c = d := by
  have hletters : ∀ n < 91, 65 ≤ n → (Char.ofNat n).toLower.isLower = true := by decide
  by_cases hupper : 65 ≤ c.toNat ∧ c.toNat ≤ 90
  · have hlower := hletters c.toNat (by omega) hupper.1
    rw [Char.ofNat_toNat, h, hd] at hlower
    cases hlower
  · rw [← h, toLower_eq_self hupper]

theorem shiftLeft_or {val d : ℕ} (h : d < 16) : val <<< 4 ||| d = 16 * val + d := by
  rw [← Nat.shiftLeft_add_eq_or_of_lt (show d < 2 ^ 4 from h), Nat.shiftLeft_eq, Nat.mul_comm]

namespace Hextets

variable {w w' : Hextets}

/-- Digits are read as their value, until it is too large. -/
theorem run_digits {digits : List Char} (h : ∀ c ∈ digits, isXdigit c = true) (src : List Char)
    (w : Hextets) (hne : digits ≠ []) : w.run (digits ++ src) =
      if 0xffff < xvalue w.val digits then .error .invalid
      else run { w with val := xvalue w.val digits, sawXdigit := true } src := by
  induction digits generalizing w with
  | nil => exact absurd rfl hne
  | cons c digits ih =>
    have hc := h c List.mem_cons_self
    have hdigit : xdigits.idxOf c.toLower < 16 :=
      List.idxOf_lt_length_iff.2 (List.contains_iff_mem.1 hc)
    have hrest := fun c' hc' => h c' (List.mem_cons_of_mem c hc')
    have hvalue : xvalue w.val (c :: digits) =
      xvalue (16 * w.val + xdigits.idxOf c.toLower) digits := rfl
    rw [List.cons_append, run, idxOf?_of_isXdigit hc]
    simp only [shiftLeft_or hdigit]
    rw [hvalue]
    by_cases hbig : 0xffff < 16 * w.val + xdigits.idxOf c.toLower
    · rw [if_pos hbig, if_pos (hbig.trans_le (le_xvalue _ _))]
    · rw [if_neg hbig]
      by_cases hnil : digits = []
      · subst hnil
        exact (if_neg hbig).symm
      · exact ih hrest _ hnil

/-- The loop from the start of a token on, and the store behind it: the bytes and `colonp`. -/
def scan (out : List UInt8) (colonp : Option ℕ) (text : List Char) :
    Parse (List UInt8 × Option ℕ) := do
  let w ← run { out := out, colonp := colonp, curtok := text } text
  let bytes ← w.drain
  return (bytes, w.colonp)

variable {out : List UInt8} {colonp : Option ℕ} {text rest : List Char} {val : ℕ}

/-- The second of two colons. -/
theorem scan_gap (out : List UInt8) (rest : List Char) :
    scan out none (':' :: rest) = scan out (some out.length) rest := rfl

theorem run_hextet (h : Hextet text val) {w : Hextets} (hval : w.val = 0) (src : List Char) :
    w.run (text ++ src) = run { w with val := val, sawXdigit := true } src := by
  rw [run_digits h.xdigit src w h.ne_nil, hval, h.value, if_neg (Nat.not_lt.2 h.le)]

theorem run_colon (hsaw : w.sawXdigit = true) (src : List Char) : w.run (':' :: src) =
    if src = [] ∨ 16 < w.out.length + 2 then .error .invalid
    else run { out := w.out ++ wordBytes w.val, colonp := w.colonp, curtok := src } src := by
  have hnone : xdigits.idxOf? (Char.toLower ':') = none := by decide
  rw [run, hnone]
  simp only [hsaw, Bool.true_eq_false, if_false, ite_or,
    if_pos (show Char.toLower ':' = ':' by decide)]

theorem run_dot (src : List Char) : w.run ('.' :: src) =
    if w.out.length + 4 ≤ 16 then (inetPton4 w.curtok).map fun octets =>
      { w with out := w.out ++ octets.bytes, sawXdigit := false }
    else .error .invalid := by
  have hnone : xdigits.idxOf? (Char.toLower '.') = none := by decide
  have hdot : Char.toLower '.' = '.' := by decide
  have hne : '.' ≠ ':' := by decide
  rw [run, hnone, hdot]
  simp only [hne, if_false, true_and]
  split
  · cases inetPton4 w.curtok <;> rfl
  · rfl

/-- A group at the end of the text. -/
theorem scan_last (h : Hextet text val) : scan out colonp text =
    if 16 < out.length + 2 then .error .invalid else .ok (out ++ wordBytes val, colonp) := by
  have hrun := run_hextet h (w := { out := out, colonp := colonp, curtok := text }) rfl []
  rw [List.append_nil] at hrun
  rw [scan, hrun]
  by_cases hfull : 16 < out.length + 2
  · simp [run, drain, hfull, bind, Except.bind]
  · simp [run, drain, hfull, bind, Except.bind, pure, Except.pure]

/-- A group with a colon behind it. -/
theorem scan_cons (h : Hextet text val) : scan out colonp (text ++ ':' :: rest) =
    if rest = [] ∨ 16 < out.length + 2 then .error .invalid
    else scan (out ++ wordBytes val) colonp rest := by
  rw [scan, run_hextet h rfl, run_colon rfl]
  split <;> rfl

theorem drain_dot (htok : w.curtok = text) (rest : List Char) : (do
    let w' ← w.run ('.' :: rest)
    let bytes ← w'.drain
    return (bytes, w'.colonp)) =
      if w.out.length + 4 ≤ 16 then
        (inetPton4 text).map fun octets => (w.out ++ octets.bytes, w.colonp)
      else .error .invalid := by
  rw [run_dot, htok]
  split
  · cases inetPton4 text <;> rfl
  · rfl

/-- Digits with a dot behind them. -/
theorem scan_dot (h : ∀ c ∈ text, isXdigit c = true) (hle : xvalue 0 text ≤ 0xffff) :
    scan out colonp (text ++ '.' :: rest) =
      if out.length + 4 ≤ 16 then
        (inetPton4 (text ++ '.' :: rest)).map fun octets => (out ++ octets.bytes, colonp)
      else .error .invalid := by
  unfold scan
  by_cases hnil : text = []
  · subst hnil
    exact drain_dot rfl rest
  · rw [run_digits h _ _ hnil, if_neg (Nat.not_lt.2 hle)]
    exact drain_dot rfl rest

/-- What stands at the start of a text. -/
inductive Token : List Char → Prop
  | nil : Token []
  | gap (rest : List Char) : Token (':' :: rest)
  | last {text : List Char} {val : ℕ} (h : Hextet text val) : Token text
  | colon {text : List Char} {val : ℕ} (h : Hextet text val) (rest : List Char) :
    Token (text ++ ':' :: rest)
  | dot {text : List Char} (h : ∀ c ∈ text, isXdigit c = true) (hle : xvalue 0 text ≤ 0xffff)
    (rest : List Char) : Token (text ++ '.' :: rest)
  | bad {text : List Char} (h : ∀ out colonp, scan out colonp text = .error .invalid) : Token text

theorem scan_bad (h : ∀ c ∈ text, isXdigit c = true) (hbig : 0xffff < xvalue 0 text) :
    scan out colonp (text ++ rest) = .error .invalid := by
  have hne : text ≠ [] := by
    intro hnil
    subst hnil
    exact absurd hbig (by decide)
  rw [scan, run_digits h _ _ hne, if_pos hbig]
  rfl

theorem scan_other {c : Char} (h : ∀ c ∈ text, isXdigit c = true) (hc : isXdigit c = false)
    (hcolon : c ≠ ':') (hdot : c ≠ '.') :
    scan out colonp (text ++ c :: rest) = .error .invalid := by
  have hrun : ∀ w : Hextets, w.run (c :: rest) = .error .invalid := by
    intro w
    have hcolon' : c.toLower ≠ ':' := fun hlow => hcolon (eq_of_toLower (by decide) hlow)
    have hdot' : c.toLower ≠ '.' := fun hlow => hdot (eq_of_toLower (by decide) hlow)
    rw [run, idxOf?_of_not_isXdigit hc]
    simp only [hcolon', hdot', if_false, false_and]
  unfold scan
  by_cases hnil : text = []
  · subst hnil
    rw [List.nil_append, hrun]
    rfl
  · rw [run_digits h _ _ hnil]
    split
    · rfl
    · rw [hrun]
      rfl

theorem token (text : List Char) : Token text := by
  have hsplit := List.takeWhile_append_dropWhile (p := isXdigit) (l := text)
  have hdigits : ∀ c ∈ text.takeWhile isXdigit, isXdigit c = true :=
    List.all_eq_true.1 List.all_takeWhile
  rw [← hsplit]
  by_cases hbig : 0xffff < xvalue 0 (text.takeWhile isXdigit)
  · exact .bad fun _ _ => scan_bad hdigits hbig
  have hhextet : text.takeWhile isXdigit ≠ [] →
      Hextet (text.takeWhile isXdigit) (xvalue 0 (text.takeWhile isXdigit)) :=
    fun hne => ⟨hne, hdigits, rfl, Nat.not_lt.1 hbig⟩
  cases hrest : text.dropWhile isXdigit with
  | nil =>
    rw [List.append_nil]
    by_cases hnil : text.takeWhile isXdigit = []
    · rw [hnil]
      exact .nil
    · exact .last (hhextet hnil)
  | cons c rest =>
    have hc : isXdigit c = false := by
      have hhead := List.head?_dropWhile_not isXdigit text
      rw [hrest] at hhead
      simpa using hhead
    by_cases hcolon : c = ':'
    · subst hcolon
      by_cases hnil : text.takeWhile isXdigit = []
      · rw [hnil]
        exact .gap rest
      · exact .colon (hhextet hnil) rest
    by_cases hdot : c = '.'
    · subst hdot
      exact .dot hdigits (Nat.not_lt.1 hbig) rest
    · exact .bad fun _ _ => scan_other hdigits hc hcolon hdot

end Hextets

/-! ## The whole text -/

section

open Hextets

variable {quad : Bool} {out bytes : List UInt8} {colonp : Option ℕ} {text rest : List Char} {c : ℕ}

theorem isXdigit_of_isDigit {c : Char} (h : c.isDigit = true) : isXdigit c = true := by
  have hall : ∀ d < 10, isXdigit (Nat.digitChar d) = true := by decide
  obtain ⟨hlt, hchar⟩ := digitChar_of_isDigit h
  rw [← hchar]
  exact hall _ hlt

theorem exists_dotted (octets : Octets 4) :
    ∃ (a : UInt8) (rest : List Char), dotted octets.bytes = decimal a.toNat ++ '.' :: rest := by
  obtain ⟨bytes, hlen⟩ := octets
  obtain ⟨a, b, c, d, rfl⟩ := List.length_eq_four.1 hlen
  exact ⟨a, _, Quad.dotted_four a b c d⟩

theorem Groups.head (h : Groups quad text bytes) : ∃ c rest, text = c :: rest ∧ c ≠ ':' := by
  have hhextet : ∀ {text : List Char} {val : ℕ}, Hextet text val →
      ∃ c rest, text = c :: rest ∧ c ≠ ':' := by
    intro text val h
    obtain ⟨c, rest, rfl⟩ := List.exists_cons_of_ne_nil h.ne_nil
    refine ⟨c, rest, rfl, ?_⟩
    rintro rfl
    exact absurd (h.xdigit ':' List.mem_cons_self) (by decide)
  cases h with
  | last h => exact hhextet h
  | dotted _ octets =>
    obtain ⟨a, rest, htext⟩ := exists_dotted octets
    obtain ⟨c, digits, hdigits⟩ :=
      List.exists_cons_of_ne_nil (Nat.toDigits_ne_nil (n := a.toNat) (b := 10))
    refine ⟨c, digits ++ '.' :: rest, by rw [htext, decimal, hdigits, List.cons_append], ?_⟩
    rintro rfl
    have hdigit : ':' ∈ decimal a.toNat := by
      rw [decimal, hdigits]
      exact List.mem_cons_self
    exact absurd (isDigit_decimal hdigit) (by decide)
  | cons h _ =>
    obtain ⟨c, rest, rfl, hc⟩ := hhextet h
    exact ⟨c, _, rfl, hc⟩

theorem Groups.ne_nil (h : Groups quad text bytes) : text ≠ [] := by
  obtain ⟨c, rest, rfl, -⟩ := h.head
  exact List.cons_ne_nil c rest

theorem Side.groups (h : Side quad text bytes) (hne : text ≠ []) : Groups quad text bytes :=
  h.resolve_left fun hnil => hne hnil.1

/-- Groups, each with a colon behind it. -/
inductive Ended : List Char → List UInt8 → Prop
  | nil : Ended [] []
  | cons {text rest : List Char} {val : ℕ} {bytes : List UInt8} (h : Hextet text val)
    (hrest : Ended rest bytes) : Ended (text ++ ':' :: rest) (wordBytes val ++ bytes)

theorem Ended.cases (h : Ended text bytes) :
    text = [] ∧ bytes = [] ∨ ∃ front, text = front ++ [':'] ∧ Groups false front bytes := by
  induction h with
  | nil => exact .inl ⟨rfl, rfl⟩
  | cons h hrest ih =>
    rename_i text rest val bytes
    rcases ih with ⟨rfl, rfl⟩ | ⟨front, rfl, hfront⟩
    · exact .inr ⟨text, rfl, by rw [List.append_nil]; exact .last h⟩
    · exact .inr ⟨text ++ ':' :: front, by simp, .cons h hfront⟩

theorem Groups.ended (h : Groups false text bytes) : Ended (text ++ [':']) bytes := by
  induction h with
  | last h => simpa using Ended.cons h .nil
  | dotted hquad => cases hquad
  | cons h _ ih => simpa using Ended.cons h ih

theorem length_wordBytes (val : ℕ) : (wordBytes val).length = 2 := rfl

/-! ### What is accepted -/

/-- Behind `::`. -/
theorem scan_some (hlen : out.length ≤ 16) (text : List Char) :
    scan out (some c) text = .error .invalid ∨
      ∃ bytes, scan out (some c) text = .ok (out ++ bytes, some c) ∧ Side true text bytes ∧
        out.length + bytes.length ≤ 16 := by
  induction hn : text.length using Nat.strongRecOn generalizing out text with
  | _ n ih =>
    cases token text with
    | nil => exact .inr ⟨[], by rw [List.append_nil]; rfl, .inl ⟨rfl, rfl⟩, hlen⟩
    | gap rest => exact .inl rfl
    | last h =>
      rw [scan_last h]
      split
      · exact .inl rfl
      · exact .inr ⟨_, rfl, .inr (.last h), by rw [length_wordBytes]; omega⟩
    | colon h rest =>
      rename_i text val
      rw [scan_cons h]
      split
      · exact .inl rfl
      · rename_i hfits
        have hlen' : (out ++ wordBytes val).length ≤ 16 := by
          rw [List.length_append, length_wordBytes]
          omega
        have hshort : rest.length < n := by
          rw [← hn, List.length_append, List.length_cons]
          omega
        rcases ih _ hshort hlen' rest rfl with herr | ⟨bytes, hok, hside, hle⟩
        · exact .inl herr
        · refine .inr ⟨wordBytes val ++ bytes, by rw [hok, List.append_assoc],
            .inr (.cons h (hside.groups fun hnil => hfits (.inl hnil))), ?_⟩
          rw [List.length_append] at hle ⊢
          omega
    | dot h hle rest =>
      rw [scan_dot h hle]
      split
      · rename_i hfits
        rcases inetPton4_cases _ with ⟨octets, hok, htext⟩ | herr
        · rw [hok]
          refine .inr ⟨octets.bytes, rfl, .inr ?_, by rw [octets.length_bytes]; exact hfits⟩
          rw [← htext]
          exact .dotted rfl octets
        · rw [herr]
          exact .inl rfl
      · exact .inl rfl
    | bad h => exact .inl (h out (some c))

/-- In front of `::`, or in a text without it. -/
theorem scan_none (hlen : out.length ≤ 16) (hne : text ≠ []) :
    scan out none text = .error .invalid ∨
      (∃ bytes, scan out none text = .ok (out ++ bytes, none) ∧ Groups true text bytes ∧
        out.length + bytes.length ≤ 16) ∨
      ∃ front back high low, text = front ++ ':' :: back ∧ Ended front high ∧ Side true back low ∧
        scan out none text = .ok (out ++ (high ++ low), some (out.length + high.length)) ∧
        out.length + (high.length + low.length) ≤ 16 := by
  induction hn : text.length using Nat.strongRecOn generalizing out text with
  | _ n ih =>
    cases token text with
    | nil => exact absurd rfl hne
    | gap rest =>
      rcases scan_some hlen rest with herr | ⟨low, hok, hside, hle⟩
      · exact .inl herr
      · exact .inr (.inr ⟨[], rest, [], low, rfl, .nil, hside, hok, by
          rw [List.length_nil, Nat.zero_add]; exact hle⟩)
    | last h =>
      rw [scan_last h]
      split
      · exact .inl rfl
      · exact .inr (.inl ⟨_, rfl, .last h, by rw [length_wordBytes]; omega⟩)
    | colon h rest =>
      rename_i text val
      rw [scan_cons h]
      split
      · exact .inl rfl
      · rename_i hfits
        rw [not_or] at hfits
        have hlen' : (out ++ wordBytes val).length ≤ 16 := by
          rw [List.length_append, length_wordBytes]
          omega
        have hshort : rest.length < n := by
          rw [← hn, List.length_append, List.length_cons]
          omega
        rcases ih _ hshort hlen' hfits.1 rfl with herr | ⟨bytes, hok, hgroups, hle⟩ |
          ⟨front, back, high, low, rfl, hfront, hback, hok, hle⟩
        · exact .inl herr
        · refine .inr (.inl ⟨wordBytes val ++ bytes, by rw [hok, List.append_assoc],
            .cons h hgroups, ?_⟩)
          rw [List.length_append] at hle ⊢
          omega
        · rw [List.length_append, length_wordBytes] at hle hok
          refine .inr (.inr ⟨text ++ ':' :: front, back, wordBytes val ++ high, low, by simp,
            .cons h hfront, hback, ?_, ?_⟩)
          · rw [hok, List.length_append, length_wordBytes, Nat.add_assoc]
            simp only [List.append_assoc]
          · rw [List.length_append, length_wordBytes]
            omega
    | dot h hle rest =>
      rw [scan_dot h hle]
      split
      · rename_i hfits
        rcases inetPton4_cases _ with ⟨octets, hok, htext⟩ | herr
        · rw [hok]
          refine .inr (.inl ⟨octets.bytes, rfl, ?_, by rw [octets.length_bytes]; exact hfits⟩)
          rw [← htext]
          exact .dotted rfl octets
        · rw [herr]
          exact .inl rfl
      · exact .inl rfl
    | bad h => exact .inl (h out none)

/-! ### What is not rejected -/

theorem scan_dotted (octets : Octets 4) (hfits : out.length + 4 ≤ 16) :
    scan out colonp (dotted octets.bytes) = .ok (out ++ octets.bytes, colonp) := by
  obtain ⟨a, rest, htext⟩ := exists_dotted octets
  have hdigits : ∀ c ∈ decimal a.toNat, isXdigit c = true :=
    fun c hc => isXdigit_of_isDigit (isDigit_decimal hc)
  have hthree : (decimal a.toNat).length ≤ 3 :=
    (Nat.length_toDigits_le_iff (by decide) (by decide)).2 (a.toNat_lt.trans (by decide))
  have hlt : xvalue 0 (decimal a.toNat) < 16 ^ 3 := by
    refine (xvalue_lt _ hdigits 0).trans_le ?_
    rw [Nat.zero_add, Nat.one_mul]
    exact Nat.pow_le_pow_right (by decide) hthree
  have hscan : scan out colonp (decimal a.toNat ++ '.' :: rest) = _ :=
    scan_dot hdigits (show xvalue 0 (decimal a.toNat) ≤ 0xffff by omega)
  rw [← htext, if_pos hfits, inetPton4_dotted] at hscan
  exact hscan

theorem scan_groups (h : Groups quad text bytes) (hle : out.length + bytes.length ≤ 16) :
    scan out colonp text = .ok (out ++ bytes, colonp) := by
  induction h generalizing out with
  | last h => exact (scan_last h).trans (if_neg (Nat.not_lt.2 hle))
  | dotted _ octets =>
    rw [octets.length_bytes] at hle
    exact scan_dotted octets hle
  | cons h hrest ih =>
    rename_i text rest val bytes
    rw [List.length_append, length_wordBytes] at hle
    have hfits : ¬(rest = [] ∨ 16 < out.length + 2) := by
      rw [not_or]
      exact ⟨hrest.ne_nil, by omega⟩
    rw [scan_cons h, if_neg hfits, ih (by rw [List.length_append, length_wordBytes]; omega),
      List.append_assoc]

theorem scan_side (h : Side quad text bytes) (hle : out.length + bytes.length ≤ 16) :
    scan out colonp text = .ok (out ++ bytes, colonp) := by
  rcases h with ⟨rfl, rfl⟩ | h
  · rw [List.append_nil]
    rfl
  · exact scan_groups h hle

theorem scan_ended (h : Ended text bytes) (hne : rest ≠ []) (hle : out.length + bytes.length ≤ 16) :
    scan out colonp (text ++ rest) = scan (out ++ bytes) colonp rest := by
  induction h generalizing out with
  | nil => rw [List.nil_append, List.append_nil]
  | cons h hrest ih =>
    rename_i text tail val bytes
    rw [List.length_append, length_wordBytes] at hle
    have hfits : ¬(tail ++ rest = [] ∨ 16 < out.length + 2) := by
      rw [not_or]
      exact ⟨fun hnil => hne (List.append_eq_nil_iff.1 hnil).2, by omega⟩
    rw [List.append_assoc, List.cons_append, scan_cons h, if_neg hfits,
      ih (by rw [List.length_append, length_wordBytes]; omega), List.append_assoc]

/-! ### The address -/

theorem inetPton6Groups_eq (src : List Char) : inetPton6Groups src = (do
    let found ← scan [] none src
    let tmp ← spread found.1 found.2
    copyOut tmp) := by
  unfold inetPton6Groups scan
  cases Hextets.run { curtok := src } src with
  | error halt => rfl
  | ok w =>
    change (do let out ← w.drain; _) = _
    cases hdrain : w.drain with
    | error halt => simp [bind, Except.bind, hdrain]
    | ok out => simp [bind, Except.bind, hdrain, pure, Except.pure]

theorem spread_none (out : List UInt8) : (do
    let tmp ← spread out none
    copyOut tmp) = if h : out.length = 16 then .ok ⟨out, h⟩ else .error .invalid := by
  by_cases h : out.length = 16
  · have htmp : spread out none = .ok out := by simp [spread, h]
    rw [htmp, dif_pos h]
    exact dif_pos h
  · have htmp : spread out none = .error .invalid := by simp [spread, h]
    rw [htmp, dif_neg h]
    rfl

theorem spread_some {high low : List UInt8} (hle : high.length + low.length ≤ 16) : (do
    let tmp ← spread (high ++ low) (some high.length)
    copyOut tmp) =
      if high.length + low.length < 16 then
        copyOut (high ++ List.replicate (16 - (high.length + low.length)) 0 ++ low)
      else .error .invalid := by
  have hlen : (high ++ low).length = high.length + low.length := List.length_append
  by_cases h : high.length + low.length < 16
  · have htmp : spread (high ++ low) (some high.length) =
        .ok (high ++ List.replicate (16 - (high.length + low.length)) 0 ++ low) := by
      have hne : high.length + low.length ≠ 16 := by omega
      simp only [spread, hlen, if_neg hne, Nat.add_sub_cancel_left, shift_eq high low h]
    rw [htmp, if_pos h]
    rfl
  · have hfull : high.length + low.length = 16 := by omega
    have htmp : spread (high ++ low) (some high.length) = .error .invalid := by
      simp only [spread, hlen, if_pos hfull]
    rw [htmp, if_neg h]
    rfl

theorem copyOut_ok {tmp : List UInt8} {addr : Octets 16} (h : addr.bytes = tmp) :
    copyOut tmp = .ok addr := by
  subst h
  exact dif_pos addr.length_bytes

/-- Nothing is left behind the zeros: the text in front of `::` and the text behind it. -/
theorem inetPton6Groups_zeros {front back : List Char} {high low : List UInt8} {addr : Octets 16}
    (hfront : Ended front high) (hback : Side true back low)
    (hlt : high.length + low.length < 16)
    (h : addr.bytes = high ++ List.replicate (16 - (high.length + low.length)) 0 ++ low) :
    inetPton6Groups (front ++ ':' :: back) = .ok addr := by
  have hscan : scan [] none (front ++ ':' :: back) = .ok (high ++ low, some high.length) := by
    rw [scan_ended hfront (List.cons_ne_nil _ _) (by rw [List.length_nil]; omega), scan_gap,
      List.nil_append, scan_side hback (by omega)]
  rw [inetPton6Groups_eq, hscan]
  change (do
    let tmp ← spread (high ++ low) (some high.length)
    copyOut tmp) = _
  rw [spread_some (by omega), if_pos hlt, copyOut_ok h]

theorem inetPton6Groups_full {addr : Octets 16} (h : Groups true text addr.bytes) :
    inetPton6Groups text = .ok addr := by
  rw [inetPton6Groups_eq, scan_groups h (by rw [addr.length_bytes, List.length_nil]),
    List.nil_append]
  change (do
    let tmp ← spread addr.bytes none
    copyOut tmp) = _
  rw [spread_none, dif_pos addr.length_bytes]

/-- What is accepted behind the leading colon. -/
theorem inetPton6Groups_cases (text : List Char) : inetPton6Groups text = .error .invalid ∨
    ∃ addr, inetPton6Groups text = .ok addr ∧ (Groups true text addr.bytes ∨
      ∃ front back high low, text = front ++ ':' :: back ∧ Ended front high ∧ Side true back low ∧
        high.length + low.length < 16 ∧
        addr.bytes = high ++ List.replicate (16 - (high.length + low.length)) 0 ++ low) := by
  by_cases hnil : text = []
  · subst hnil
    exact .inl rfl
  have hempty : ([] : List UInt8).length ≤ 16 := Nat.zero_le 16
  rcases scan_none hempty hnil with herr | ⟨bytes, hok, hgroups, -⟩ |
    ⟨front, back, high, low, rfl, hfront, hback, hok, hle⟩
  · refine .inl ?_
    rw [inetPton6Groups_eq, herr]
    rfl
  · have hresult : inetPton6Groups text =
        if h : bytes.length = 16 then .ok ⟨bytes, h⟩ else .error .invalid := by
      rw [inetPton6Groups_eq, hok]
      exact spread_none bytes
    by_cases h : bytes.length = 16
    · exact .inr ⟨⟨bytes, h⟩, hresult.trans (dif_pos h), .inl hgroups⟩
    · exact .inl (hresult.trans (dif_neg h))
  · simp only [List.nil_append, List.length_nil, Nat.zero_add] at hok hle
    have hresult : inetPton6Groups (front ++ ':' :: back) = (do
        let tmp ← spread (high ++ low) (some high.length)
        copyOut tmp) := by
      rw [inetPton6Groups_eq, hok]
      rfl
    rw [spread_some hle] at hresult
    by_cases h : high.length + low.length < 16
    · rw [if_pos h] at hresult
      have hlen :
          (high ++ List.replicate (16 - (high.length + low.length)) 0 ++ low).length = 16 := by
        simp only [List.length_append, List.length_replicate]
        omega
      exact .inr ⟨⟨_, hlen⟩, hresult.trans (copyOut_ok rfl), .inr
        ⟨front, back, high, low, rfl, hfront, hback, h, rfl⟩⟩
    · exact .inl (hresult.trans (if_neg h))

theorem Groups.inetPton6_eq (h : Groups quad text bytes) :
    inetPton6 text = inetPton6Groups text := by
  obtain ⟨c, rest, rfl, hc⟩ := h.head
  unfold inetPton6
  split
  · rename_i heq
    exact absurd (List.cons.inj heq).1 hc
  · rfl

/-- Every text of an address is taken. -/
theorem Spells.inetPton6_eq {addr : Octets 16} (h : Spells addr text) :
    inetPton6 text = .ok addr := by
  cases h with
  | full h => exact h.inetPton6_eq.trans (inetPton6Groups_full h)
  | zeros hfront hback hlt h =>
    rename_i front back high low
    rcases hfront with ⟨rfl, rfl⟩ | hfront
    · exact inetPton6Groups_zeros .nil hback hlt h
    · have hzeros := inetPton6Groups_zeros hfront.ended hback hlt h
      rw [List.append_assoc] at hzeros
      obtain ⟨c, rest, rfl, hc⟩ := hfront.head
      unfold inetPton6
      split
      · rename_i heq
        exact absurd (List.cons.inj heq).1 hc
      · exact hzeros

/-- And no other text is. -/
theorem inetPton6_cases (text : List Char) :
    (∃ addr, inetPton6 text = .ok addr ∧ Spells addr text) ∨ inetPton6 text = .error .invalid := by
  unfold inetPton6
  split
  · rename_i src
    split
    · rename_i hcolon
      obtain ⟨rest, rfl⟩ := List.head?_eq_some_iff.1 hcolon
      rcases inetPton6Groups_cases (':' :: rest) with herr | ⟨addr, hok, hgroups |
        ⟨front, back, high, low, htext, hfront, hback, hlt, h⟩⟩
      · exact .inr herr
      · obtain ⟨c, rest', htext, hc⟩ := hgroups.head
        exact absurd (List.cons.inj htext).1.symm hc
      · refine .inl ⟨addr, hok, ?_⟩
        rcases hfront.cases with ⟨rfl, rfl⟩ | ⟨front, rfl, hgroups⟩
        · obtain rfl := (List.cons.inj htext).2
          exact .zeros (.inl ⟨rfl, rfl⟩) hback hlt h
        · obtain ⟨c, rest', rfl, hc⟩ := hgroups.head
          exact absurd (List.cons.inj htext).1.symm hc
    · exact .inr rfl
  · rename_i hsrc
    rcases inetPton6Groups_cases text with herr | ⟨addr, hok, hgroups |
      ⟨front, back, high, low, rfl, hfront, hback, hlt, h⟩⟩
    · exact .inr herr
    · exact .inl ⟨addr, hok, .full hgroups⟩
    · rcases hfront.cases with ⟨rfl, rfl⟩ | ⟨front, rfl, hfront'⟩
      · exact (hsrc back rfl).elim
      · refine .inl ⟨addr, hok, ?_⟩
        rw [List.append_assoc]
        exact .zeros (.inr hfront') hback hlt h

end

/-- `inet_pton6` takes the texts that spell an address, for that address, and never stores behind
`tmp`. -/
theorem inetPton6_iff (text : List Char) :
    (∀ addr, inetPton6 text = .ok addr ↔ Spells addr text) ∧ inetPton6 text ≠ .error .outside := by
  rcases inetPton6_cases text with ⟨addr, hok, hspells⟩ | herr
  · refine ⟨fun addr' => ⟨fun h => ?_, Spells.inetPton6_eq⟩, by rw [hok]; simp⟩
    rw [hok] at h
    cases h
    exact hspells
  · refine ⟨fun addr => ⟨fun h => ?_, Spells.inetPton6_eq⟩, by rw [herr]; simp⟩
    rw [herr] at h
    cases h

end Yasio
