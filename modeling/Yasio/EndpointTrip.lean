import Yasio.EndpointText

/-!
# Endpoints, their text, and back

The two parsers of `endpoint` on the same address and port, and `as_is` on what `to_string` prints.
-/

namespace Yasio

open Scan
open Throwing (Returns)

/-- What the C library promises of its functions: each address has a text, and a text of an address
is short and has none of the characters that delimit it. -/
structure Inet.Lawful (inet : Inet) : Prop where
  pton4_ntop4 : ∀ addr < 2 ^ 32, inet.pton4 (inet.ntop4 addr) = some addr
  pton6_ntop6 : ∀ addr < 2 ^ 128, inet.pton6 (inet.ntop6 addr) = some addr
  text4 : ∀ text addr, inet.pton4 text = some addr →
    0 < text.length ∧ text.length < 16 ∧ ∀ c ∈ text, c.isDigit = true ∨ c = '.'
  text6 : ∀ text addr, inet.pton6 text = some addr →
    text.length < IN_MAX_ADDRSTRLEN ∧ ':' ∈ text ∧
      ∀ c ∈ text, c.isAlphanum = true ∨ c = ':' ∨ c = '.'

/-- `snprintf` with `%u` -/
def decimal (n : ℕ) : List Char := Nat.toDigits 10 n

/-- The port that `format_to` appends; `fmt_no_port_0` is one of the default flags. -/
def portText (port : ℕ) : List Char := if port = 0 then [] else ':' :: decimal port

/-- `to_string` with the default flags, which are without `fmt_no_local`. -/
def Endpoint.toText (inet : Inet) : Endpoint → List Char
  | .in4 addr port =>
    if inet.ntop4 addr = [] then [] else inet.ntop4 addr ++ portText port
  | .in6 port _ addr _ _ => '[' :: inet.ntop6 addr ++ ']' :: portText port
  | .unspec => []

/-- The numbers of an IPv4 or an IPv6 endpoint fit. -/
def Endpoint.Valid : Endpoint → Prop
  | .in4 addr port => addr < 2 ^ 32 ∧ port < 2 ^ 16
  | .in6 port _ addr _ _ => addr < 2 ^ 128 ∧ port < 2 ^ 16
  | .unspec => False

/-- `scope_id` -/
def Endpoint.scopeId : Endpoint → ℕ
  | .in6 _ _ _ scopeId _ => scopeId
  | _ => 0

/-- A zone with the percent sign in front of it. -/
def zoneText (zone : Option (List Char)) : List Char := zone.elim [] fun name => '%' :: name

/-! ## Numbers -/

theorem returns_atoiDigits {text : List Char} (h : ∀ c ∈ text, c.isDigit = true) (i value : ℕ) :
    Returns (atoiDigits i text value) (Nat.ofDigitChars 10 text value) := by
  induction text generalizing i value with
  | nil => exact (Returns.modify _).bind (.pure _)
  | cons x xs ih =>
    refine (Returns.modify _).bind ?_
    rw [if_pos (h x List.mem_cons_self), Nat.ofDigitChars_cons]
    exact ih (fun c hc => h c (List.mem_cons_of_mem x hc)) _ _

theorem isspace_of_isDigit {c : Char} (h : c.isDigit = true) :
    isspace c = false ∧ c ≠ '-' ∧ c ≠ '+' := by
  refine ⟨?_, ?_, ?_⟩
  · by_contra hspace
    have hmem : c ∈ [' ', '\t', '\n', '\x0b', '\x0c', '\r'] :=
      of_decide_eq_true ((Bool.not_eq_false _).mp hspace)
    have hnone : [' ', '\t', '\n', '\x0b', '\x0c', '\r'].all (fun c => !c.isDigit) = true := by
      decide
    have hdigit := List.all_eq_true.1 hnone c hmem
    rw [h] at hdigit
    exact Bool.false_ne_true hdigit
  · rintro rfl
    exact absurd h (by decide)
  · rintro rfl
    exact absurd h (by decide)

theorem returns_atoi {text : List Char} (hne : text ≠ [])
    (h : ∀ c ∈ text, c.isDigit = true) (i : ℕ) :
    Returns (atoi i text) (Nat.ofDigitChars 10 text 0) := by
  cases text with
  | nil => exact absurd rfl hne
  | cons x xs =>
    obtain ⟨hspace, hminus, hplus⟩ := isspace_of_isDigit (h x List.mem_cons_self)
    refine (Returns.modify _).bind ?_
    rw [hspace, if_neg Bool.false_ne_true, if_neg hminus, if_neg hplus]
    exact (returns_atoiDigits h i 0).bind (.pure _)

theorem isDigit_decimal {n : ℕ} {c : Char} (h : c ∈ decimal n) : c.isDigit = true :=
  Nat.isDigit_of_mem_toDigits (by decide) (by decide) h

/-- A port is read as it was printed. -/
theorem returns_atoiPort {port : ℕ} (h : port < 2 ^ 16) (i : ℕ) :
    Returns (atoiPort i (decimal port)) port := by
  have hvalue : Returns (atoi i (decimal port)) _ :=
    returns_atoi Nat.toDigits_ne_nil (fun c hc => isDigit_decimal hc) i
  unfold decimal at hvalue
  rw [Nat.ofDigitChars_ten_toDigits] at hvalue
  refine hvalue.bind ?_
  have hport : ((port : Int) % 2 ^ 16).toNat = port := by omega
  rw [hport]
  exact .pure _

/-! ## Delimiters -/

theorem idxOf?_append_cons {c : Char} {l : List Char} (h : c ∉ l) (r : List Char) :
    (l ++ c :: r).idxOf? c = some l.length := by
  rw [List.idxOf?_eq_some_iff]
  refine ⟨by simp, by simp, fun j hj heq => h ?_⟩
  rw [List.getElem_append_left hj] at heq
  exact heq ▸ List.getElem_mem hj

section

variable {inet : Inet} {left left' : ℕ × ℕ} {i : ℕ} {ip : List Char}

theorem returns_copyPart (n : ℕ) : Returns (copyPart i ip n) (ip.take n) :=
  (Returns.modify _).bind ((Returns.modify _).bind (.pure _))

/-- Without a percent sign, what is in front of `endptr` is the address. -/
theorem returns_parseIn6Zone_none (hzone : '%' ∉ ip) (endptr : Option ℕ) :
    Returns (parseIn6Zone inet i ip endptr)
      (0, endptr.map fun e => ip.take (min (e - i) (IN_MAX_ADDRSTRLEN - 1))) := by
  have hfind := returns_strchr '%' ip i
  rw [List.idxOf?_eq_none_iff.2 hzone] at hfind
  refine hfind.bind ((Returns.pure _).bind ?_)
  cases endptr with
  | none => exact .pure _
  | some e => exact (returns_copyPart _).bind (.pure _)

/-- With one, what is in front of it, and what follows it up to the terminator is the zone. -/
theorem returns_parseIn6Zone_some {addr name : List Char} (haddr : '%' ∉ addr)
    (hlen : addr.length < IN_MAX_ADDRSTRLEN) (endptr : Option ℕ) :
    Returns (parseIn6Zone inet i (addr ++ '%' :: name) endptr)
      (inet.nameToIndex name, some addr) := by
  have hfind := returns_strchr '%' (addr ++ '%' :: name) i
  rw [idxOf?_append_cons haddr] at hfind
  have hname : (addr ++ '%' :: name).drop (i + addr.length + 1 - i) = name := by
    rw [show i + addr.length + 1 - i = addr.length + 1 by omega, List.drop_append]
    simp
  have hpart : (addr ++ '%' :: name).take
      (min (i + addr.length - i) (IN_MAX_ADDRSTRLEN - 1)) = addr := by
    rw [show min (i + addr.length - i) (IN_MAX_ADDRSTRLEN - 1) = addr.length by
      unfold IN_MAX_ADDRSTRLEN at *; omega, List.take_left]
  refine hfind.bind (Returns.bind (a := inet.nameToIndex name) ?_ ?_)
  · refine (Returns.modify _).bind ?_
    dsimp only
    rw [hname]
    exact .pure _
  · have hcopy : Returns (copyPart i (addr ++ '%' :: name) _) _ :=
      returns_copyPart (min (i + addr.length - i) (IN_MAX_ADDRSTRLEN - 1))
    rw [hpart] at hcopy
    exact hcopy.bind (.pure _)

/-- The branch of `as_is` for a text with a bracket, once its helper is known. -/
theorem returns_asIs6 {text : List Char} {port zone : ℕ} {part : Option (List Char)}
    (hport : port < 2 ^ 16) (hbracket : ']' ∉ text)
    (hzone : Returns (parseIn6Zone inet 1 (text ++ ']' :: ':' :: decimal port)
      (some (1 + text.length))) (zone, part)) :
    Returns (asIs6 inet left (text ++ ']' :: ':' :: decimal port))
      (asIn6 inet left (part.getD (text ++ ']' :: ':' :: decimal port)) port zone) := by
  have hfind : Returns (strchr ']' 1 (text ++ ']' :: ':' :: decimal port))
      (some (1 + text.length)) := by
    have hfirst := returns_strchr ']' (text ++ ']' :: ':' :: decimal port) 1
    rwa [idxOf?_append_cons hbracket] at hfirst
  have hcolon : (text ++ ']' :: ':' :: decimal port)[1 + text.length]? = some ':' := by
    rw [Nat.add_comm, List.getElem?_append_right (Nat.le_succ _)]
    simp
  have hrest : (text ++ ']' :: ':' :: decimal port).drop (1 + text.length + 1) =
      decimal port := by
    rw [show 1 + text.length + 1 = text.length + 2 by omega, List.drop_length_add_append]
    rfl
  refine hfind.bind ((Returns.modify _).bind ?_)
  rw [if_pos hcolon]
  refine hzone.bind ?_
  dsimp only
  rw [hrest]
  exact (returns_atoiPort hport _).bind (.pure _)

theorem returns_asIs_bracket {ep : Endpoint} (h : Returns (asIs6 inet left ip) ep) :
    Returns (asIs inet left ('[' :: ip)) ep := (Returns.modify _).bind h

/-- Text of an IPv6 address has no bracket and no percent sign. -/
theorem Inet.Lawful.notMem6 (h : inet.Lawful) {text : List Char} {addr : ℕ}
    (haddr : inet.pton6 text = some addr) : ']' ∉ text ∧ '%' ∉ text := by
  have hchars := (h.text6 text addr haddr).2.2
  constructor
  · intro hmem
    exact absurd (hchars _ hmem) (by decide)
  · intro hmem
    exact absurd (hchars _ hmem) (by decide)

theorem asIn6_of_pton6 {text : List Char} {addr : ℕ} (haddr : inet.pton6 text = some addr)
    (port zone : ℕ) :
    asIn6 inet left text port zone = .in6 port left.1 addr zone left.2 := by
  unfold asIn6
  rw [haddr]

theorem asIn4_of_pton4 {text : List Char} {addr : ℕ} (haddr : inet.pton4 text = some addr)
    (port : ℕ) : asIn4 inet text port = .in4 addr port := by
  unfold asIn4
  rw [haddr]

/-- `as_is` of a bracketed address without a zone. -/
theorem returns_asIs_plain (h : inet.Lawful) {text : List Char} {addr port : ℕ}
    (haddr : inet.pton6 text = some addr) (hport : port < 2 ^ 16) :
    Returns (asIs inet left ('[' :: text ++ ']' :: ':' :: decimal port))
      (.in6 port left.1 addr 0 left.2) := by
  obtain ⟨hbracket, hpercent⟩ := h.notMem6 haddr
  have hlen := (h.text6 text addr haddr).1
  have hnone : '%' ∉ text ++ ']' :: ':' :: decimal port := by
    intro hmem
    rcases List.mem_append.1 hmem with hmem | hmem
    · exact hpercent hmem
    · simp only [List.mem_cons] at hmem
      rcases hmem with hmem | hmem | hmem
      · exact absurd hmem (by decide)
      · exact absurd hmem (by decide)
      · exact absurd (isDigit_decimal hmem) (by decide)
  have hzone : Returns (parseIn6Zone inet 1 (text ++ ']' :: ':' :: decimal port) _) _ :=
    returns_parseIn6Zone_none hnone (some (1 + text.length))
  have hpart : (text ++ ']' :: ':' :: decimal port).take
      (min (1 + text.length - 1) (IN_MAX_ADDRSTRLEN - 1)) = text := by
    rw [show min (1 + text.length - 1) (IN_MAX_ADDRSTRLEN - 1) = text.length by
      unfold IN_MAX_ADDRSTRLEN at *; omega, List.take_left]
  rw [Option.map_some, hpart] at hzone
  have hresult : Returns (asIs6 inet left _) _ := returns_asIs6 hport hbracket hzone
  rw [Option.getD_some, asIn6_of_pton6 haddr] at hresult
  exact returns_asIs_bracket hresult

/-- `as_is` of one with a zone asks for the index of all that follows the percent sign. -/
theorem returns_asIs_zone (h : inet.Lawful) {text name : List Char} {addr port : ℕ}
    (haddr : inet.pton6 text = some addr) (hname : ']' ∉ name) (hport : port < 2 ^ 16) :
    Returns (asIs inet left ('[' :: (text ++ '%' :: name) ++ ']' :: ':' :: decimal port))
      (.in6 port left.1 addr (inet.nameToIndex (name ++ ']' :: ':' :: decimal port)) left.2) := by
  obtain ⟨hbracket, hpercent⟩ := h.notMem6 haddr
  have hlen := (h.text6 text addr haddr).1
  have hnone : ']' ∉ text ++ '%' :: name := by
    intro hmem
    rcases List.mem_append.1 hmem with hmem | hmem
    · exact hbracket hmem
    · rcases List.mem_cons.1 hmem with hmem | hmem
      · exact absurd hmem (by decide)
      · exact hname hmem
  have hzone : Returns (parseIn6Zone inet 1 (text ++ '%' :: (name ++ ']' :: ':' :: decimal port))
      (some (1 + (text ++ '%' :: name).length))) _ :=
    returns_parseIn6Zone_some hpercent hlen _
  rw [← List.cons_append, ← List.append_assoc] at hzone
  have hresult : Returns (asIs6 inet left _) _ := returns_asIs6 hport hnone hzone
  rw [Option.getD_some, asIn6_of_pton6 haddr] at hresult
  exact returns_asIs_bracket hresult

theorem returns_asIn_plain (h : inet.Lawful) {text : List Char} {addr : ℕ}
    (haddr : inet.pton6 text = some addr) (port : ℕ) :
    Returns (asIn inet left text port) (.in6 port left.1 addr 0 left.2) := by
  obtain ⟨n, hn⟩ := Option.isSome_iff_exists.1
    (List.isSome_idxOf?.2 (h.text6 text addr haddr).2.1)
  have hfind := returns_strchr ':' text 0
  rw [hn, Option.map_some] at hfind
  refine hfind.bind ((returns_parseIn6Zone_none (h.notMem6 haddr).2 none).bind ?_)
  refine (Returns.modify _).bind ?_
  rw [asIn6_of_pton6 haddr]
  exact .pure _

theorem returns_asIn_zone (h : inet.Lawful) {text : List Char} {addr : ℕ}
    (haddr : inet.pton6 text = some addr) (name : List Char) (port : ℕ) :
    Returns (asIn inet left (text ++ '%' :: name) port)
      (.in6 port left.1 addr (inet.nameToIndex name) left.2) := by
  obtain ⟨n, hn⟩ := Option.isSome_iff_exists.1
    (List.isSome_idxOf?.2 (List.mem_append_left ('%' :: name) (h.text6 text addr haddr).2.1))
  have hfind := returns_strchr ':' (text ++ '%' :: name) 0
  rw [hn, Option.map_some] at hfind
  refine hfind.bind ((returns_parseIn6Zone_some (h.notMem6 haddr).2
    (h.text6 text addr haddr).1 none).bind ?_)
  dsimp only
  rw [asIn6_of_pton6 haddr]
  exact .pure _

/-! ## IPv4 -/

/-- Text of an IPv4 address has no colon and no bracket in it. -/
theorem Inet.Lawful.notMem4 (h : inet.Lawful) {text : List Char} {addr : ℕ}
    (haddr : inet.pton4 text = some addr) : ':' ∉ text ∧ '[' ∉ text := by
  have hchars := (h.text4 text addr haddr).2.2
  constructor
  · intro hmem
    exact absurd (hchars _ hmem) (by decide)
  · intro hmem
    exact absurd (hchars _ hmem) (by decide)

theorem returns_asIs4 (h : inet.Lawful) {text : List Char} {addr port : ℕ}
    (haddr : inet.pton4 text = some addr) (hport : port < 2 ^ 16) :
    Returns (asIs inet left (text ++ ':' :: decimal port)) (.in4 addr port) := by
  obtain ⟨hcolon, hbracket⟩ := h.notMem4 haddr
  have hhead : (text ++ ':' :: decimal port).head? ≠ some '[' := by
    cases text with
    | nil => exact nofun
    | cons x xs =>
      intro heq
      obtain rfl := Option.some.inj heq
      exact hbracket List.mem_cons_self
  have hfind := returns_strchr ':' (text ++ ':' :: decimal port) 0
  rw [idxOf?_append_cons hcolon, Option.map_some, Nat.zero_add] at hfind
  have hcopy : Returns (copyPart 0 (text ++ ':' :: decimal port) _) _ :=
    returns_copyPart text.length
  rw [List.take_left] at hcopy
  have hrest : (text ++ ':' :: decimal port).drop (text.length + 1) = decimal port := by
    rw [List.drop_append]
    simp
  rw [asIs_of_ne hhead]
  refine (Returns.modify _).bind (hfind.bind (hcopy.bind ?_))
  rw [hrest, ← asIn4_of_pton4 haddr]
  exact (returns_atoiPort hport _).bind (.pure _)

theorem returns_asIn4 (h : inet.Lawful) {text : List Char} {addr : ℕ}
    (haddr : inet.pton4 text = some addr) (port : ℕ) :
    Returns (asIn inet left text port) (.in4 addr port) := by
  have hfind := returns_strchr ':' text 0
  rw [List.idxOf?_eq_none_iff.2 (h.notMem4 haddr).1] at hfind
  refine hfind.bind ((Returns.modify _).bind ?_)
  rw [asIn4_of_pton4 haddr]
  exact .pure _

/-! ## The text of an endpoint -/

theorem portText_of_ne {port : ℕ} (h : port ≠ 0) : portText port = ':' :: decimal port := if_neg h

theorem returns_toText (h : inet.Lawful) {ep : Endpoint} (hvalid : ep.Valid)
    (hscope : ep.scopeId = 0) (hport : ep.port ≠ 0) :
    ∃ ep', Returns (asIs inet left (ep.toText inet)) ep' ∧ ep'.Same ep := by
  cases ep with
  | unspec => exact hvalid.elim
  | in4 addr port =>
    have haddr := h.pton4_ntop4 addr hvalid.1
    have hne : inet.ntop4 addr ≠ [] := List.ne_nil_of_length_pos (h.text4 _ addr haddr).1
    refine ⟨.in4 addr port, ?_, And.intro rfl rfl⟩
    rw [Endpoint.toText, if_neg hne, show portText port = _ from portText_of_ne hport]
    exact returns_asIs4 h haddr hvalid.2
  | in6 port flowinfo addr scopeId pad =>
    have haddr := h.pton6_ntop6 addr hvalid.1
    refine ⟨.in6 port left.1 addr 0 left.2, ?_, And.intro rfl (And.intro rfl hscope.symm)⟩
    rw [Endpoint.toText, show portText port = _ from portText_of_ne hport]
    exact returns_asIs_plain h haddr hvalid.2

end

/-- The two parsers agree on the address and the port, without a zone also on the scope; and what is
printed with a port is parsed back. -/
theorem asIs_agrees {inet : Inet} (h : inet.Lawful) (left left' : ℕ × ℕ) :
    (∀ text addr, inet.pton6 text = some addr → ∀ zone : Option (List Char),
      (∀ name ∈ zone, ']' ∉ name) → ∀ port : UInt16, ∃ scope scope',
        Returns (asIs inet left
            ('[' :: (text ++ zoneText zone) ++ ']' :: ':' :: decimal port.toNat))
          (.in6 port.toNat left.1 addr scope left.2) ∧
        Returns (asIn inet left' (text ++ zoneText zone) port.toNat)
          (.in6 port.toNat left'.1 addr scope' left'.2) ∧
        (zone = none → scope = scope')) ∧
    (∀ text addr, inet.pton4 text = some addr → ∀ port : UInt16,
      Returns (asIs inet left (text ++ ':' :: decimal port.toNat)) (.in4 addr port.toNat) ∧
        Returns (asIn inet left' text port.toNat) (.in4 addr port.toNat)) ∧
    ∀ ep : Endpoint, ep.Valid → ep.scopeId = 0 → ep.port ≠ 0 →
      ∃ ep', Returns (asIs inet left (ep.toText inet)) ep' ∧ ep'.Same ep := by
  refine ⟨?_, ?_, fun ep => returns_toText h⟩
  · intro text addr haddr zone hzone port
    cases zone with
    | none =>
      refine ⟨0, 0, ?_, ?_, fun _ => rfl⟩
      · rw [zoneText, Option.elim_none, List.append_nil]
        exact returns_asIs_plain h haddr port.toNat_lt
      · rw [zoneText, Option.elim_none, List.append_nil]
        exact returns_asIn_plain h haddr port.toNat
    | some name =>
      refine ⟨_, _, returns_asIs_zone h haddr (hzone name rfl) port.toNat_lt,
        returns_asIn_zone h haddr name port.toNat, nofun⟩
  · intro text addr haddr port
    exact ⟨returns_asIs4 h haddr port.toNat_lt, returns_asIn4 h haddr port.toNat⟩

/-! ## Addresses in groups of digits -/

/-- The last `k` digits of a number to the base `b`. -/
def groups (b : ℕ) : ℕ → ℕ → List ℕ
  | 0, _ => []
  | k + 1, n => groups b k (n / b) ++ [n % b]

def ungroup (b : ℕ) (gs : List ℕ) : ℕ := gs.foldl (fun v g => v * b + g) 0

def hexValue (c : Char) : ℕ := if c.isDigit then c.toNat - 48 else c.toNat - 87

def ofHex (text : List Char) : ℕ := text.foldl (fun v c => 16 * v + hexValue c) 0

theorem ungroup_groups (b k n : ℕ) : ungroup b (groups b k n) = n % b ^ k := by
  induction k generalizing n with
  | zero => simp [groups, ungroup, Nat.mod_one]
  | succ k ih =>
    unfold ungroup at ih ⊢
    rw [groups, List.foldl_append, ih, List.foldl_cons, List.foldl_nil, Nat.pow_succ', Nat.mod_mul,
      Nat.mul_comm, Nat.add_comm]

theorem lt_of_mem_groups {b k n g : ℕ} (hb : 0 < b) (h : g ∈ groups b k n) : g < b := by
  induction k generalizing n with
  | zero => cases h
  | succ k ih =>
    rcases List.mem_append.1 h with h | h
    · exact ih h
    · rw [List.mem_singleton.1 h]
      exact Nat.mod_lt n hb

theorem length_groups (b k n : ℕ) : (groups b k n).length = k := by
  induction k generalizing n with
  | zero => rfl
  | succ k ih => rw [groups, List.length_append, ih, List.length_singleton]

theorem ofHex_toDigits (n : ℕ) : ofHex (Nat.toDigits 16 n) = n := by
  induction n using Nat.strongRecOn with
  | _ n ih =>
    have hdigit : ∀ d < 16, hexValue (Nat.digitChar d) = d := by decide
    by_cases hn : n < 16
    · rw [Nat.toDigits_of_lt_base hn]
      simp [ofHex, hdigit n hn]
    · have hrest := ih (n / 16) (by omega)
      unfold ofHex at hrest ⊢
      rw [Nat.toDigits_of_base_le (by decide) (by omega), List.foldl_append, hrest,
        List.foldl_cons, List.foldl_nil, hdigit _ (Nat.mod_lt n (by decide))]
      exact Nat.div_add_mod n 16

theorem isAlphanum_of_mem_toDigits {n : ℕ} {c : Char} (h : c ∈ Nat.toDigits 16 n) :
    c.isAlphanum = true := by
  induction n using Nat.strongRecOn with
  | _ n ih =>
    have hdigit : ∀ d < 16, (Nat.digitChar d).isAlphanum = true := by decide
    by_cases hn : n < 16
    · rw [Nat.toDigits_of_lt_base hn] at h
      rw [List.mem_singleton.1 h]
      exact hdigit n hn
    · rw [Nat.toDigits_of_base_le (by decide) (by omega)] at h
      rcases List.mem_append.1 h with h | h
      · exact ih (n / 16) (by omega) h
      · rw [List.mem_singleton.1 h]
        exact hdigit _ (Nat.mod_lt n (by decide))

theorem mem_intercalate {sep c : Char} {parts : List (List Char)}
    (h : c ∈ [sep].intercalate parts) : c = sep ∨ ∃ part ∈ parts, c ∈ part := by
  induction parts with
  | nil => cases h
  | cons part parts ih =>
    cases parts with
    | nil =>
      rw [List.intercalate_singleton] at h
      exact .inr ⟨part, List.mem_cons_self, h⟩
    | cons next rest =>
      rw [List.intercalate_cons_cons, List.append_assoc, List.singleton_append] at h
      rcases List.mem_append.1 h with h | h
      · exact .inr ⟨part, List.mem_cons_self, h⟩
      · rcases List.mem_cons.1 h with h | h
        · exact .inl h
        · rcases ih h with h | ⟨part', hpart', h⟩
          · exact .inl h
          · exact .inr ⟨part', List.mem_cons_of_mem part hpart', h⟩

theorem length_intercalate_le {sep : Char} {parts : List (List Char)} {n : ℕ} (hne : parts ≠ [])
    (h : ∀ part ∈ parts, part.length ≤ n) :
    ([sep].intercalate parts).length + 1 ≤ parts.length * (n + 1) := by
  induction parts with
  | nil => exact absurd rfl hne
  | cons part parts ih =>
    have hpart := h part List.mem_cons_self
    cases parts with
    | nil =>
      rw [List.intercalate_singleton, List.length_singleton]
      omega
    | cons next rest =>
      have hrest := ih (List.cons_ne_nil next rest) fun p hp => h p (List.mem_cons_of_mem part hp)
      rw [List.intercalate_cons_cons, List.append_assoc, List.singleton_append,
        List.length_append, List.length_cons, List.length_cons, Nat.succ_mul]
      omega

/-- A text that is made of groups. -/
def grouped (sep : Char) (base k : ℕ) (digits : ℕ → List Char) (n : ℕ) : List Char :=
  [sep].intercalate ((groups base k n).map digits)

theorem splitOn_grouped {sep : Char} {base k : ℕ} {digits : ℕ → List Char} {n : ℕ} (hk : k ≠ 0)
    (hsep : ∀ g, sep ∉ digits g) :
    (grouped sep base k digits n).splitOn sep = (groups base k n).map digits := by
  apply List.splitOn_intercalate
  · intro part hpart
    obtain ⟨g, -, rfl⟩ := List.mem_map.1 hpart
    exact hsep g
  · intro hnil
    have hlen := length_groups base k n
    rw [List.map_eq_nil_iff.1 hnil] at hlen
    exact hk hlen.symm

theorem length_grouped {sep : Char} {base k w : ℕ} {digits : ℕ → List Char} (hk : 0 < k)
    (hbase : 0 < base) (hw : ∀ g < base, (digits g).length ≤ w) (n : ℕ) :
    (grouped sep base k digits n).length + 1 ≤ k * (w + 1) := by
  have h : ([sep].intercalate ((groups base k n).map digits)).length + 1 ≤ _ * (w + 1) :=
    length_intercalate_le ?_ ?_
  · rwa [List.length_map, length_groups] at h
  · intro hnil
    have hlen := length_groups base k n
    rw [List.map_eq_nil_iff.1 hnil] at hlen
    exact Nat.ne_of_gt hk hlen.symm
  · intro part hpart
    obtain ⟨g, hg, rfl⟩ := List.mem_map.1 hpart
    exact hw g (lt_of_mem_groups hbase hg)

/-- The separator and a first digit are there. -/
theorem mem_grouped {sep : Char} {base k : ℕ} {digits : ℕ → List Char} {n : ℕ} :
    sep ∈ grouped sep base (k + 2) digits n := by
  have hlen := length_groups base (k + 2) n
  unfold grouped
  cases hgs : groups base (k + 2) n with
  | nil =>
    rw [hgs] at hlen
    cases hlen
  | cons g gs =>
    cases gs with
    | nil =>
      rw [hgs] at hlen
      cases hlen
    | cons g' gs =>
      rw [List.map_cons, List.map_cons, List.intercalate_cons_cons]
      simp

/-- Dotted decimal for IPv4; for IPv6 eight groups of hexadecimal digits, which is what the C
library prints where no two neighbouring groups are 0. -/
def plainInet : Inet where
  ntop4 := grouped '.' 256 4 decimal
  ntop6 := grouped ':' 65536 8 (Nat.toDigits 16)
  pton4 text :=
    let addr := ungroup 256 ((text.splitOn '.').map fun part => Nat.ofDigitChars 10 part 0)
    if grouped '.' 256 4 decimal addr = text then some addr else none
  pton6 text :=
    let addr := ungroup 65536 ((text.splitOn ':').map ofHex)
    if grouped ':' 65536 8 (Nat.toDigits 16) addr = text then some addr else none
  nameToIndex _ := 0

theorem plainInet_lawful : plainInet.Lawful where
  pton4_ntop4 addr haddr := by
    have hsplit : (grouped '.' 256 4 decimal addr).splitOn '.' = _ :=
      splitOn_grouped (by decide) fun g hg => absurd (isDigit_decimal hg) (by decide)
    have hvalue : ungroup 256 (((grouped '.' 256 4 decimal addr).splitOn '.').map
        fun part => Nat.ofDigitChars 10 part 0) = addr := by
      have hdigits : ((fun part => Nat.ofDigitChars 10 part 0) ∘ decimal) = id :=
        funext fun g => Nat.ofDigitChars_ten_toDigits
      rw [hsplit, List.map_map, hdigits, List.map_id, ungroup_groups]
      exact Nat.mod_eq_of_lt haddr
    dsimp only [plainInet]
    rw [hvalue, if_pos rfl]
  pton6_ntop6 addr haddr := by
    have hsplit : (grouped ':' 65536 8 (Nat.toDigits 16) addr).splitOn ':' = _ :=
      splitOn_grouped (by decide) fun g hg => absurd (isAlphanum_of_mem_toDigits hg) (by decide)
    have hvalue : ungroup 65536 (((grouped ':' 65536 8 (Nat.toDigits 16) addr).splitOn ':').map
        ofHex) = addr := by
      have hdigits : (ofHex ∘ Nat.toDigits 16) = id := funext ofHex_toDigits
      rw [hsplit, List.map_map, hdigits, List.map_id, ungroup_groups]
      exact Nat.mod_eq_of_lt haddr
    dsimp only [plainInet]
    rw [hvalue, if_pos rfl]
  text4 text addr haddr := by
    dsimp only [plainInet] at haddr
    split at haddr
    · next htext =>
      have hw : ∀ g < 256, (decimal g).length ≤ 3 := by
        intro g hg
        refine (Nat.length_toDigits_le_iff (by decide) (by decide)).2 ?_
        omega
      have hlen : (grouped '.' 256 4 decimal _).length + 1 ≤ 4 * (3 + 1) :=
        length_grouped (by decide) (by decide) hw
          (ungroup 256 ((text.splitOn '.').map fun part => Nat.ofDigitChars 10 part 0))
      have hsep : '.' ∈ text := by
        rw [← htext]
        exact mem_grouped
      rw [htext] at hlen
      refine ⟨List.length_pos_of_mem hsep, by omega, fun c hc => ?_⟩
      rw [← htext] at hc
      rcases mem_intercalate hc with hc | ⟨part, hpart, hc⟩
      · exact .inr hc
      · obtain ⟨g, -, rfl⟩ := List.mem_map.1 hpart
        exact .inl (isDigit_decimal hc)
    · cases haddr
  text6 text addr haddr := by
    dsimp only [plainInet] at haddr
    split at haddr
    · next htext =>
      have hw : ∀ g < 65536, (Nat.toDigits 16 g).length ≤ 4 := by
        intro g hg
        refine (Nat.length_toDigits_le_iff (by decide) (by decide)).2 ?_
        omega
      have hlen : (grouped ':' 65536 8 (Nat.toDigits 16) _).length + 1 ≤ 8 * (4 + 1) :=
        length_grouped (by decide) (by decide) hw (ungroup 65536 ((text.splitOn ':').map ofHex))
      have hsep : ':' ∈ text := by
        rw [← htext]
        exact mem_grouped
      rw [htext] at hlen
      refine ⟨?_, hsep, fun c hc => ?_⟩
      · unfold IN_MAX_ADDRSTRLEN
        omega
      · rw [← htext] at hc
        rcases mem_intercalate hc with hc | ⟨part, hpart, hc⟩
        · exact .inr (.inl hc)
        · obtain ⟨g, -, rfl⟩ := List.mem_map.1 hpart
          exact .inl (isAlphanum_of_mem_toDigits hc)
    · cases haddr

/-- `1:2:3:4:5:6:7:8` and `1.2.3.4` -/
def eightGroups : List Char :=
  ['1', ':', '2', ':', '3', ':', '4', ':', '5', ':', '6', ':', '7', ':', '8']

def fourGroups : List Char := ['1', '.', '2', '.', '3', '.', '4']

theorem pton6_eightGroups : plainInet.pton6 eightGroups =
    some 0x00010002000300040005000600070008 := by decide +kernel

theorem pton4_fourGroups : plainInet.pton4 fourGroups = some 0x01020304 := by decide +kernel

theorem asIs_agrees_plain :
    (∃ scope scope',
      Returns (asIs plainInet (0, 0)
          ('[' :: (eightGroups ++ zoneText (some ['e'])) ++ ']' :: ':' :: decimal 80))
        (.in6 80 0 0x00010002000300040005000600070008 scope 0) ∧
      Returns (asIn plainInet (0, 0) (eightGroups ++ zoneText (some ['e'])) 80)
        (.in6 80 0 0x00010002000300040005000600070008 scope' 0) ∧
      (some ['e'] = none → scope = scope')) ∧
    (Returns (asIs plainInet (0, 0) (fourGroups ++ ':' :: decimal 80)) (.in4 0x01020304 80) ∧
      Returns (asIn plainInet (0, 0) fourGroups 80) (.in4 0x01020304 80)) ∧
    ∃ ep', Returns (asIs plainInet (0, 0) ((Endpoint.in4 0x01020304 80).toText plainInet)) ep' ∧
      ep'.Same (.in4 0x01020304 80) :=
  have h := asIs_agrees plainInet_lawful (0, 0) (0, 0)
  have hname : ∀ name ∈ some ['e'], ']' ∉ name := by decide
  ⟨h.1 eightGroups _ pton6_eightGroups (some ['e']) hname 80,
    h.2.1 fourGroups _ pton4_fourGroups 80,
    h.2.2 (.in4 0x01020304 80) ⟨by decide, by decide⟩ rfl (by decide)⟩

theorem returns_unique {α : Type} {m : Scan α} {a b : α} (h : Returns m a) (h' : Returns m b) :
    a = b := by
  obtain ⟨t, ht⟩ := h {}
  obtain ⟨t', ht'⟩ := h' {}
  have heq := congrArg Prod.fst (ht.symm.trans ht')
  exact Except.ok.inj heq

/-- Without a port there is no colon in the text of an IPv4 endpoint; and a bracket in a zone ends
the address. -/
theorem not_agrees_plain :
    (¬ ∀ ep : Endpoint, ep.Valid → ep.scopeId = 0 →
      ∃ ep', Returns (asIs plainInet (0, 0) (ep.toText plainInet)) ep' ∧ ep'.Same ep) ∧
    ¬ ∀ text addr, plainInet.pton6 text = some addr → ∀ zone, ∀ port : UInt16, ∃ ep ep',
      Returns (asIs plainInet (0, 0)
        ('[' :: (text ++ zoneText zone) ++ ']' :: ':' :: decimal port.toNat)) ep ∧
      Returns (asIn plainInet (0, 0) (text ++ zoneText zone) port.toNat) ep' ∧ ep.Same ep' := by
  constructor
  · intro hall
    obtain ⟨ep, hep, hsame⟩ := hall (.in4 0x01020304 0) ⟨by decide, by decide⟩ rfl
    have hnone : Returns (asIs plainInet (0, 0)
        ((Endpoint.in4 0x01020304 0).toText plainInet)) .unspec := by
      have htext : (Endpoint.in4 0x01020304 0).toText plainInet = fourGroups := by decide +kernel
      rw [htext]
      exact fun s => ⟨_, rfl⟩
    rw [returns_unique hep hnone] at hsame
    exact hsame
  · intro hall
    obtain ⟨ep, ep', hep, hep', hsame⟩ :=
      hall eightGroups _ pton6_eightGroups (some [']', 'b']) 80
    have hnone : Returns (asIs plainInet (0, 0)
        ('[' :: (eightGroups ++ zoneText (some [']', 'b'])) ++ ']' :: ':' :: decimal 80))
        .unspec := fun s => ⟨_, rfl⟩
    have hzone : Returns (asIn plainInet (0, 0) (eightGroups ++ '%' :: [']', 'b']) 80) _ :=
      returns_asIn_zone plainInet_lawful pton6_eightGroups [']', 'b'] 80
    rw [returns_unique hep hnone, returns_unique hep' hzone] at hsame
    exact hsame

end Yasio
