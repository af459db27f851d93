import Yasio.Endpoint
import Yasio.Lib.Throwing

/-!
# Endpoints from their text

`endpoint::as_is(const char*)` and `endpoint::as_in(const char*, u_short)` on a zero-terminated
text, with the indices that they read in it and those that they write in their local buffer
`addr_part`.
-/

namespace Yasio

/-- `INET6_ADDRSTRLEN` -/
def IN_MAX_ADDRSTRLEN : ℕ := 46

/-- The functions of the C library that turn an address or a zone into its text and back. -/
structure Inet where
  pton4 : List Char → Option ℕ
  pton6 : List Char → Option ℕ
  ntop4 : ℕ → List Char
  ntop6 : ℕ → List Char
  /-- `if_nametoindex` -/
  nameToIndex : List Char → ℕ

/-- The indices of the text that have been read, and of `addr_part` that have been written. -/
structure Accesses where
  reads : List ℕ := []
  writes : List ℕ := []

/-- A part of the parsers.  Nothing in them throws. -/
abbrev Scan := Throwing Empty Accesses

namespace Scan

def readsAt (indices : List ℕ) : Scan PUnit :=
  modify fun a => { a with reads := a.reads ++ indices }

def writesAt (indices : List ℕ) : Scan PUnit :=
  modify fun a => { a with writes := a.writes ++ indices }

/-- `strchr` on the rest of a text that begins at index `i`. -/
def strchr (c : Char) : ℕ → List Char → Scan (Option ℕ)
  | i, [] => do
    readsAt [i]
    return none
  | i, x :: xs => do
    readsAt [i]
    if x = c then return some i else strchr c (i + 1) xs

/-- A function of the C library reads a text up to its terminator. -/
def readText (i : ℕ) (text : List Char) : Scan PUnit := readsAt (List.range' i (text.length + 1))

def isspace (c : Char) : Bool := c ∈ [' ', '\t', '\n', '\x0b', '\x0c', '\r']

/-- The digits that `atoi` takes. -/
def atoiDigits : ℕ → List Char → ℕ → Scan ℕ
  | i, [], value => do
    readsAt [i]
    return value
  | i, x :: xs, value => do
    readsAt [i]
    if x.isDigit then atoiDigits (i + 1) xs (10 * value + (x.toNat - '0'.toNat)) else return value

/-- `atoi`, on values that an `int` holds. -/
def atoi : ℕ → List Char → Scan Int
  | i, [] => do
    readsAt [i]
    return 0
  | i, x :: xs => do
    readsAt [i]
    if isspace x then atoi (i + 1) xs
    else if x = '-' then do
      let value ← atoiDigits (i + 1) xs 0
      return -value
    else if x = '+' then do
      let value ← atoiDigits (i + 1) xs 0
      return value
    else do
      let value ← atoiDigits i (x :: xs) 0
      return value

/-- `static_cast<u_short>(atoi(...))` -/
def atoiPort (i : ℕ) (text : List Char) : Scan ℕ := do
  let value ← atoi i text
  return (value % 2 ^ 16).toNat

/-- `memcpy` of `n` characters into `addr_part`, and the terminator behind them. -/
def copyPart (i : ℕ) (text : List Char) (n : ℕ) : Scan (List Char) := do
  readsAt (List.range' i n)
  writesAt (List.range (n + 1))
  return text.take n

end Scan

open Scan

section

variable (inet : Inet)

/-- `if_nametoindex` on what follows the percent sign at index `z`. -/
def zoneIndex (i : ℕ) (ip : List Char) : Option ℕ → Scan ℕ
  | some z => do
    let name := ip.drop (z + 1 - i)
    readText (z + 1) name
    return inet.nameToIndex name
  | none => return 0

/-- `parse_in6_zone` on the text that `ip` points to, at index `i`, with `endptr` as an index: the
zone, and what is in `addr_part` when `ip` points to it afterwards. -/
def parseIn6Zone (i : ℕ) (ip : List Char) (endptr : Option ℕ) :
    Scan (ℕ × Option (List Char)) := do
  let zoneptr ← strchr '%' i ip
  let zoneValue ← zoneIndex inet i ip zoneptr
  match zoneptr <|> endptr with
  | some e => do
    let part ← copyPart i ip (min (e - i) (IN_MAX_ADDRSTRLEN - 1))
    return (zoneValue, some part)
  | none => return (zoneValue, none)

/-- `as_in6`; `left` are the bytes of the object that it does not write. -/
def asIn6 (left : ℕ × ℕ) (ip : List Char) (port scopeId : ℕ) : Endpoint :=
  match inet.pton6 ip with
  | some addr => .in6 port left.1 addr scopeId left.2
  | none => .unspec

/-- `as_in4` -/
def asIn4 (ip : List Char) (port : ℕ) : Endpoint :=
  match inet.pton4 ip with
  | some addr => .in4 addr port
  | none => .unspec

/-- The branch of `as_is` for a text without a bracket. -/
def asIs4 (strEp : List Char) : Scan Endpoint := do
  let colon ← strchr ':' 0 strEp
  match colon with
  | some n => do
    -- The length is that of the text in front of the colon.
    let part ← copyPart 0 strEp n
    let port ← atoiPort (n + 1) (strEp.drop (n + 1))
    return asIn4 inet part port
  | none => return .unspec

/-- The branch for a text with a bracket in front of `ip`. -/
def asIs6 (left : ℕ × ℕ) (ip : List Char) : Scan Endpoint := do
  let rbracket ← strchr ']' 1 ip
  match rbracket with
  | some r => do
    readsAt [r + 1]
    if ip[r]? = some ':' then do
      let (zoneValue, part) ← parseIn6Zone inet 1 ip (some r)
      let port ← atoiPort (r + 2) (ip.drop (r + 1))
      return asIn6 inet left (part.getD ip) port zoneValue
    else return .unspec
  | none => return .unspec

/-- `as_is(const char*)` -/
def asIs (left : ℕ × ℕ) (strEp : List Char) : Scan Endpoint := do
  readsAt [0]
  match strEp with
  | '[' :: ip => asIs6 inet left ip
  | _ => asIs4 inet strEp

/-- `as_in(const char*, u_short)` -/
def asIn (left : ℕ × ℕ) (ip : List Char) (port : ℕ) : Scan Endpoint := do
  let colon ← strchr ':' 0 ip
  match colon with
  | some _ => do
    let (zoneValue, part) ← parseIn6Zone inet 0 ip none
    match part with
    | some part => return asIn6 inet left part port zoneValue
    | none => do
      readText 0 ip
      return asIn6 inet left ip port zoneValue
  | none => do
    readText 0 ip
    return asIn4 inet ip port

end

/-- Nothing is read behind the terminator of a text of this length. -/
structure Accesses.Keeps (length : ℕ) (written : List ℕ → Prop) (a : Accesses) : Prop where
  reads : ∀ i ∈ a.reads, i ≤ length
  writes : written a.writes

/-- And nothing is written behind `addr_part`. -/
abbrev Accesses.Within (length : ℕ) : Accesses → Prop :=
  Accesses.Keeps length fun writes => ∀ i ∈ writes, i < IN_MAX_ADDRSTRLEN

/-! ## Scanning -/

section

open Throwing (Holds Returns)

variable {length : ℕ} {written : List ℕ → Prop}

theorem holds_readsAt {indices : List ℕ} (h : ∀ i ∈ indices, i ≤ length) :
    Holds (Accesses.Keeps length written) (fun _ => True) (readsAt indices) :=
  .modify fun _ ha => ⟨fun i hi => (List.mem_append.1 hi).elim (ha.reads i) (h i), ha.writes⟩

theorem holds_writesAt {indices : List ℕ} (h : ∀ i ∈ indices, i < IN_MAX_ADDRSTRLEN) :
    Holds (Accesses.Within length) (fun _ => True) (writesAt indices) :=
  .modify fun _ ha => ⟨ha.reads, fun i hi => (List.mem_append.1 hi).elim (ha.writes i) (h i)⟩

theorem holds_readsAt_singleton {i : ℕ} (h : i ≤ length) :
    Holds (Accesses.Keeps length written) (fun _ => True) (readsAt [i]) := by
  apply holds_readsAt
  intro j hj
  rwa [List.mem_singleton.1 hj]

/-- What a search finds is a character of the text. -/
theorem holds_strchr (c : Char) {text : List Char} {i : ℕ} (h : i + text.length ≤ length) :
    Holds (Accesses.Keeps length written) (fun found => ∀ j ∈ found, i ≤ j ∧ j < i + text.length)
      (strchr c i text) := by
  induction text generalizing i with
  | nil => exact (holds_readsAt_singleton h).bind fun _ _ => .pure nofun
  | cons x xs ih =>
    rw [List.length_cons] at h
    refine (holds_readsAt_singleton (by omega)).bind fun _ _ => ?_
    split
    · refine .pure fun j hj => ?_
      obtain rfl := Option.some.inj hj
      rw [List.length_cons]
      omega
    · refine (ih (by omega)).mono fun found hfound j hj => ?_
      have hin := hfound j hj
      rw [List.length_cons]
      omega

theorem holds_readText {text : List Char} {i : ℕ} (h : i + text.length ≤ length) :
    Holds (Accesses.Keeps length written) (fun _ => True) (readText i text) := by
  apply holds_readsAt
  intro j hj
  have hin := List.mem_range'_1.1 hj
  omega

theorem holds_atoiDigits {text : List Char} {i : ℕ} (h : i + text.length ≤ length)
    (value : ℕ) :
    Holds (Accesses.Keeps length written) (fun _ => True) (atoiDigits i text value) := by
  induction text generalizing i value with
  | nil => exact (holds_readsAt_singleton h).bind fun _ _ => .pure trivial
  | cons x xs ih =>
    rw [List.length_cons] at h
    refine (holds_readsAt_singleton (by omega)).bind fun _ _ => ?_
    split
    · exact ih (by omega) _
    · exact .pure trivial

theorem holds_atoi {text : List Char} {i : ℕ} (h : i + text.length ≤ length) :
    Holds (Accesses.Keeps length written) (fun _ => True) (atoi i text) := by
  induction text generalizing i with
  | nil => exact (holds_readsAt_singleton h).bind fun _ _ => .pure trivial
  | cons x xs ih =>
    have hnext : i + 1 + xs.length ≤ length := by
      rw [List.length_cons] at h
      omega
    refine (holds_readsAt_singleton (by omega)).bind fun _ _ => ?_
    split
    · exact ih hnext
    · split
      · exact (holds_atoiDigits hnext 0).bind fun _ _ => .pure trivial
      · split
        · exact (holds_atoiDigits hnext 0).bind fun _ _ => .pure trivial
        · exact (holds_atoiDigits h 0).bind fun _ _ => .pure trivial

theorem holds_atoiPort {text : List Char} {i : ℕ} (h : i + text.length ≤ length) :
    Holds (Accesses.Keeps length written) (fun _ => True) (atoiPort i text) :=
  (holds_atoi h).bind fun _ _ => .pure trivial

theorem holds_copyPart {i n : ℕ} (text : List Char) (h : i + n ≤ length)
    (hn : n < IN_MAX_ADDRSTRLEN) :
    Holds (Accesses.Within length) (fun _ => True) (copyPart i text n) := by
  refine (holds_readsAt fun j hj => ?_).bind fun _ _ => ?_
  · have hin := List.mem_range'_1.1 hj
    omega
  · refine (holds_writesAt fun j hj => ?_).bind fun _ _ => .pure trivial
    have hin := List.mem_range.1 hj
    omega

/-- The helper clamps what it copies. -/
theorem holds_parseIn6Zone (inet : Inet) {i : ℕ} {ip : List Char} {endptr : Option ℕ}
    (h : i + ip.length ≤ length) (hend : ∀ e ∈ endptr, i ≤ e ∧ e ≤ i + ip.length) :
    Holds (Accesses.Within length) (fun _ => True) (parseIn6Zone inet i ip endptr) := by
  refine (holds_strchr '%' h).bind fun zoneptr hzone => ?_
  have hcopy : ∀ e, i ≤ e ∧ e ≤ i + ip.length → Holds (Accesses.Within length) (fun _ => True)
      (copyPart i ip (min (e - i) (IN_MAX_ADDRSTRLEN - 1))) := by
    intro e he
    refine holds_copyPart ip ?_ ?_
    · omega
    · unfold IN_MAX_ADDRSTRLEN
      omega
  cases zoneptr with
  | none =>
    refine Holds.bind (Q := fun _ => True) (.pure trivial) fun zoneValue _ => ?_
    cases endptr with
    | none => exact .pure trivial
    | some e => exact (hcopy e (hend e rfl)).bind fun _ _ => .pure trivial
  | some z =>
    have hz := hzone z rfl
    have hname : z + 1 + (ip.drop (z + 1 - i)).length ≤ length := by
      rw [List.length_drop]
      omega
    refine Holds.bind (Q := fun _ => True) ?_ fun zoneValue _ => ?_
    · exact (holds_readText hname).bind fun _ _ => .pure trivial
    · exact (hcopy z (by omega)).bind fun _ _ => .pure trivial

/-! ## The parsers -/

variable {inet : Inet} {left : ℕ × ℕ}

theorem holds_asIs6 {ip : List Char} (h : 1 + ip.length ≤ length) :
    Holds (Accesses.Within length) (fun _ => True) (asIs6 inet left ip) := by
  refine (holds_strchr ']' h).bind fun rbracket hfound => ?_
  cases rbracket with
  | none => exact .pure trivial
  | some r =>
    have hr := hfound r rfl
    refine (holds_readsAt_singleton (by omega)).bind fun _ _ => ?_
    split
    · next hcolon =>
      -- The colon is not the terminator.
      have hlt : r < ip.length := (List.getElem?_eq_some_iff.1 hcolon).1
      have hend : ∀ e ∈ some r, 1 ≤ e ∧ e ≤ 1 + ip.length := by
        intro e he
        obtain rfl := Option.some.inj he
        omega
      refine (holds_parseIn6Zone inet h hend).bind fun zone _ => ?_
      refine (holds_atoiPort ?_).bind fun _ _ => .pure trivial
      rw [List.length_drop]
      omega
    · exact .pure trivial

theorem holds_asIn {ip : List Char} (h : ip.length ≤ length) (port : ℕ) :
    Holds (Accesses.Within length) (fun _ => True) (asIn inet left ip port) := by
  have hread : Holds (Accesses.Within length) (fun _ => True) (readText 0 ip) :=
    holds_readText (by omega)
  refine (holds_strchr ':' (by omega)).bind fun colon _ => ?_
  cases colon with
  | none => exact hread.bind fun _ _ => .pure trivial
  | some n =>
    have hnone : ∀ e ∈ (none : Option ℕ), 0 ≤ e ∧ e ≤ 0 + ip.length :=
      fun e he => absurd he (Option.not_mem_none e)
    refine (holds_parseIn6Zone inet (by omega) hnone).bind fun zone _ => ?_
    obtain ⟨zoneValue, part⟩ := zone
    cases part with
    | none => exact hread.bind fun _ _ => .pure trivial
    | some part => exact .pure trivial

/-- What a search finds is the first such character. -/
theorem returns_strchr (c : Char) (text : List Char) (i : ℕ) :
    Returns (strchr c i text) ((text.idxOf? c).map fun j => i + j) := by
  induction text generalizing i with
  | nil => exact (Returns.modify _).bind (.pure _)
  | cons x xs ih =>
    refine (Returns.modify _).bind ?_
    rw [List.idxOf?_cons]
    by_cases hx : x = c
    · rw [if_pos hx, if_pos (beq_iff_eq.2 hx)]
      exact .pure _
    · rw [if_neg hx, if_neg (by simpa using hx), Option.map_map]
      have hshift : ((fun j => i + j) ∘ fun j => j + 1) = fun j => i + 1 + j := by
        funext j
        exact (Nat.add_assoc i j 1).symm.trans (Nat.add_right_comm i j 1)
      rw [hshift]
      exact ih (i + 1)

theorem holds_colon {strEp : List Char} :
    Holds (Accesses.Keeps strEp.length written)
      (fun colon => colon = strEp.idxOf? ':' ∧ ∀ n ∈ colon, n < strEp.length)
      (strchr ':' 0 strEp) := by
  have hfound : Holds (Accesses.Keeps strEp.length written) _ (strchr ':' 0 strEp) :=
    holds_strchr ':' (Nat.le_of_eq (Nat.zero_add strEp.length))
  refine (hfound.of_returns (returns_strchr ':' strEp 0)).mono fun colon hcolon =>
    ⟨?_, fun n hn => ?_⟩
  · rw [hcolon.1]
    simp
  · have hin := hcolon.2 n hn
    omega

theorem holds_asIs4 {strEp : List Char}
    (h : ∀ n, strEp.idxOf? ':' = some n → n < IN_MAX_ADDRSTRLEN) :
    Holds (Accesses.Within strEp.length) (fun _ => True) (asIs4 inet strEp) := by
  refine holds_colon.bind fun colon hcolon => ?_
  obtain ⟨heq, hin⟩ := hcolon
  cases colon with
  | none => exact .pure trivial
  | some n =>
    have hn := hin n rfl
    refine (holds_copyPart (i := 0) (n := n) strEp (by omega) (h n heq.symm)).bind fun _ _ => ?_
    refine (holds_atoiPort ?_).bind fun _ _ => .pure trivial
    rw [List.length_drop]
    omega

/-- The terminator of the copy is at the index of the colon. -/
theorem written_asIs4 {strEp : List Char} {n : ℕ} (h : strEp.idxOf? ':' = some n) {a₀ : Accesses}
    (ha₀ : a₀.Keeps strEp.length fun _ => True) :
    n ∈ (Throwing.exec (asIs4 inet strEp) a₀).2.writes := by
  rw [← Throwing.wp_state (P := fun a : Accesses => n ∈ a.writes)]
  unfold asIs4
  rw [Throwing.wp_bind]
  have hfound : Holds (Accesses.Keeps strEp.length fun _ => True) _ (strchr ':' 0 strEp) :=
    holds_colon
  refine hfound.wp ha₀ ?_ (by simp)
  rintro colon a ⟨hcolon, hin⟩ ha
  obtain rfl := hcolon.trans h
  have hn := hin n rfl
  dsimp only
  unfold copyPart readsAt writesAt
  simp only [bind_assoc, pure_bind, Throwing.wp_bind, Throwing.wp_modify]
  have hkeeps : Accesses.Keeps strEp.length (fun writes => n ∈ writes)
      { a with
        reads := a.reads ++ List.range' 0 n
        writes := a.writes ++ List.range (n + 1) } := by
    refine ⟨fun i hi => ?_, List.mem_append_right _ (List.mem_range.2 (Nat.lt_succ_self n))⟩
    rcases List.mem_append.1 hi with hi | hi
    · exact ha.reads i hi
    · have hrange := List.mem_range'_1.1 hi
      omega
  refine (holds_atoiPort ?_).wp hkeeps (fun _ b _ hb => hb.writes) (by simp)
  rw [List.length_drop]
  omega

/-- The branch that `as_is` takes for a text without a bracket. -/
theorem asIs_of_ne {strEp : List Char} (h : strEp.head? ≠ some '[') :
    asIs inet left strEp = (do
      readsAt [0]
      asIs4 inet strEp) := by
  unfold asIs
  split
  · exact absurd rfl h
  · rfl

theorem holds_asIs {strEp : List Char}
    (h : strEp.head? = some '[' ∨ ∀ n, strEp.idxOf? ':' = some n → n < IN_MAX_ADDRSTRLEN) :
    Holds (Accesses.Within strEp.length) (fun _ => True) (asIs inet left strEp) := by
  have hfirst : Holds (Accesses.Within strEp.length) (fun _ => True) (readsAt [0]) :=
    holds_readsAt_singleton (Nat.zero_le _)
  by_cases hhead : strEp.head? = some '['
  · obtain ⟨ip, rfl⟩ := List.head?_eq_some_iff.1 hhead
    refine hfirst.bind fun _ _ => holds_asIs6 ?_
    rw [List.length_cons, Nat.add_comm]
  · rw [asIs_of_ne hhead]
    exact hfirst.bind fun _ _ => holds_asIs4 (h.resolve_left hhead)

end

/-- The parsers stay inside their buffer and the text exactly when a text without a bracket has no
long part in front of its first colon. -/
theorem within_iff (inet : Inet) (left : ℕ × ℕ) (text : List Char) (port : ℕ) :
    Accesses.Within text.length (Throwing.exec (asIs inet left text) {}).2 ∧
        Accesses.Within text.length (Throwing.exec (asIn inet left text port) {}).2 ↔
      text.head? = some '[' ∨ ∀ n, text.idxOf? ':' = some n → n < IN_MAX_ADDRSTRLEN := by
  constructor
  · rintro ⟨hwithin, -⟩
    by_contra! hlong
    obtain ⟨hhead, n, hn, hle⟩ := hlong
    rw [asIs_of_ne hhead] at hwithin
    have hread : Accesses.Keeps text.length (fun _ => True) { reads := [0] } := by
      refine ⟨fun i hi => ?_, trivial⟩
      rw [List.mem_singleton.1 hi]
      exact Nat.zero_le _
    exact absurd (hwithin.writes n (written_asIs4 hn hread)) (Nat.not_lt.2 hle)
  · intro h
    have hempty : Accesses.Within text.length {} := ⟨nofun, nofun⟩
    exact ⟨(holds_asIs h {} hempty).1, (holds_asIn (Nat.le_refl _) port {} hempty).1⟩

/-- A text of 46 digits in front of a colon. -/
theorem not_within_long : ¬ ∀ (inet : Inet) (text : List Char),
    Accesses.Within text.length (Throwing.exec (asIs inet (0, 0) text) {}).2 := by
  intro hall
  let inet : Inet := ⟨fun _ => none, fun _ => none, fun _ => [], fun _ => [], fun _ => 0⟩
  have hwithin := hall inet (List.replicate 46 '1' ++ [':'])
  have hlast : 46 ∈ (Throwing.exec (asIs inet (0, 0)
      (List.replicate 46 '1' ++ [':'])) {}).2.writes := by decide +kernel
  exact absurd (hwithin.writes 46 hlast) (Nat.lt_irrefl 46)

end Yasio
