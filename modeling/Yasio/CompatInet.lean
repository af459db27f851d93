import Yasio.InetNtop6

/-!
# Endpoints without the system's `inet_pton`

The library's own `inet_ntop` and `inet_pton` in the place of the system's: what they promise to the
parsers of `ip::endpoint`.
-/

namespace Yasio

open Throwing (exec exec_bind exec_bind_ok Holds Returns)

/-! ## Both ways -/

/-- `inet_pton4` takes the texts that `inet_ntop4` prints, and never stores behind `tmp`. -/
theorem inetPton4_iff (text : List Char) :
    (∀ addr, inetPton4 text = .ok addr ↔ text = dotted addr.bytes) ∧
      inetPton4 text ≠ .error .outside := by
  rcases inetPton4_cases text with ⟨addr, hok, htext⟩ | herr
  · refine ⟨fun addr' => ⟨fun h => ?_, ?_⟩, by rw [hok]; simp⟩
    · rw [hok] at h
      cases h
      exact htext.symm
    · rintro rfl
      exact inetPton4_dotted addr'
  · refine ⟨fun addr => ⟨fun h => ?_, ?_⟩, by rw [herr]; simp⟩
    · rw [herr] at h
      cases h
    · rintro rfl
      exact inetPton4_dotted addr

/-- `inet_ntop6` has one text for every address, and prints it when there is room for it and the
terminator: the zeros of the longest run, the first of several, as `::`, and an encapsulated IPv4
address as a quad. -/
theorem inetNtop6_iff (src : Octets 16) : (∃! text, Printed src text) ∧ ∀ size text,
    inetNtop6 src size = .ok text ↔ Printed src text ∧ text.length < size := by
  obtain ⟨printed, hprinted, heq⟩ := inetNtop6_eq src
  refine ⟨⟨printed, hprinted, fun text h => h.unique hprinted⟩, fun size text => ?_⟩
  rw [heq]
  constructor
  · intro h
    split at h
    · cases h
    · cases h
      exact ⟨hprinted, by omega⟩
  · rintro ⟨h, hlt⟩
    rw [h.unique hprinted] at hlt ⊢
    exact if_neg (by omega)

/-- The text of an address, in every buffer that holds it and the terminator, is parsed as the
address; buffers of `INET_ADDRSTRLEN` and `INET6_ADDRSTRLEN` hold every text.  The size for an IPv4
address is taken as an `int`. -/
theorem inetPton_of_inetNtop :
    (∀ src : Octets 4, ∃ text, text.length < 16 ∧ inetPton4 text = .ok src ∧
      ∀ size, text.length < size → size < 2 ^ 31 → inetNtop4 src size = .ok text) ∧
      ∀ src : Octets 16, ∃ text, text.length < IN_MAX_ADDRSTRLEN ∧ inetPton6 text = .ok src ∧
        ∀ size, text.length < size → inetNtop6 src size = .ok text := by
  constructor
  · intro src
    have hlen := length_dotted_le src
    refine ⟨dotted src.bytes, by omega, inetPton4_dotted src, fun size hroom hsize => ?_⟩
    rw [inetNtop4_eq hsize, if_neg (by omega)]
  · intro src
    obtain ⟨text, hprinted, heq⟩ := inetNtop6_eq src
    refine ⟨text, hprinted.length_le, hprinted.spells.inetPton6_eq, fun size hroom => ?_⟩
    rw [heq, if_neg (by omega)]

/-! ## The numbers of the addresses -/

/-- The number of an address, from its bytes in network order. -/
def Octets.toNat {n : ℕ} (addr : Octets n) : ℕ := ungroup 256 (addr.bytes.map UInt8.toNat)

def Octets.ofNat (n value : ℕ) : Octets n where
  bytes := (groups 256 n value).map UInt8.ofNat
  length_bytes := by rw [List.length_map, length_groups]

theorem Octets.toNat_ofNat {n value : ℕ} (h : value < 256 ^ n) :
    (Octets.ofNat n value).toNat = value := by
  have hbytes : ((groups 256 n value).map UInt8.ofNat).map UInt8.toNat = groups 256 n value := by
    rw [List.map_map]
    refine (List.map_congr_left fun g hg => ?_).trans (List.map_id _)
    exact UInt8.toNat_ofNat_of_lt' (lt_of_mem_groups (by decide) hg)
  rw [Octets.toNat, Octets.ofNat]
  dsimp only
  rw [hbytes, ungroup_groups, Nat.mod_eq_of_lt h]

/-- `endpoint::max_fmt_len`, with room for `:65535` -/
def maxFmtLen : ℕ := IN_MAX_ADDRSTRLEN + 2 + 6

/-- The library's functions as the parsers and `format_to` call them. -/
def compatInet (nameToIndex : List Char → ℕ) : Inet where
  pton4 text := (inetPton4 text).toOption.map Octets.toNat
  pton6 text := (inetPton6 text).toOption.map Octets.toNat
  ntop4 addr := (inetNtop4 (.ofNat 4 addr) maxFmtLen).toOption.getD []
  ntop6 addr := (inetNtop6 (.ofNat 16 addr) (maxFmtLen - 1)).toOption.getD []
  nameToIndex := nameToIndex

/-! ## What the parsers are promised -/

section

variable {nameToIndex : List Char → ℕ} {text : List Char} {addr : ℕ} {quad : Bool}
  {bytes : List UInt8}

theorem pton4_eq_some : (compatInet nameToIndex).pton4 text = some addr ↔
    ∃ octets, inetPton4 text = .ok octets ∧ octets.toNat = addr := by
  change (inetPton4 text).toOption.map Octets.toNat = some addr ↔ _
  rw [Option.map_eq_some_iff]
  cases inetPton4 text <;> simp [Except.toOption]

theorem pton6_eq_some : (compatInet nameToIndex).pton6 text = some addr ↔
    ∃ octets, inetPton6 text = .ok octets ∧ octets.toNat = addr := by
  change (inetPton6 text).toOption.map Octets.toNat = some addr ↔ _
  rw [Option.map_eq_some_iff]
  cases inetPton6 text <;> simp [Except.toOption]

theorem compat_ntop4 (nameToIndex : List Char → ℕ) (addr : ℕ) :
    (compatInet nameToIndex).ntop4 addr = dotted (Octets.ofNat 4 addr).bytes := by
  have hlen := length_dotted_le (.ofNat 4 addr)
  have hsize : maxFmtLen < 2 ^ 31 := by
    unfold maxFmtLen IN_MAX_ADDRSTRLEN
    omega
  have hroom : ¬maxFmtLen < (dotted (Octets.ofNat 4 addr).bytes).length + 1 := by
    unfold maxFmtLen IN_MAX_ADDRSTRLEN
    omega
  have htext : inetNtop4 (.ofNat 4 addr) maxFmtLen = _ := inetNtop4_eq hsize
  rw [if_neg hroom] at htext
  unfold compatInet
  dsimp only
  rw [htext]
  rfl

theorem compat_ntop6 (nameToIndex : List Char → ℕ) (addr : ℕ) :
    Printed (.ofNat 16 addr) ((compatInet nameToIndex).ntop6 addr) := by
  obtain ⟨printed, hprinted, heq⟩ := inetNtop6_eq (.ofNat 16 addr)
  have hlen := hprinted.length_le
  have hroom : ¬maxFmtLen - 1 < printed.length + 1 := by
    unfold maxFmtLen IN_MAX_ADDRSTRLEN
    omega
  have htext := heq (maxFmtLen - 1)
  rw [if_neg hroom] at htext
  unfold compatInet
  dsimp only
  rw [htext]
  exact hprinted

theorem isAlphanum_of_isXdigit {c : Char} (h : isXdigit c = true) : c.isAlphanum = true := by
  have hletters : ∀ n < 91, 65 ≤ n → (Char.ofNat n).isAlphanum = true := by decide
  have hdigits : ∀ d ∈ xdigits, d.isAlphanum = true := List.all_eq_true.1 (by decide)
  by_cases hupper : 65 ≤ c.toNat ∧ c.toNat ≤ 90
  · rw [← Char.ofNat_toNat c]
    exact hletters c.toNat (by omega) hupper.1
  · have hmem := List.contains_iff_mem.1 h
    rw [toLower_eq_self hupper] at hmem
    exact hdigits c hmem

theorem chars_dotted (octets : Octets 4) :
    7 ≤ (dotted octets.bytes).length ∧
      ∀ c ∈ dotted octets.bytes, c.isDigit = true ∨ c = '.' := by
  refine ⟨?_, fun c hc => ?_⟩
  · have hpos : ∀ a : UInt8, 0 < (decimal a.toNat).length := fun a => Nat.length_toDigits_pos
    obtain ⟨bytes, hlen⟩ := octets
    obtain ⟨a, b, c, d, rfl⟩ := List.length_eq_four.1 hlen
    have ha := hpos a
    have hb := hpos b
    have hc := hpos c
    have hd := hpos d
    rw [Quad.dotted_four]
    simp only [List.length_append, List.length_cons]
    omega
  · rcases mem_intercalate hc with hdot | ⟨part, hpart, hc⟩
    · exact .inr hdot
    · obtain ⟨octet, -, rfl⟩ := List.mem_map.1 hpart
      exact .inl (isDigit_decimal hc)

/-- The characters of an address. -/
theorem Groups.chars (h : Groups quad text bytes) :
    ∀ c ∈ text, c.isAlphanum = true ∨ c = ':' ∨ c = '.' := by
  induction h with
  | last h => exact fun c hc => .inl (isAlphanum_of_isXdigit (h.xdigit c hc))
  | dotted _ octets =>
    intro c hc
    rcases (chars_dotted octets).2 c hc with hdigit | hdot
    · exact .inl (by rw [Char.isAlphanum, hdigit, Bool.or_true])
    · exact .inr (.inr hdot)
  | cons h _ ih =>
    intro c hc
    rcases List.mem_append.1 hc with hc | hc
    · exact .inl (isAlphanum_of_isXdigit (h.xdigit c hc))
    · rcases List.mem_cons.1 hc with hc | hc
      · exact .inr (.inl hc)
      · exact ih c hc

theorem Groups.colon (h : Groups quad text bytes) (hlen : bytes.length = 16) : ':' ∈ text := by
  cases h with
  | last => cases hlen
  | dotted _ octets => exact absurd (octets.length_bytes.symm.trans hlen) (by decide)
  | cons => exact List.mem_append_right _ List.mem_cons_self

theorem Side.chars (h : Side quad text bytes) :
    ∀ c ∈ text, c.isAlphanum = true ∨ c = ':' ∨ c = '.' := by
  rcases h with ⟨rfl, -⟩ | h
  · intro c hc
    cases hc
  · exact h.chars

theorem Spells.chars {octets : Octets 16} (h : Spells octets text) :
    ':' ∈ text ∧ ∀ c ∈ text, c.isAlphanum = true ∨ c = ':' ∨ c = '.' := by
  cases h with
  | full h => exact ⟨h.colon octets.length_bytes, h.chars⟩
  | zeros hfront hback =>
    refine ⟨List.mem_append_right _ List.mem_cons_self, fun c hc => ?_⟩
    rcases List.mem_append.1 hc with hc | hc
    · exact hfront.chars c hc
    · rcases List.mem_cons.1 hc with hc | hc
      · exact .inr (.inl hc)
      · rcases List.mem_cons.1 hc with hc | hc
        · exact .inr (.inl hc)
        · exact hback.chars c hc

end

/-- `inet` on texts that are no longer than `addr_part` holds. -/
def Inet.clamped (inet : Inet) : Inet :=
  { inet with
    pton6 := fun text => if text.length < IN_MAX_ADDRSTRLEN then inet.pton6 text else none }

theorem clamped_pton4 (inet : Inet) : inet.clamped.pton4 = inet.pton4 := rfl

theorem clamped_ntop4 (inet : Inet) : inet.clamped.ntop4 = inet.ntop4 := rfl

theorem clamped_ntop6 (inet : Inet) : inet.clamped.ntop6 = inet.ntop6 := rfl

theorem clamped_pton6 (inet : Inet) (text : List Char) : inet.clamped.pton6 text =
    if text.length < IN_MAX_ADDRSTRLEN then inet.pton6 text else none := rfl

theorem compatInet_lawful (nameToIndex : List Char → ℕ) :
    (compatInet nameToIndex).clamped.Lawful where
  pton4_ntop4 addr haddr := by
    rw [clamped_pton4, clamped_ntop4, compat_ntop4, pton4_eq_some]
    exact ⟨_, inetPton4_dotted _, Octets.toNat_ofNat haddr⟩
  pton6_ntop6 addr haddr := by
    have hprinted := compat_ntop6 nameToIndex addr
    rw [clamped_ntop6, clamped_pton6, if_pos (show _ < IN_MAX_ADDRSTRLEN from hprinted.length_le),
      pton6_eq_some]
    exact ⟨_, hprinted.spells.inetPton6_eq, Octets.toNat_ofNat haddr⟩
  text4 text addr h := by
    rw [clamped_pton4] at h
    obtain ⟨octets, hok, -⟩ := pton4_eq_some.1 h
    rcases inetPton4_cases text with ⟨octets', -, rfl⟩ | herr
    · have hchars := chars_dotted octets'
      have hle := length_dotted_le octets'
      exact ⟨by omega, by omega, hchars.2⟩
    · rw [herr] at hok
      cases hok
  text6 text addr h := by
    rw [clamped_pton6] at h
    split at h
    · rename_i hlen
      obtain ⟨octets, hok, -⟩ := pton6_eq_some.1 h
      rcases inetPton6_cases text with ⟨octets', -, hspells⟩ | herr
      · exact ⟨hlen, hspells.chars⟩
      · rw [herr] at hok
        cases hok
    · cases h

theorem toText_clamped (inet : Inet) (ep : Endpoint) : ep.toText inet.clamped = ep.toText inet := by
  cases ep <;> rfl

theorem asIn6_clamped (inet : Inet) (left : ℕ × ℕ) {ip : List Char}
    (h : ip.length < IN_MAX_ADDRSTRLEN) (port scopeId : ℕ) :
    asIn6 inet.clamped left ip port scopeId = asIn6 inet left ip port scopeId := by
  unfold asIn6
  rw [clamped_pton6, if_pos h]

/-- With an `endptr`, what `ip` points to behind `parse_in6_zone` is in `addr_part`. -/
theorem parseIn6Zone_bind {α : Type} (inet : Inet) (i : ℕ) (ip : List Char) (r : ℕ)
    {f g : ℕ × Option (List Char) → Scan α}
    (h : ∀ zone part, part.length < IN_MAX_ADDRSTRLEN → f (zone, some part) = g (zone, some part)) :
    parseIn6Zone inet i ip (some r) >>= f = parseIn6Zone inet i ip (some r) >>= g := by
  have hcopy : ∀ zone e, (Scan.copyPart i ip (min (e - i) (IN_MAX_ADDRSTRLEN - 1)) >>=
        fun part => pure (zone, some part)) >>= f =
      (Scan.copyPart i ip (min (e - i) (IN_MAX_ADDRSTRLEN - 1)) >>=
        fun part => pure (zone, some part)) >>= g := by
    intro zone e
    have hle := List.length_take_le (min (e - i) (IN_MAX_ADDRSTRLEN - 1)) ip
    have hlt : (ip.take (min (e - i) (IN_MAX_ADDRSTRLEN - 1))).length < IN_MAX_ADDRSTRLEN := by
      unfold IN_MAX_ADDRSTRLEN at hle ⊢
      omega
    unfold Scan.copyPart
    simp only [bind_assoc, pure_bind]
    exact bind_congr fun _ => bind_congr fun _ => h zone _ hlt
  unfold parseIn6Zone
  simp only [bind_assoc]
  refine bind_congr fun zoneptr => bind_congr fun zone => ?_
  cases zoneptr with
  | none => exact hcopy zone r
  | some z => exact hcopy zone z

/-- `as_is` hands `inet_pton` a text that `addr_part` holds. -/
theorem asIs_clamped (inet : Inet) (left : ℕ × ℕ) (text : List Char) :
    asIs inet.clamped left text = asIs inet left text := by
  unfold asIs
  refine bind_congr fun _ => ?_
  split
  · rename_i ip
    unfold asIs6
    refine bind_congr fun rbracket => ?_
    split
    · rename_i r
      refine bind_congr fun _ => ?_
      split
      · refine parseIn6Zone_bind inet 1 ip r fun zone part hpart => bind_congr fun port => ?_
        rw [Option.getD_some, asIn6_clamped inet left hpart]
      · rfl
    · rfl
  · rfl

/-- With the library's own functions, what is printed with a port is parsed back. -/
theorem asIs_toText_compat (nameToIndex : List Char → ℕ) (left : ℕ × ℕ) (ep : Endpoint)
    (hvalid : ep.Valid) (hscope : ep.scopeId = 0) (hport : ep.port ≠ 0) :
    ∃ ep', Returns (asIs (compatInet nameToIndex) left (ep.toText (compatInet nameToIndex))) ep' ∧
      ep'.Same ep := by
  have h : ∃ ep', Returns (asIs (compatInet nameToIndex).clamped left _) ep' ∧ _ :=
    returns_toText (compatInet_lawful nameToIndex) hvalid hscope hport
  rw [asIs_clamped, toText_clamped] at h
  exact h

theorem asIs_toText_compat_loopback : ∃ ep',
    Returns (asIs (compatInet fun _ => 0) (0, 0)
      ((Endpoint.in6 443 0 1 0 0).toText (compatInet fun _ => 0))) ep' ∧
      ep'.Same (.in6 443 0 1 0 0) :=
  asIs_toText_compat (fun _ => 0) (0, 0) (.in6 443 0 1 0 0) ⟨by decide, by decide⟩ rfl (by decide)

end Yasio
