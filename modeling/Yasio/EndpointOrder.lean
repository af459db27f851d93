import Yasio.Endpoint
import Yasio.FramingStream
import Mathlib.Data.List.Lex
import Mathlib.Data.Set.Basic

/-!
# The order of endpoints

`operator<` and `operator==` of `ip::endpoint` and `std::hash` on the bytes of the objects: the
union of the socket addresses, `len_` and the padding behind it.  The order of `std::map` asks for a
strict weak order, and the map of peers for one in which equal keys are the same peer.
-/

namespace Yasio

def AF_INET : ℕ := 2
def AF_INET6 : ℕ := 10

/-- `sizeof(ip::endpoint)`: 28 bytes of `sockaddr_in6`, `len_` and three bytes of padding. -/
def sizeofEndpoint : ℕ := 32

/-- The bytes of a member of the union. -/
def bytesAt (bytes : List UInt8) (offset size : ℕ) : List UInt8 := (bytes.drop offset).take size

/-- The bytes of an `ip::endpoint` that holds an IPv4 or an IPv6 address. -/
structure InetEndpoint where
  bytes : List UInt8
  length_bytes : bytes.length = sizeofEndpoint
  /-- `sa_family` and `len_` -/
  family : leNat (bytesAt bytes 0 2) = AF_INET ∧ bytesAt bytes 28 1 = [16] ∨
    leNat (bytesAt bytes 0 2) = AF_INET6 ∧ bytesAt bytes 28 1 = [28]

namespace InetEndpoint

variable (a b : InetEndpoint)

/-- `af()` -/
def af : ℕ := leNat (bytesAt a.bytes 0 2)

/-- `len()` -/
def len : ℕ := leNat (bytesAt a.bytes 28 1)

/-- `sin_port` and `sin6_port` -/
def port : List UInt8 := bytesAt a.bytes 2 2

/-- `sin_addr` -/
def in4Addr : List UInt8 := bytesAt a.bytes 4 4

/-- `sin6_addr` -/
def in6Addr : List UInt8 := bytesAt a.bytes 8 16

/-- `sin6_scope_id` -/
def scopeId : List UInt8 := bytesAt a.bytes 24 4

/-- `s_addr + sin_port` of the object read as a `sockaddr_in`. -/
def in4Sum : ℕ := leNat a.in4Addr + leNat a.port

/-- The bytes as `memcmp` compares them. -/
def memory : List ℕ := a.bytes.map UInt8.toNat

/-- `operator<` -/
def lt : Bool := if a.af = AF_INET then a.in4Sum < b.in4Sum else a.memory < b.memory

/-- `operator==` -/
def eq : Bool := !a.lt b && !b.lt a

/-- What `std::hash` hashes. -/
def view : List UInt8 := a.bytes.take a.len

/-- `std::hash<ip::endpoint>`, where `hash` is that of `string_view`. -/
def hash (hash : List UInt8 → ℕ) : ℕ := hash a.view

/-- The same peer: the family, the address and the port are the same, and for IPv6 the scope. -/
def Same : Prop :=
  a.af = b.af ∧ a.port = b.port ∧
    if a.af = AF_INET then a.in4Addr = b.in4Addr
    else a.in6Addr = b.in6Addr ∧ a.scopeId = b.scopeId

instance : Decidable (a.Same b) := by
  unfold Same
  infer_instance

end InetEndpoint

/-- What a map or a hash table asks of its keys. -/
structure Lawful (keys : Set InetEndpoint) : Prop where
  irrefl : ∀ a ∈ keys, a.lt a = false
  asymm : ∀ a ∈ keys, ∀ b ∈ keys, a.lt b = true → b.lt a = false
  trans : ∀ a ∈ keys, ∀ b ∈ keys, ∀ c ∈ keys, a.lt b = true → b.lt c = true → a.lt c = true
  incomp_trans : ∀ a ∈ keys, ∀ b ∈ keys, ∀ c ∈ keys,
    a.eq b = true → b.eq c = true → a.eq c = true
  eq_iff : ∀ a ∈ keys, ∀ b ∈ keys, (a.eq b = true ↔ a.Same b)
  hash : ∀ a ∈ keys, ∀ b ∈ keys, a.eq b = true → ∀ hash, a.hash hash = b.hash hash

/-- The condition.  Two IPv4 keys with one sum are the same peer, also in the eight bytes behind the
address; the sum of an IPv4 key is below the sum of the port and the flow information of every IPv6
key; and IPv6 keys of one peer are the same in all bytes. -/
structure Spread (keys : Set InetEndpoint) : Prop where
  in4 : ∀ a ∈ keys, ∀ b ∈ keys, a.af = AF_INET → b.af = AF_INET → a.in4Sum = b.in4Sum →
    a.view = b.view
  mixed : ∀ a ∈ keys, ∀ b ∈ keys, a.af = AF_INET → b.af = AF_INET6 → a.in4Sum < b.in4Sum
  in6 : ∀ a ∈ keys, ∀ b ∈ keys, a.af = AF_INET6 → a.Same b → a.bytes = b.bytes

namespace InetEndpoint

variable {a b c : InetEndpoint}

theorem af_cases (a : InetEndpoint) : a.af = AF_INET ∨ a.af = AF_INET6 :=
  a.family.imp And.left And.left

theorem len_of_in4 (ha : a.af = AF_INET) : a.len = 16 := by
  rcases a.family with ⟨-, hlen⟩ | ⟨haf, -⟩
  · unfold len
    rw [hlen]
    rfl
  · exact absurd (ha.symm.trans haf) (by decide)

theorem lt_of_in4 (ha : a.af = AF_INET) : a.lt b = true ↔ a.in4Sum < b.in4Sum := by
  simp [lt, ha]

theorem lt_of_in6 (ha : a.af = AF_INET6) : a.lt b = true ↔ a.memory < b.memory := by
  have hne : ¬ a.af = AF_INET := by
    rw [ha]
    decide
  simp [lt, hne]

theorem eq_iff_not_lt : a.eq b = true ↔ ¬ a.lt b = true ∧ ¬ b.lt a = true := by
  simp [eq]

theorem memory_injective (h : a.memory = b.memory) : a.bytes = b.bytes :=
  List.map_injective_iff.2 (fun _ _ => UInt8.toNat_inj.1) h

/-- The family is what lies first in memory. -/
theorem memory_eq_cons (a : InetEndpoint) : ∃ rest, a.memory = a.af :: rest := by
  obtain ⟨x, y, rest, hbytes⟩ : ∃ x y rest, a.bytes = x :: y :: rest := by
    match h : a.bytes, a.length_bytes with
    | x :: y :: rest, _ => exact ⟨x, y, rest, rfl⟩
  have haf : a.af = x.toNat + 256 * y.toNat := by
    simp [af, bytesAt, hbytes, leNat]
  have hzero : y.toNat = 0 := by
    rcases a.af_cases with h | h
    · have h2 : a.af = 2 := h
      omega
    · have h10 : a.af = 10 := h
      omega
  refine ⟨y.toNat :: rest.map UInt8.toNat, ?_⟩
  rw [memory, hbytes, haf, hzero]
  simp [hzero]

theorem memory_lt_of_families (ha : a.af = AF_INET) (hb : b.af = AF_INET6) :
    a.memory < b.memory := by
  obtain ⟨rest, hrest⟩ := a.memory_eq_cons
  obtain ⟨rest', hrest'⟩ := b.memory_eq_cons
  rw [hrest, hrest', ha, hb]
  exact List.Lex.rel (by decide)

/-- An IPv6 endpoint is never below an IPv4 one. -/
theorem not_lt_of_families (ha : a.af = AF_INET) (hb : b.af = AF_INET6) : ¬ b.lt a = true := by
  rw [lt_of_in6 hb]
  exact (memory_lt_of_families ha hb).asymm

theorem eq_of_in4 (ha : a.af = AF_INET) (hb : b.af = AF_INET) :
    a.eq b = true ↔ a.in4Sum = b.in4Sum := by
  rw [eq_iff_not_lt, lt_of_in4 ha, lt_of_in4 hb]
  omega

theorem eq_of_in6 (ha : a.af = AF_INET6) (hb : b.af = AF_INET6) :
    a.eq b = true ↔ a.bytes = b.bytes := by
  rw [eq_iff_not_lt, lt_of_in6 ha, lt_of_in6 hb]
  constructor
  · rintro ⟨h, h'⟩
    exact memory_injective (le_antisymm (not_lt.1 h') (not_lt.1 h))
  · intro h
    have hmemory : a.memory = b.memory := congrArg (List.map UInt8.toNat) h
    rw [hmemory]
    exact ⟨lt_irrefl _, lt_irrefl _⟩

theorem eq_comm : a.eq b = b.eq a := by
  unfold eq
  exact Bool.and_comm _ _

theorem bytesAt_take {bytes : List UInt8} {offset size n : ℕ} (h : offset + size ≤ n) :
    bytesAt (bytes.take n) offset size = bytesAt bytes offset size := by
  unfold bytesAt
  rw [List.drop_take, List.take_take, min_eq_left (by omega)]

/-- The bytes of a `sockaddr_in` tell the peer. -/
theorem same_of_view (ha : a.af = AF_INET) (hb : b.af = AF_INET) (h : a.view = b.view) :
    a.Same b := by
  have hbytes : a.bytes.take 16 = b.bytes.take 16 := by
    unfold view at h
    rw [len_of_in4 ha, len_of_in4 hb] at h
    exact h
  have hmember : ∀ offset size, offset + size ≤ 16 →
      bytesAt a.bytes offset size = bytesAt b.bytes offset size := by
    intro offset size hle
    rw [← bytesAt_take hle, hbytes, bytesAt_take hle]
  refine ⟨ha.trans hb.symm, hmember 2 2 (by omega), ?_⟩
  rw [if_pos ha]
  exact hmember 4 4 (by omega)

theorem view_of_bytes (h : a.bytes = b.bytes) : a.view = b.view := by
  unfold view len
  rw [h]

theorem same_of_bytes (h : a.bytes = b.bytes) : a.Same b := by
  unfold Same af port in4Addr in6Addr scopeId
  rw [h]
  simp

/-- Under the condition equal endpoints are of one family. -/
theorem eq_cases {keys : Set InetEndpoint} (h : Spread keys) (ha : a ∈ keys) (hb : b ∈ keys) :
    a.eq b = true ↔ a.af = AF_INET ∧ b.af = AF_INET ∧ a.in4Sum = b.in4Sum ∨
      a.af = AF_INET6 ∧ b.af = AF_INET6 ∧ a.bytes = b.bytes := by
  have hne : AF_INET ≠ AF_INET6 := by decide
  rcases a.af_cases with ha4 | ha6 <;> rcases b.af_cases with hb4 | hb6
  · simp [eq_of_in4 ha4 hb4, ha4, hb4, hne]
  · have hlt := (lt_of_in4 ha4).2 (h.mixed a ha b hb ha4 hb6)
    simp [eq_iff_not_lt, hlt, ha4, hb6, hne, hne.symm]
  · have hlt := (lt_of_in4 hb4).2 (h.mixed b hb a ha hb4 ha6)
    simp [eq_iff_not_lt, hlt, ha6, hb4, hne, hne.symm]
  · simp [eq_of_in6 ha6 hb6, ha6, hb6, hne.symm]

end InetEndpoint

open InetEndpoint

theorem Lawful.spread {keys : Set InetEndpoint} (h : Lawful keys) : Spread keys where
  in4 a ha b hb ha4 hb4 hsum := by
    have heq : a.eq b = true := (eq_of_in4 ha4 hb4).2 hsum
    by_contra hne
    have hhash := h.hash a ha b hb heq fun view => if view = a.view then 0 else 1
    simp [InetEndpoint.hash, Ne.symm hne] at hhash
  mixed a ha b hb ha4 hb6 := by
    have hsame : ¬ a.Same b := fun hsame =>
      absurd (ha4.symm.trans (hsame.1.trans hb6)) (by decide)
    have hne : ¬ a.eq b = true := fun heq => hsame ((h.eq_iff a ha b hb).1 heq)
    rw [eq_iff_not_lt, not_and_or, not_not, not_not] at hne
    exact (lt_of_in4 ha4).1 (hne.resolve_right (not_lt_of_families ha4 hb6))
  in6 a ha b hb ha6 hsame :=
    (eq_of_in6 ha6 (hsame.1.symm.trans ha6)).1 ((h.eq_iff a ha b hb).2 hsame)

theorem Spread.lawful {keys : Set InetEndpoint} (h : Spread keys) : Lawful keys where
  irrefl a _ := by
    rw [Bool.eq_false_iff]
    rcases a.af_cases with ha | ha
    · rw [ne_eq, lt_of_in4 ha]
      exact lt_irrefl _
    · rw [ne_eq, lt_of_in6 ha]
      exact lt_irrefl _
  asymm a _ b _ hlt := by
    rw [Bool.eq_false_iff]
    rcases a.af_cases with ha | ha <;> rcases b.af_cases with hb | hb
    · rw [lt_of_in4 ha] at hlt
      rw [ne_eq, lt_of_in4 hb]
      exact hlt.asymm
    · exact not_lt_of_families ha hb
    · exact absurd hlt (not_lt_of_families hb ha)
    · rw [lt_of_in6 ha] at hlt
      rw [ne_eq, lt_of_in6 hb]
      exact hlt.asymm
  trans a ha b hb c hc hab hbc := by
    rcases a.af_cases with ha4 | ha6
    · rcases c.af_cases with hc4 | hc6
      · rcases b.af_cases with hb4 | hb6
        · rw [lt_of_in4 ha4] at hab ⊢
          rw [lt_of_in4 hb4] at hbc
          exact hab.trans hbc
        · exact absurd hbc (not_lt_of_families hc4 hb6)
      · exact (lt_of_in4 ha4).2 (h.mixed a ha c hc ha4 hc6)
    · rcases b.af_cases with hb4 | hb6
      · exact absurd hab (not_lt_of_families hb4 ha6)
      · rw [lt_of_in6 ha6] at hab ⊢
        rw [lt_of_in6 hb6] at hbc
        exact hab.trans hbc
  incomp_trans a ha b hb c hc hab hbc := by
    have hne : AF_INET ≠ AF_INET6 := by decide
    rw [eq_cases h ha hb] at hab
    rw [eq_cases h hb hc] at hbc
    rw [eq_cases h ha hc]
    rcases hab with ⟨ha4, hb4, hab⟩ | ⟨ha6, hb6, hab⟩ <;>
      rcases hbc with ⟨hb4', hc4, hbc⟩ | ⟨hb6', hc6, hbc⟩
    · exact Or.inl ⟨ha4, hc4, hab.trans hbc⟩
    · exact absurd (hb4.symm.trans hb6') hne
    · exact absurd (hb4'.symm.trans hb6) hne
    · exact Or.inr ⟨ha6, hc6, hab.trans hbc⟩
  eq_iff a ha b hb := by
    rw [eq_cases h ha hb]
    constructor
    · rintro (⟨ha4, hb4, hsum⟩ | ⟨-, -, hbytes⟩)
      · exact same_of_view ha4 hb4 (h.in4 a ha b hb ha4 hb4 hsum)
      · exact same_of_bytes hbytes
    · intro hsame
      rcases a.af_cases with ha4 | ha6
      · refine Or.inl ⟨ha4, hsame.1.symm.trans ha4, ?_⟩
        have haddr := hsame.2.2
        rw [if_pos ha4] at haddr
        unfold in4Sum
        rw [haddr, hsame.2.1]
      · exact Or.inr ⟨ha6, hsame.1.symm.trans ha6, h.in6 a ha b hb ha6 hsame⟩
  hash a ha b hb heq hash := by
    unfold InetEndpoint.hash
    rcases (eq_cases h ha hb).1 heq with ⟨ha4, hb4, hsum⟩ | ⟨-, -, hbytes⟩
    · rw [h.in4 a ha b hb ha4 hb4 hsum]
    · rw [view_of_bytes hbytes]

/-- `operator<`, `operator==` and the hash are lawful on a set of keys exactly when the sums keep
its IPv4 keys apart from each other and below the IPv6 ones, and the bytes that are not part of the
address are the same in the keys of one peer. -/
theorem lawful_iff (keys : Set InetEndpoint) : Lawful keys ↔ Spread keys :=
  ⟨Lawful.spread, Spread.lawful⟩

/-- `10.1.0.1:5002` and `10.2.0.1:5001`, with zeros behind the address. -/
def nearPeers : InetEndpoint × InetEndpoint :=
  (⟨[2, 0, 19, 138, 10, 1, 0, 1] ++ List.replicate 20 0 ++ [16, 0, 0, 0], by decide, by decide⟩,
    ⟨[2, 0, 19, 137, 10, 2, 0, 1] ++ List.replicate 20 0 ++ [16, 0, 0, 0], by decide, by decide⟩)

/-- Two IPv4 peers are the same key. -/
theorem not_lawful :
    ¬ Lawful Set.univ ∧ nearPeers.1.eq nearPeers.2 = true ∧ ¬ nearPeers.1.Same nearPeers.2 := by
  have heq : nearPeers.1.eq nearPeers.2 = true := by decide
  have hsame : ¬ nearPeers.1.Same nearPeers.2 := by decide
  refine ⟨fun h => hsame ?_, heq, hsame⟩
  exact (h.eq_iff _ (Set.mem_univ _) _ (Set.mem_univ _)).1 heq

end Yasio
