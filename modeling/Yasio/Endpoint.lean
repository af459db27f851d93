import Yasio.Framing

/-!
# Endpoints and the map of UDP peers

`ip::endpoint` with its hand-written `operator<`, and `std::map<ip::endpoint, T>` as far as
`transport_map_` uses it.  The numbers of an endpoint are those of its bytes in network order, read
from left to right.
-/

namespace Yasio

/-- `ip::endpoint`.  `pad` stands for the bytes of the object behind the address. -/
inductive Endpoint
  | unspec
  | in4 (addr port : ℕ)
  | in6 (port flowinfo addr scopeId pad : ℕ)
  deriving DecidableEq, Repr

/-- `ntohs` on a 16-bit value. -/
def ntohs (v : ℕ) : ℕ := v % 256 * 2 ^ 8 + v / 2 ^ 8 % 256

namespace Endpoint

/-- `s_addr + sin_port` of the object read as a `sockaddr_in`, as `operator<` adds them. -/
def in4Sum : Endpoint → ℕ
  | unspec => 0
  | in4 addr port => ntohl addr + ntohs port
  | in6 port flowinfo _ _ _ => ntohl flowinfo + ntohs port

/-- The bytes of the object in the order of `memcmp`, gathered field by field. -/
def bytes : Endpoint → List ℕ
  | unspec => [0]
  | in4 addr port => [2, port, addr]
  | in6 port flowinfo addr scopeId pad => [10, port, flowinfo, addr, ntohl scopeId, pad]

/-- `operator<` -/
def lt (lhs rhs : Endpoint) : Bool :=
  match lhs with
  | in4 _ _ => lhs.in4Sum < rhs.in4Sum
  | _ => lhs.bytes < rhs.bytes

/-- `operator==`, which is also how `std::map` compares keys. -/
def equiv (lhs rhs : Endpoint) : Bool := !lhs.lt rhs && !rhs.lt lhs

def port : Endpoint → ℕ
  | unspec => 0
  | in4 _ port => port
  | in6 port _ _ _ _ => port

def setPort (value : ℕ) : Endpoint → Endpoint
  | unspec => unspec
  | in4 addr _ => in4 addr value
  | in6 _ flowinfo addr scopeId pad => in6 value flowinfo addr scopeId pad

/-- The address in an object whose bytes behind it are `pad`. -/
def withPad (pad : ℕ) : Endpoint → Endpoint
  | in6 port flowinfo addr scopeId _ => in6 port flowinfo addr scopeId pad
  | ep => ep

/-- Two objects that denote the same address and port. -/
def Same : Endpoint → Endpoint → Prop
  | in4 addr port, in4 addr' port' => addr = addr' ∧ port = port'
  | in6 port _ addr scopeId _, in6 port' _ addr' scopeId' _ =>
    port = port' ∧ addr = addr' ∧ scopeId = scopeId'
  | unspec, unspec => True
  | _, _ => False

instance : DecidableRel Same
  | in4 _ _, in4 _ _ => inferInstanceAs (Decidable (_ ∧ _))
  | in6 _ _ _ _ _, in6 _ _ _ _ _ => inferInstanceAs (Decidable (_ ∧ _ ∧ _))
  | unspec, unspec => .isTrue trivial
  | unspec, in4 _ _ => .isFalse nofun
  | unspec, in6 _ _ _ _ _ => .isFalse nofun
  | in4 _ _, unspec => .isFalse nofun
  | in4 _ _, in6 _ _ _ _ _ => .isFalse nofun
  | in6 _ _ _ _ _, unspec => .isFalse nofun
  | in6 _ _ _ _ _, in4 _ _ => .isFalse nofun

end Endpoint

/-- What `inet_pton` makes of the text of a literal address. -/
inductive Ip
  | v4 (addr : ℕ)
  | v6 (addr scopeId : ℕ)
  deriving DecidableEq, Repr

/-- `endpoint::as_in(const char*, u_short)` on a literal. -/
def Ip.endpoint (port : ℕ) : Ip → Endpoint
  | v4 addr => .in4 addr port
  | v6 addr scopeId => .in6 port 0 addr scopeId 0

@[simp] theorem Ip.port_endpoint (port : ℕ) (ip : Ip) : (ip.endpoint port).port = port := by
  cases ip <;> rfl

/-! ## The peer map -/

/-- A `std::map` from endpoints, as the list of its entries.  Two keys are the same to the map
when neither is below the other. -/
abbrev PeerMap (β : Type*) := List (Endpoint × β)

namespace PeerMap

variable {β : Type*}

/-- `find` -/
def find (m : PeerMap β) (p : Endpoint) : Option β :=
  (List.find? (fun e => e.1.equiv p) m).map Prod.snd

/-- `erase(key)` -/
def erase (m : PeerMap β) (p : Endpoint) : PeerMap β := List.filter (fun e => !e.1.equiv p) m

/-- `emplace` of a key that was not found. -/
def emplace (m : PeerMap β) (p : Endpoint) (v : β) : PeerMap β := m ++ [(p, v)]

/-- What `std::map` asks of `operator<`, on the keys that are compared: a strict weak order. -/
structure Ordered (keys : List Endpoint) : Prop where
  irrefl : ∀ a ∈ keys, a.lt a = false
  trans : ∀ a ∈ keys, ∀ b ∈ keys, ∀ c ∈ keys, a.lt b = true → b.lt c = true → a.lt c = true
  equiv_trans : ∀ a ∈ keys, ∀ b ∈ keys, ∀ c ∈ keys,
    a.equiv b = true → b.equiv c = true → a.equiv c = true

instance (keys : List Endpoint) : Decidable (Ordered keys) :=
  decidable_of_iff
    ((∀ a ∈ keys, a.lt a = false) ∧
      (∀ a ∈ keys, ∀ b ∈ keys, ∀ c ∈ keys, a.lt b = true → b.lt c = true → a.lt c = true) ∧
      ∀ a ∈ keys, ∀ b ∈ keys, ∀ c ∈ keys, a.equiv b = true → b.equiv c = true → a.equiv c = true)
    ⟨fun h => ⟨h.1, h.2.1, h.2.2⟩, fun h => ⟨h.irrefl, h.trans, h.equiv_trans⟩⟩

theorem mem_erase {m : PeerMap β} {p : Endpoint} {e : Endpoint × β} :
    e ∈ m.erase p ↔ e ∈ m ∧ e.1.equiv p = false := by
  simp [erase]

theorem mem_emplace {m : PeerMap β} {p : Endpoint} {v : β} {e : Endpoint × β} :
    e ∈ m.emplace p v ↔ e ∈ m ∨ e = (p, v) := by
  simp [emplace]

theorem find_eq_none {m : PeerMap β} {p : Endpoint} :
    m.find p = none ↔ ∀ e ∈ m, e.1.equiv p = false := by
  simp [find]

theorem exists_mem_of_find {m : PeerMap β} {p : Endpoint} {v : β} (h : m.find p = some v) :
    ∃ k, (k, v) ∈ m ∧ k.equiv p = true := by
  obtain ⟨e, he, rfl⟩ := Option.map_eq_some_iff.1 h
  have hk : e.1.equiv p = true := by
    have := List.find?_some he
    simpa using this
  exact ⟨e.1, List.mem_of_find?_eq_some he, hk⟩

end PeerMap

end Yasio
