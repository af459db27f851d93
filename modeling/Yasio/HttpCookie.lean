import Mathlib.Algebra.Order.Ring.Int
import Yasio.Lib.Machine
import Yasio.Split

/-!
# Cookies

`HttpCookie` stores the cookies of `Set-Cookie` headers and puts those that match a URI into a
request.  The entries of the jar are kept together with what the headers said of them.
-/

namespace Yasio

instance instZeroChar : Zero Char := ⟨'\x00'⟩

structure CookieInfo where
  domain : List Char := []
  tailmatch : Bool := true
  path : List Char := []
  secure : Bool := false
  name : List Char := []
  value : List Char := []
  expires : ℤ := 0
  deriving DecidableEq, Repr

/-- The parts of a `Uri` that a request is made of. -/
structure Uri where
  host : List Char
  path : List Char := ['/']
  pathEtc : List Char := ['/']
  isSecure : Bool := false
  deriving DecidableEq, Repr

/-- `std::get_time` of a format and a text, and the two functions that make a `time_t` of what it
reads, taken as local time and as GMT. -/
structure Calendar (τ : Type) where
  getTime : List Char → List Char → Option τ
  mktime : τ → ℤ
  timegm : τ → ℤ

/-- `(std::numeric_limits<time_t>::max)()` -/
def timeMax : ℤ := 2 ^ 63 - 1

/-- `cxx20::ic::iequals` -/
def iequals (lhs v : List Char) : Bool := lhs.map Char.toLower == v.map Char.toLower

namespace CookieInfo

def isSame (cookie rhs : CookieInfo) : Bool :=
  cookie.name == rhs.name && cookie.domain == rhs.domain

def updateValue (cookie rhs : CookieInfo) : CookieInfo :=
  { cookie with value := rhs.value, expires := rhs.expires, path := rhs.path }

end CookieInfo

namespace HttpCookie

open SplitPass

/-! ## Reading a header -/

/-- What is known of a cookie while its header is read, and the time that `expires` was made of. -/
structure SetCookie (τ : Type) where
  count : ℕ := 0
  info : CookieInfo := {}
  dt : Option τ := none

/-- The first two pieces between the `=`. -/
def keyValue (mem : List Char) (first last : ℕ) :
    ℕ × List Char × List Char → ℕ × List Char × List Char
  | (0, _, value) => (1, slice mem first last, value)
  | (1, key, _) => (2, key, slice mem first last)
  | (count, key, value) => (count + 1, key, value)

section

variable {τ : Type} (cal : Calendar τ)

/-- The time in an `expires` attribute. -/
def readExpires (value : List Char) : Option τ :=
  let gmt := " GMT".toList
  let text := if gmt <:+ value then value.take (value.length - gmt.length) else value
  if text = [] then none
  else
    let off :=
      match text.findIdx? (· = ',') with
      | none => 0
      | some p => ((text.drop (p + 1)).findIdx? (· ≠ ' ')).elim 0 (· + (p + 1))
    let ss := (text.drop off).takeWhile (· ≠ 0)
    (cal.getTime "%d %b %Y %H:%M:%S".toList ss).or
      (cal.getTime "%d-%b-%Y %H:%M:%S".toList ss)

def headerAttribute (key value : List Char) (s : SetCookie τ) : SetCookie τ :=
  if iequals key "domain".toList then
    if value = [] then s else { s with info := { s.info with domain := value } }
  else if iequals key "path".toList then
    if value = [] then s else { s with info := { s.info with path := value } }
  else if iequals key "expires".toList then
    match readExpires cal value with
    | none => s
    | some dt => { s with info := { s.info with expires := cal.mktime dt }, dt := some dt }
  else if iequals key "secure".toList then
    { s with info := { s.info with secure := true } }
  else s

/-- What is done with the piece of a header between two `;`. -/
def headerPiece (mem : List Char) (first last : ℕ) (s : SetCookie τ) : SetCookie τ :=
  let start := first + ((mem.drop first).takeWhile (· = ' ')).length
  let piece := mem.drop start
  let (_, key, value) := (splitN piece (last - start) '=' (keyValue piece) (0, [], [])).kept
  let s := { s with count := s.count + 1 }
  if 1 < s.count then headerAttribute cal key value s
  else { s with info := { s.info with name := key, value } }

/-- What the attributes of the header leave open. -/
def withDefaults (uri : Uri) (info : CookieInfo) : CookieInfo :=
  let info := if info.path = [] then { info with path := ['/'] } else info
  let info := if info.domain = [] then { info with domain := uri.host } else info
  if info.expires ≤ 0 then { info with expires := timeMax } else info

/-- The cookie of a header, and the time that its `expires` was made of. -/
def readHeader (cookie : List Char) (uri : Uri) : CookieInfo × Option τ :=
  let mem := cookie ++ [0]
  let s := (splitN mem cookie.length ';' (headerPiece cal mem) {}).kept
  (withDefaults uri s.info, s.dt)

end

theorem expires_withDefaults (uri : Uri) (info : CookieInfo) :
    (withDefaults uri info).expires = if info.expires ≤ 0 then timeMax else info.expires := by
  unfold withDefaults
  by_cases hpath : info.path = [] <;> by_cases hdomain : info.domain = [] <;>
    by_cases hexpires : info.expires ≤ 0 <;> simp [hpath, hdomain, hexpires]

/-! ## The jar -/

/-- `updateOrAddCookie(CookieInfo*)` -/
def updateOrAdd (cookie : CookieInfo) : List CookieInfo → List CookieInfo
  | [] => [cookie]
  | c :: cookies =>
    if cookie.isSame c then c.updateValue cookie :: cookies else c :: updateOrAdd cookie cookies

/-- `updateOrAddCookie(cookie, uri)` -/
def updateOrAddCookie {τ : Type} (cal : Calendar τ) (cookie : List Char) (uri : Uri)
    (cookies : List CookieInfo) : List CookieInfo :=
  updateOrAdd (readHeader cal cookie uri).1 cookies

/-- Host and path of the URI end and begin as those of the cookie. -/
def Matches (uri : Uri) (cookie : CookieInfo) : Prop :=
  cookie.domain <:+ uri.host ∧ cookie.path <+: uri.path

instance (uri : Uri) (cookie : CookieInfo) : Decidable (Matches uri cookie) :=
  inferInstanceAs (Decidable (_ ∧ _))

/-- `checkAndGetFormatedMatchCookies` when `time_now()` answers `now`, with the cookies that
remain. -/
def checkAndGetFormatedMatchCookies (now : ℤ) (uri : Uri) :
    List CookieInfo → List Char → List CookieInfo × List Char
  | [], ret => ([], ret)
  | cookie :: cookies, ret =>
    if Matches uri cookie then
      if cookie.expires ≤ now then checkAndGetFormatedMatchCookies now uri cookies ret
      else
        let ret := if ret = [] then ret else ret ++ "; ".toList
        let (rest, ret) := checkAndGetFormatedMatchCookies now uri cookies
          (ret ++ cookie.name ++ ['='] ++ cookie.value)
        (cookie :: rest, ret)
    else
      let (rest, ret) := checkAndGetFormatedMatchCookies now uri cookies ret
      (cookie :: rest, ret)

/-! ## What a request is given -/

/-- `name=value` -/
def piece (cookie : CookieInfo) : List Char := cookie.name ++ ['='] ++ cookie.value

def format (cookies : List CookieInfo) : List Char :=
  "; ".toList.intercalate (cookies.map piece)

def Sent (now : ℤ) (uri : Uri) (cookie : CookieInfo) : Prop :=
  Matches uri cookie ∧ now < cookie.expires

instance (now : ℤ) (uri : Uri) (cookie : CookieInfo) : Decidable (Sent now uri cookie) :=
  inferInstanceAs (Decidable (_ ∧ _))

def Remains (now : ℤ) (uri : Uri) (cookie : CookieInfo) : Prop :=
  Matches uri cookie → now < cookie.expires

instance (now : ℤ) (uri : Uri) (cookie : CookieInfo) : Decidable (Remains now uri cookie) :=
  inferInstanceAs (Decidable (_ → _))

/-- Two texts with a separator between them, if neither is empty. -/
def joined (ret text : List Char) : List Char :=
  if text = [] then ret else if ret = [] then text else ret ++ "; ".toList ++ text

theorem joined_nil (text : List Char) : joined [] text = text := by
  unfold joined
  split
  · next h => exact h.symm
  · exact if_pos rfl

theorem joined_assoc (a b c : List Char) : joined (joined a b) c = joined a (joined b c) := by
  unfold joined
  by_cases hc : c = []
  · simp only [hc, if_true]
  · by_cases hb : b = []
    · simp only [hb, hc, if_true, if_false]
    · by_cases ha : a = []
      · simp only [ha, hb, hc, if_true, if_false, List.append_eq_nil_iff, and_false]
      · simp only [ha, hb, hc, if_false, List.append_eq_nil_iff, and_false, List.append_assoc]

theorem piece_ne_nil (cookie : CookieInfo) : piece cookie ≠ [] := by
  simp [piece]

theorem format_cons (cookie : CookieInfo) (cookies : List CookieInfo) :
    format (cookie :: cookies) = joined (piece cookie) (format cookies) := by
  cases cookies with
  | nil => exact List.intercalate_singleton
  | cons c cookies =>
    have hne : format (c :: cookies) ≠ [] := by
      rw [format, List.map_cons]
      cases cookies <;> simp [List.intercalate, piece_ne_nil]
    rw [joined, if_neg hne, if_neg (piece_ne_nil cookie), format, List.map_cons,
      List.intercalate_cons_of_ne_nil (by simp)]
    rfl

/-- The loop erases what has expired and matches, and sends what has not. -/
theorem checkAndGet_spec (now : ℤ) (uri : Uri) (cookies : List CookieInfo) (ret : List Char) :
    checkAndGetFormatedMatchCookies now uri cookies ret =
      (cookies.filter (Remains now uri ·),
        joined ret (format (cookies.filter (Sent now uri ·)))) := by
  induction cookies generalizing ret with
  | nil => rfl
  | cons cookie cookies ih =>
    rw [checkAndGetFormatedMatchCookies, List.filter_cons, List.filter_cons]
    by_cases hmatch : Matches uri cookie
    · by_cases hexpired : cookie.expires ≤ now
      · have hremains : ¬ Remains now uri cookie := fun h => Int.not_lt.2 hexpired (h hmatch)
        have hsent : ¬ Sent now uri cookie := fun h => Int.not_lt.2 hexpired h.2
        rw [if_pos hmatch, if_pos hexpired, if_neg (mt of_decide_eq_true hremains),
          if_neg (mt of_decide_eq_true hsent), ih]
      · have hlt : now < cookie.expires := Int.not_le.1 hexpired
        have hremains : Remains now uri cookie := fun _ => hlt
        have hret : (if ret = [] then ret else ret ++ "; ".toList) ++ cookie.name ++ ['='] ++
            cookie.value = joined ret (piece cookie) := by
          rw [joined, if_neg (piece_ne_nil cookie)]
          split
          · next hnil => rw [hnil, piece, List.nil_append]
          · simp only [piece, List.append_assoc]
        rw [if_pos hmatch, if_neg hexpired, if_pos (decide_eq_true hremains),
          if_pos (decide_eq_true ⟨hmatch, hlt⟩), format_cons, ← joined_assoc, ← hret]
        exact congrArg (fun r : List CookieInfo × List Char => (cookie :: r.1, r.2)) (ih _)
    · have hremains : Remains now uri cookie := fun h => absurd h hmatch
      have hsent : ¬ Sent now uri cookie := fun h => hmatch h.1
      rw [if_neg hmatch, if_pos (decide_eq_true hremains), if_neg (mt of_decide_eq_true hsent)]
      exact congrArg (fun r : List CookieInfo × List Char => (cookie :: r.1, r.2)) (ih _)

end HttpCookie

end Yasio
