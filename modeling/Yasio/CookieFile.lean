import Mathlib.Data.List.TakeWhile
import Yasio.HttpCookie
import Yasio.EndpointText
import Yasio.Lib.Decimal

/-!
# The cookie file

`writeFile` and `readFile` of `HttpCookie`, and `read_text_file`.
-/

namespace Yasio

/-- `strtoll` -/
def strtoll (text : List Char) : ℤ :=
  let text := text.dropWhile Scan.isspace
  let digits (rest : List Char) : ℤ := Nat.ofDigitChars 10 (rest.takeWhile Char.isDigit) 0
  let value :=
    match text with
    | '-' :: rest => -digits rest
    | '+' :: rest => digits rest
    | rest => digits rest
  max (-2 ^ 63) (min value (2 ^ 63 - 1))

/-! ## Reading a file -/

/-- `std::ios_base::beg` and `std::ios_base::end`.  A call of `seekg` that has no other argument
takes them as positions in the file. -/
def seekBeg : ℕ := 0

def seekEnd : ℕ := 2

/-- `read_text_file`, for a file that cannot be opened or has the text.  What is not read of the
string stays zero. -/
def readTextFile : Option (List Char) → List Char
  | none => []
  | some data =>
    let pos := seekEnd
    let n := pos
    if 0 < n then
      let pos := seekBeg
      let out := (data.drop pos).take n
      out ++ List.replicate (n - out.length) 0
    else []

namespace HttpCookie

open SplitPass

/-- The field at an index: `DOMAIN_INDEX`, `TAILMATCH_INDEX`, `PATH_INDEX`, `SECURE_INDEX`,
`EXPIRES_INDEX`, `NAME_INDEX`, `VALUE_INDEX`. -/
def setField (cookieInfo : CookieInfo) (text : List Char) : ℕ → CookieInfo
  | 0 => { cookieInfo with domain := text }
  | 2 => { cookieInfo with path := text }
  | 3 => { cookieInfo with secure := text == "TRUE".toList }
  | 4 => { cookieInfo with expires := strtoll text }
  | 5 => { cookieInfo with name := text }
  | 6 => { cookieInfo with value := text }
  | _ => cookieInfo

def addField (t : ℕ × CookieInfo) (text : List Char) : ℕ × CookieInfo :=
  (t.1 + 1, setField t.2 text t.1)

/-- What is done with a line of the file. -/
def readLine (mem : List Char) (first last : ℕ) (cookies : List CookieInfo) : List CookieInfo :=
  let line := mem.drop first
  if line.head? = some '#' then cookies
  else
    let fields := (splitN line (last - first) '\t'
      (fun ss ee t => addField t (slice line ss ee)) (0, {})).kept
    if 7 ≤ fields.1 then cookies ++ [fields.2] else cookies

/-- What is done with the content of the file. -/
def readContent (content : List Char) (cookies : List CookieInfo) : List CookieInfo :=
  if 1 < content.length then
    (splitN (content ++ [0]) (content.length - 1) '\n' (readLine (content ++ [0])) cookies).kept
  else cookies

def readFile (file : Option (List Char)) (cookies : List CookieInfo) : List CookieInfo :=
  readContent (readTextFile file) cookies

/-! ## Writing it -/

/-- The lines in front of the cookies. -/
def comment : List (List Char) :=
  ["# Netscape HTTP Cookie File".toList,
    "# http://curl.haxx.se/docs/http-cookies.html".toList,
    "# This file was generated by yasio_http! Edit at your own risk.".toList,
    "# Test yasio_http cookie write.".toList, []]

def flag (b : Bool) : List Char := if b then "TRUE".toList else "FALSE".toList

def cookieLine (cookie : CookieInfo) : List Char :=
  cookie.domain ++ ['\t'] ++ flag cookie.tailmatch ++ ['\t'] ++ cookie.path ++ ['\t'] ++
    flag cookie.secure ++ ['\t'] ++ Decimal.ofInt cookie.expires ++ ['\t'] ++ cookie.name ++
    ['\t'] ++ cookie.value

/-- `fprintf` takes the line up to a zero byte. -/
def writeFile (cookies : List CookieInfo) : List Char :=
  (comment ++ cookies.map fun cookie => (cookieLine cookie).takeWhile (· ≠ 0)).flatMap (· ++ ['\n'])

/-! ## What is read of the file -/

theorem readTextFile_writeFile (cookies : List CookieInfo) :
    readTextFile (some (writeFile cookies)) = ['#', ' '] := by
  have hfront : "# Netscape HTTP Cookie File".toList =
      ['#', ' '] ++ "Netscape HTTP Cookie File".toList := by decide
  rw [writeFile, comment, List.cons_append, List.flatMap_cons, hfront]
  rfl

/-- Nothing but the beginning of the comment. -/
theorem readFile_writeFile (cookies : List CookieInfo) :
    readFile (some (writeFile cookies)) [] = [] := by
  have hread := (splitIfN_spec (by decide : 0 ∉ ['#', ' ']) [] (by decide : 1 ≤ 2) '\n'
    (fun first last t => (true, readLine ['#', ' ', 0] first last t)) []).1
  rw [readFile, readTextFile_writeFile]
  exact hread.trans rfl

/-- The file gives back the cookies only when there are none. -/
theorem readFile_writeFile_iff (cookies : List CookieInfo) :
    readFile (some (writeFile cookies)) [] = cookies ↔ cookies = [] := by
  rw [readFile_writeFile]
  exact eq_comm

/-- A single cookie is lost. -/
theorem not_readFile_writeFile : ¬ ∀ cookies : List CookieInfo,
    readFile (some (writeFile cookies)) [] = cookies := by
  intro hall
  have hsingle := hall [{ domain := "a.b".toList, path := ['/'], name := ['k'], value := ['v'] }]
  rw [readFile_writeFile] at hsingle
  exact absurd hsingle.symm (List.cons_ne_nil _ _)

/-! ## What the whole content would give -/

/-- A line of the content. -/
def addLine (cookies : List CookieInfo) (line : List Char) : List CookieInfo :=
  if line.head? = some '#' then cookies
  else
    let fields := (line.splitOn '\t').foldl addField (0, {})
    if 7 ≤ fields.1 then cookies ++ [fields.2] else cookies

/-- The fields of a line are those between the tabs in it. -/
theorem readLine_eq {content : List Char} (hzero : 0 ∉ content) {first last : ℕ}
    (hle : first ≤ last) (hlast : last ≤ content.length) (cookies : List CookieInfo) :
    readLine (content ++ [0]) first last cookies =
      addLine cookies (slice (content ++ [0]) first last) := by
  have hdrop : (content ++ [0]).drop first = content.drop first ++ [0] :=
    List.drop_append_of_le_length (hle.trans hlast)
  have hslice : slice (content ++ [0]) first last = (content.drop first).take (last - first) := by
    unfold slice
    rw [List.take_append_of_le_length hlast, List.drop_take]
  have hfields : (splitN ((content ++ [0]).drop first) (last - first) '\t'
      (fun ss ee t => addField t (slice ((content ++ [0]).drop first) ss ee)) (0, {})).kept =
      ((slice (content ++ [0]) first last).splitOn '\t').foldl addField (0, {}) := by
    rw [hslice, hdrop]
    exact splitN_kept (fun h => hzero (List.mem_of_mem_drop h)) []
      (by rw [List.length_drop]; omega) '\t' _ addField (0, {}) fun _ _ _ _ _ => rfl
  unfold readLine addLine
  dsimp only
  rw [hfields]
  by_cases hempty : first = last
  · -- an empty line has one field, whatever the character at its end is
    have hnil : slice (content ++ [0]) first last = [] := by
      rw [hslice, hempty, Nat.sub_self, List.take_zero]
    rw [hnil]
    exact ite_self cookies
  · have hhead : ((content ++ [0]).drop first).head? =
        (slice (content ++ [0]) first last).head? := by
      rw [hslice, hdrop, List.head?_take, if_neg (by omega), List.head?_append_of_ne_nil]
      exact List.ne_nil_of_length_pos (by rw [List.length_drop]; omega)
    rw [hhead]

/-- A cookie whose line can be read. -/
structure Storable (cookie : CookieInfo) : Prop where
  domain : cookie.domain.head? ≠ some '#'
  fields : ∀ text ∈ [cookie.domain, cookie.path, cookie.name, cookie.value],
    '\t' ∉ text ∧ '\n' ∉ text ∧ (0 : Char) ∉ text
  expires : -2 ^ 63 ≤ cookie.expires ∧ cookie.expires < 2 ^ 63

theorem strtoll_ofInt {n : ℤ} (h : -2 ^ 63 ≤ n ∧ n < 2 ^ 63) : strtoll (Decimal.ofInt n) = n := by
  have hdigit : ∀ c ∈ Nat.toDigits 10 n.natAbs, c.isDigit = true := fun c hc =>
    Nat.isDigit_of_mem_toDigits (by decide) (by decide) hc
  have hvalue : Nat.ofDigitChars 10 ((Nat.toDigits 10 n.natAbs).takeWhile Char.isDigit) 0 =
      n.natAbs := by
    rw [List.takeWhile_eq_self_iff.2 hdigit, Nat.ofDigitChars_ten_toDigits]
  unfold Decimal.ofInt
  split
  · have hdrop : ('-' :: Nat.toDigits 10 n.natAbs).dropWhile Scan.isspace =
        '-' :: Nat.toDigits 10 n.natAbs := List.dropWhile_cons_of_neg (by decide)
    simp only [strtoll, hdrop, hvalue]
    omega
  · obtain ⟨c, rest, hc⟩ := List.exists_cons_of_ne_nil (Nat.toDigits_ne_nil )
    rw [hc] at hdigit hvalue ⊢
    have hfirst : c.isDigit = true := hdigit c List.mem_cons_self
    have hspace : ¬ Scan.isspace c = true := by
      intro hspace
      simp only [Scan.isspace, List.mem_cons, List.not_mem_nil, or_false,
        decide_eq_true_eq] at hspace
      rcases hspace with rfl | rfl | rfl | rfl | rfl | rfl <;> exact absurd hfirst (by decide)
    unfold strtoll
    rw [List.dropWhile_cons_of_neg hspace]
    dsimp only
    split
    · next heq => exact absurd ((List.cons.inj heq).1 ▸ hfirst) (by decide)
    · next heq => exact absurd ((List.cons.inj heq).1 ▸ hfirst) (by decide)
    · rw [hvalue]
      omega

theorem cookieLine_eq (cookie : CookieInfo) :
    cookieLine cookie = ['\t'].intercalate [cookie.domain, flag cookie.tailmatch, cookie.path,
      flag cookie.secure, Decimal.ofInt cookie.expires, cookie.name, cookie.value] := by
  simp [cookieLine, List.intercalate]

theorem notMem_ofInt {c : Char} (hc : c ≠ '-' ∧ c.isDigit = false) (n : ℤ) :
    c ∉ Decimal.ofInt n := by
  intro h
  rcases Decimal.eq_or_isDigit_of_mem_ofInt h with h | h
  · exact hc.1 h
  · exact Bool.false_ne_true (hc.2.symm.trans h)

theorem notMem_flag {c : Char} (hc : c ∉ "TRUE".toList ++ "FALSE".toList) (b : Bool) :
    c ∉ flag b := by
  cases b with
  | false => exact fun h => hc (List.mem_append_right _ h)
  | true => exact fun h => hc (List.mem_append_left _ h)

/-- The fields of a line, none of which has a character that is in no text of the cookie. -/
theorem notMem_fields {cookie : CookieInfo} {c : Char}
    (hc : c ∉ "TRUE".toList ++ "FALSE".toList ∧ c ≠ '-' ∧ c.isDigit = false)
    (h : ∀ text ∈ [cookie.domain, cookie.path, cookie.name, cookie.value], c ∉ text) :
    ∀ field ∈ [cookie.domain, flag cookie.tailmatch, cookie.path, flag cookie.secure,
      Decimal.ofInt cookie.expires, cookie.name, cookie.value], c ∉ field := by
  simp only [List.forall_mem_cons] at h ⊢
  exact ⟨h.1, notMem_flag hc.1 _, h.2.1, notMem_flag hc.1 _, notMem_ofInt hc.2 _, h.2.2.1,
    h.2.2.2.1, h.2.2.2.2⟩

theorem addLine_cookieLine {cookie : CookieInfo} (h : Storable cookie) (cookies : List CookieInfo) :
    addLine cookies (cookieLine cookie) = cookies ++ [{ cookie with tailmatch := true }] := by
  have hsplit : (cookieLine cookie).splitOn '\t' = [cookie.domain, flag cookie.tailmatch,
      cookie.path, flag cookie.secure, Decimal.ofInt cookie.expires, cookie.name,
      cookie.value] := by
    rw [cookieLine_eq]
    exact List.splitOn_intercalate '\t'
      (notMem_fields (by decide) fun text ht => (h.fields text ht).1) (List.cons_ne_nil _ _)
  have hhead : (cookieLine cookie).head? ≠ some '#' := by
    cases hdomain : cookie.domain with
    | nil => simp [cookieLine, hdomain]
    | cons c domain => simpa [cookieLine, hdomain] using h.domain
  have hsecure : (flag cookie.secure == "TRUE".toList) = cookie.secure := by
    cases cookie.secure <;> decide
  rw [addLine, if_neg hhead, hsplit]
  simp only [List.foldl_cons, List.foldl_nil, addField, setField, strtoll_ofInt h.expires, hsecure]
  exact if_pos (Nat.le_refl 7)

theorem foldl_cookieLine {cookies : List CookieInfo} (h : ∀ cookie ∈ cookies, Storable cookie)
    (read : List CookieInfo) : (cookies.map cookieLine).foldl addLine read =
      read ++ cookies.map fun cookie => { cookie with tailmatch := true } := by
  induction cookies generalizing read with
  | nil => exact (List.append_nil read).symm
  | cons cookie cookies ih =>
    obtain ⟨hcookie, hcookies⟩ := List.forall_mem_cons.1 h
    rw [List.map_cons, List.foldl_cons, addLine_cookieLine hcookie, ih hcookies, List.map_cons,
      List.append_assoc]
    rfl

theorem flatMap_concat {lines : List (List Char)} (hne : lines ≠ []) :
    lines.flatMap (· ++ ['\n']) = ['\n'].intercalate lines ++ ['\n'] := by
  induction lines with
  | nil => exact absurd rfl hne
  | cons line lines ih =>
    cases lines with
    | nil => simp
    | cons line' lines =>
      rw [List.flatMap_cons, ih (List.cons_ne_nil _ _),
        List.intercalate_cons_of_ne_nil (List.cons_ne_nil _ _)]
      simp only [List.append_assoc]

theorem notMem_cookieLine {cookie : CookieInfo} {c : Char}
    (hc : c ∉ "TRUE".toList ++ "FALSE".toList ∧ c ≠ '-' ∧ c.isDigit = false) (htab : c ≠ '\t')
    (h : ∀ text ∈ [cookie.domain, cookie.path, cookie.name, cookie.value], c ∉ text) :
    c ∉ cookieLine cookie := by
  have hfields := notMem_fields hc h
  simp only [List.forall_mem_cons] at hfields
  obtain ⟨hdomain, htailmatch, hpath, hsecure, hexpires, hname, hvalue, -⟩ := hfields
  simp only [cookieLine, List.mem_append, List.mem_singleton, not_or]
  simp only [hdomain, htailmatch, hpath, hsecure, hexpires, hname, hvalue, htab, not_false_eq_true,
    and_self]

/-- The whole content would give back everything but `tailmatch`. -/
theorem readContent_writeFile {cookies : List CookieInfo}
    (h : ∀ cookie ∈ cookies, Storable cookie) :
    readContent (writeFile cookies) [] =
      cookies.map fun cookie => { cookie with tailmatch := true } := by
  have hnewline : ∀ cookie ∈ cookies, '\n' ∉ cookieLine cookie := fun cookie hc =>
    notMem_cookieLine (by decide) (by decide) fun text ht => ((h cookie hc).fields text ht).2.1
  have hzero : ∀ cookie ∈ cookies, 0 ∉ cookieLine cookie := fun cookie hc =>
    notMem_cookieLine (by decide) (by decide) fun text ht => ((h cookie hc).fields text ht).2.2
  have hlines : (cookies.map fun cookie => (cookieLine cookie).takeWhile (· ≠ 0)) =
      cookies.map cookieLine := by
    refine List.map_congr_left fun cookie hc => List.takeWhile_eq_self_iff.2 fun c hmem => ?_
    exact decide_eq_true fun hnull => hzero cookie hc (hnull ▸ hmem)
  have hcontent : writeFile cookies =
      ['\n'].intercalate (comment ++ cookies.map cookieLine) ++ ['\n'] := by
    rw [writeFile, hlines, flatMap_concat (by simp [comment])]
  have hsplit : (['\n'].intercalate (comment ++ cookies.map cookieLine)).splitOn '\n' =
      comment ++ cookies.map cookieLine := by
    refine List.splitOn_intercalate '\n' ?_ (by simp [comment])
    rw [List.forall_mem_append]
    exact ⟨by decide, List.forall_mem_map.2 hnewline⟩
  have hnull : 0 ∉ writeFile cookies := by
    rw [writeFile, hlines]
    intro hmem
    obtain ⟨line, hline, hchar⟩ := List.mem_flatMap.1 hmem
    rcases List.mem_append.1 hchar with hchar | hchar
    · rcases List.mem_append.1 hline with hline | hline
      · exact (by decide : ∀ line ∈ comment, 0 ∉ line) line hline hchar
      · obtain ⟨cookie, hc, rfl⟩ := List.mem_map.1 hline
        exact hzero cookie hc hchar
    · exact absurd (List.mem_singleton.1 hchar) (by decide)
  have hlong : 1 < (writeFile cookies).length := by
    have hfirst : "# Netscape HTTP Cookie File".toList.length = 27 := by decide
    rw [writeFile, comment, List.cons_append, List.flatMap_cons, List.length_append,
      List.length_append, hfirst]
    omega
  have hcomment : comment.foldl addLine [] = [] := by decide
  rw [readContent, if_pos hlong, splitN_kept hnull [] (Nat.sub_le _ _) '\n' _ addLine []
    fun first last t hle hlast => readLine_eq hnull hle (hlast.trans (Nat.sub_le _ _)) t]
  rw [hcontent, List.length_append, List.length_singleton, Nat.add_sub_cancel, List.take_left,
    hsplit, List.foldl_append, hcomment, foldl_cookieLine h, List.nil_append]

end HttpCookie

end Yasio
