import Yasio.Framing
import Yasio.HttpCookie
import Yasio.Lib.Decimal
import Yasio.Lib.HttpMessage

/-!
# The request

What `HttpClient` writes when a connection opens.
-/

namespace Yasio

open Http (IStartsWith)

inductive RequestType
  | get
  | post
  | put
  | delete
  | unknown
  deriving DecidableEq, Repr

structure HttpRequest where
  requestType : RequestType := .unknown
  headers : List (List Char) := []
  requestData : List Char := []

/-- Which headers the user has set. -/
structure HeaderFlags where
  userAgent : Bool := false
  contentType : Bool := false
  accept : Bool := false

namespace HeaderFlags

def next (flags : HeaderFlags) (header : List Char) : HeaderFlags :=
  if IStartsWith header "User-Agent:".toList then { flags with userAgent := true }
  else if IStartsWith header "Content-Type:".toList then { flags with contentType := true }
  else if IStartsWith header "Accept:".toList then { flags with accept := true }
  else flags

end HeaderFlags

namespace HttpRequest

open HttpCookie

/-- `obs.write_bytes(v)` makes the size an `int`. -/
def written (v : List Char) : List Char := v.take (toInt32 v.length).toNat

def usePostData : RequestType → Bool
  | .post | .put => true
  | .get | .delete | .unknown => false

def method : RequestType → List Char
  | .get => "GET".toList
  | .post => "POST".toList
  | .delete => "DELETE".toList
  | .put => "PUT".toList
  | .unknown => "GET".toList

/-- The bytes of the request at a time, with the jar if there is one. -/
def writeRequest (now : ℤ) (jar : Option (List CookieInfo)) (uri : Uri) (request : HttpRequest) :
    List Char :=
  let obs := written (method request.requestType) ++ written " ".toList
  let obs := obs ++ written uri.pathEtc ++ written " HTTP/1.1\r\n".toList
  let obs := obs ++ written "Host: ".toList ++ written uri.host ++ written "\r\n".toList
  let (obs, flags) := request.headers.foldl
    (fun (obs, flags) header =>
      (obs ++ written header ++ written "\r\n".toList, HeaderFlags.next flags header))
    (obs, {})
  let obs :=
    match jar with
    | none => obs
    | some cookies =>
      let text := (checkAndGetFormatedMatchCookies now uri cookies []).2
      if text = [] then obs else obs ++ written "Cookie: ".toList ++ written text
  let obs :=
    if flags.userAgent then obs else obs ++ written "User-Agent: yasio-http\r\n".toList
  let obs := if flags.accept then obs else obs ++ written "Accept: */*;q=0.8\r\n".toList
  if usePostData request.requestType then
    let obs :=
      if flags.contentType then obs
      else obs ++
        written "Content-Type: application/x-www-form-urlencoded;charset=UTF-8\r\n".toList
    let size := Decimal.ofInt (toInt32 request.requestData.length)
    obs ++ written ("Content-Length: ".toList ++ size ++ "\r\n\r\n".toList) ++
      written request.requestData
  else obs ++ written "\r\n".toList

/-! ## The message that is meant -/

/-- The cookies that a request to the URI is given. -/
def sentCookies (now : ℤ) (jar : Option (List CookieInfo)) (uri : Uri) : List CookieInfo :=
  (jar.getD []).filter (Sent now uri ·)

/-- A line unless the user has set one. -/
def unlessSet (headers : List (List Char)) (name line : List Char) : List (List Char) :=
  if ∃ header ∈ headers, IStartsWith header name then [] else [line]

def message (now : ℤ) (jar : Option (List CookieInfo)) (uri : Uri) (request : HttpRequest) :
    Http.Message where
  startLine := method request.requestType ++ " ".toList ++ uri.pathEtc ++ " HTTP/1.1".toList
  headers :=
    ["Host: ".toList ++ uri.host] ++ request.headers ++
    (if sentCookies now jar uri = [] then []
      else ["Cookie: ".toList ++ format (sentCookies now jar uri)]) ++
    unlessSet request.headers "User-Agent:".toList "User-Agent: yasio-http".toList ++
    unlessSet request.headers "Accept:".toList "Accept: */*;q=0.8".toList ++
    if usePostData request.requestType then
      unlessSet request.headers "Content-Type:".toList
          "Content-Type: application/x-www-form-urlencoded;charset=UTF-8".toList ++
        ["Content-Length: ".toList ++ Nat.toDigits 10 request.requestData.length]
    else []
  body := if usePostData request.requestType then request.requestData else []

/-! ## What is written of a text -/

theorem written_of_lt {v : List Char} (h : v.length < 2 ^ 31) : written v = v := by
  rw [written, toInt32_eq_self (by omega) (by omega), Int.toNat_natCast, List.take_length]

theorem length_written_le (v : List Char) : (written v).length ≤ v.length := by
  rw [written, List.length_take]
  exact Nat.min_le_right _ _

/-- Of a text that is too long, much is missing. -/
theorem length_written_of_le {v : List Char} (h : 2 ^ 31 ≤ v.length) :
    (written v).length + 2 ^ 31 ≤ v.length := by
  have hint : (toInt32 v.length).toNat + 2 ^ 31 ≤ v.length := by
    unfold toInt32
    rw [Int.bmod_eq_emod]
    split <;> omega
  exact (Nat.add_le_add_right (List.length_take_le _ _) _).trans hint

theorem lt_of_length_written {v : List Char} (h : (written v).length = v.length) :
    v.length < 2 ^ 31 := by
  by_contra hle
  have hmissing := length_written_of_le (Nat.not_lt.1 hle)
  omega

/-! ## The flags -/

theorem lower_head_of_iStartsWith {line v : List Char} (h : IStartsWith line v) (hv : v ≠ []) :
    line.head?.map Char.toLower = v.head?.map Char.toLower := by
  obtain ⟨hle, htake⟩ := h
  cases v with
  | nil => exact absurd rfl hv
  | cons c v =>
    cases line with
    | nil => cases hle
    | cons d line => exact congrArg some (List.cons.inj htake).1

theorem not_iStartsWith {line v w : List Char} (h : IStartsWith line v)
    (hvw : v ≠ [] ∧ w ≠ [] ∧ v.head?.map Char.toLower ≠ w.head?.map Char.toLower) :
    ¬ IStartsWith line w := fun h' =>
  hvw.2.2 ((lower_head_of_iStartsWith h hvw.1).symm.trans (lower_head_of_iStartsWith h' hvw.2.1))

theorem foldl_next (flag : HeaderFlags → Bool) (name : List Char)
    (hnext : ∀ flags header, flag (HeaderFlags.next flags header) = true ↔
      flag flags = true ∨ IStartsWith header name) (headers : List (List Char))
    (flags : HeaderFlags) :
    flag (headers.foldl HeaderFlags.next flags) = true ↔
      flag flags = true ∨ ∃ header ∈ headers, IStartsWith header name := by
  induction headers generalizing flags with
  | nil => simp
  | cons header headers ih =>
    rw [List.foldl_cons, ih, hnext, or_assoc]
    simp

theorem userAgent_next (flags : HeaderFlags) (header : List Char) :
    (flags.next header).userAgent = true ↔
      flags.userAgent = true ∨ IStartsWith header "User-Agent:".toList := by
  unfold HeaderFlags.next
  split
  · next h => exact iff_of_true rfl (.inr h)
  · next h =>
    rw [or_iff_left h]
    split
    · rfl
    · split <;> rfl

theorem contentType_next (flags : HeaderFlags) (header : List Char) :
    (flags.next header).contentType = true ↔
      flags.contentType = true ∨ IStartsWith header "Content-Type:".toList := by
  unfold HeaderFlags.next
  split
  · next h => exact (or_iff_left (not_iStartsWith h (by decide))).symm
  · split
    · next h => exact iff_of_true rfl (.inr h)
    · next h =>
      rw [or_iff_left h]
      split <;> rfl

theorem accept_next (flags : HeaderFlags) (header : List Char) :
    (flags.next header).accept = true ↔
      flags.accept = true ∨ IStartsWith header "Accept:".toList := by
  unfold HeaderFlags.next
  split
  · next h => exact (or_iff_left (not_iStartsWith h (by decide))).symm
  · split
    · next h => exact (or_iff_left (not_iStartsWith h (by decide))).symm
    · split
      · next h => exact iff_of_true rfl (.inr h)
      · next h => exact (or_iff_left h).symm

/-! ## The parts of a request -/

/-- A request of its parts: what is in front of the path, the path, the host, the headers of the
user, and what follows them. -/
def layout (start path host : List Char) (headers : List (List Char)) (rest : List Char) :
    List Char :=
  start ++ path ++ " HTTP/1.1\r\n".toList ++ "Host: ".toList ++ host ++ Http.crlf ++
    Http.Message.lines headers ++ rest

/-- The cookie line, with what ends it. -/
def cookieText (cookies : List CookieInfo) (text lineEnd : List Char) : List Char :=
  if cookies = [] then [] else "Cookie: ".toList ++ text ++ lineEnd

/-- The default lines of all requests. -/
def defaults (headers : List (List Char)) : List Char :=
  Http.Message.lines
    (unlessSet headers "User-Agent:".toList "User-Agent: yasio-http".toList ++
      unlessSet headers "Accept:".toList "Accept: */*;q=0.8".toList)

/-- What follows the default lines of all requests. -/
def ending (request : HttpRequest) (size data : List Char) : List Char :=
  if usePostData request.requestType then
    Http.Message.lines (unlessSet request.headers "Content-Type:".toList
      "Content-Type: application/x-www-form-urlencoded;charset=UTF-8".toList) ++
    "Content-Length: ".toList ++ size ++ Http.crlf ++ Http.crlf ++ data
  else Http.crlf

theorem render_message (now : ℤ) (jar : Option (List CookieInfo)) (uri : Uri)
    (request : HttpRequest) :
    (message now jar uri request).render =
      layout (method request.requestType ++ " ".toList) uri.pathEtc uri.host request.headers
        (cookieText (sentCookies now jar uri) (format (sentCookies now jar uri)) Http.crlf ++
          defaults request.headers ++
          ending request (Nat.toDigits 10 request.requestData.length) request.requestData) := by
  have hcookie : Http.Message.lines (if sentCookies now jar uri = [] then []
      else ["Cookie: ".toList ++ format (sentCookies now jar uri)]) =
      cookieText (sentCookies now jar uri) (format (sentCookies now jar uri)) Http.crlf := by
    unfold cookieText
    split
    · rfl
    · rw [Http.Message.lines_singleton]
  have hstart : " HTTP/1.1\r\n".toList = " HTTP/1.1".toList ++ Http.crlf := by decide
  unfold Http.Message.render message layout defaults ending
  simp only [Http.Message.lines_append, Http.Message.lines_singleton, hcookie, hstart]
  split
  · simp only [Http.Message.lines_append, Http.Message.lines_singleton, List.append_assoc]
  · simp only [Http.Message.lines, List.flatMap_nil, List.append_nil, List.append_assoc]

theorem format_eq_nil {cookies : List CookieInfo} : format cookies = [] ↔ cookies = [] := by
  cases cookies with
  | nil => simp [format]
  | cons cookie cookies =>
    rw [format_cons, joined]
    split
    · simp [piece_ne_nil]
    · simp [piece_ne_nil]

theorem written_headers (headers : List (List Char)) (obs : List Char) (flags : HeaderFlags) :
    headers.foldl (fun (obs, flags) header =>
        (obs ++ written header ++ written "\r\n".toList, HeaderFlags.next flags header))
      (obs, flags) =
      (obs ++ Http.Message.lines (headers.map written), headers.foldl HeaderFlags.next flags) := by
  induction headers generalizing obs flags with
  | nil => simp [Http.Message.lines]
  | cons header headers ih =>
    have hcrlf : written "\r\n".toList = Http.crlf := by decide
    rw [List.foldl_cons, ih, List.map_cons, List.foldl_cons, hcrlf]
    simp [Http.Message.lines]

theorem append_unlessSet {flag : Bool} {headers : List (List Char)} {name line text : List Char}
    (hflag : flag = true ↔ ∃ header ∈ headers, IStartsWith header name)
    (htext : text = line ++ Http.crlf ∧ text.length < 2 ^ 31) (obs : List Char) :
    (if flag = true then obs else obs ++ written text) =
      obs ++ Http.Message.lines (unlessSet headers name line) := by
  rw [written_of_lt htext.2, unlessSet]
  by_cases hset : ∃ header ∈ headers, IStartsWith header name
  · rw [if_pos (hflag.2 hset), if_pos hset]
    exact (List.append_nil obs).symm
  · rw [if_neg (mt hflag.1 hset), if_neg hset, Http.Message.lines_singleton, htext.1]

theorem append_cookies (now : ℤ) (jar : Option (List CookieInfo)) (uri : Uri) (obs : List Char) :
    (match jar with
      | none => obs
      | some cookies =>
        let text := (checkAndGetFormatedMatchCookies now uri cookies []).2
        if text = [] then obs else obs ++ written "Cookie: ".toList ++ written text) =
      obs ++ cookieText (sentCookies now jar uri)
        (written (format (sentCookies now jar uri))) [] := by
  cases jar with
  | none => exact (List.append_nil obs).symm
  | some cookies =>
    have hlabel : written "Cookie: ".toList = "Cookie: ".toList := by decide
    have htext : (checkAndGetFormatedMatchCookies now uri cookies []).2 =
        format (sentCookies now (some cookies) uri) := by
      rw [checkAndGet_spec]
      exact joined_nil _
    dsimp only
    rw [htext, hlabel, cookieText]
    by_cases hnone : sentCookies now (some cookies) uri = []
    · rw [if_pos (format_eq_nil.2 hnone), if_pos hnone, List.append_nil]
    · rw [if_neg (mt format_eq_nil.1 hnone), if_neg hnone, List.append_nil, List.append_assoc]

theorem length_size_le (n : ℕ) : (Decimal.ofInt (toInt32 n)).length ≤ 11 := by
  have hbounds := toInt32_bounds n
  exact Decimal.length_ofInt_le (by decide) (by omega)

theorem written_size (n : ℕ) :
    written ("Content-Length: ".toList ++ Decimal.ofInt (toInt32 n) ++ "\r\n\r\n".toList) =
      "Content-Length: ".toList ++ Decimal.ofInt (toInt32 n) ++ "\r\n\r\n".toList := by
  refine written_of_lt ?_
  have hlabel : "Content-Length: ".toList.length = 16 := by decide
  have hends : "\r\n\r\n".toList.length = 4 := by decide
  have hsize := length_size_le n
  rw [List.length_append, List.length_append]
  omega

theorem writeRequest_eq (now : ℤ) (jar : Option (List CookieInfo)) (uri : Uri)
    (request : HttpRequest) :
    writeRequest now jar uri request =
      layout (method request.requestType ++ " ".toList) (written uri.pathEtc) (written uri.host)
        (request.headers.map written)
        (cookieText (sentCookies now jar uri) (written (format (sentCookies now jar uri))) [] ++
          defaults request.headers ++
          ending request (Decimal.ofInt (toInt32 request.requestData.length))
            (written request.requestData)) := by
  have hflag : ∀ (flag : HeaderFlags → Bool) (name : List Char), flag {} = false →
      (∀ flags header, flag (HeaderFlags.next flags header) = true ↔
        flag flags = true ∨ IStartsWith header name) →
      (flag (request.headers.foldl HeaderFlags.next {}) = true ↔
        ∃ header ∈ request.headers, IStartsWith header name) := by
    intro flag name hfalse hnext
    rw [foldl_next flag name hnext, hfalse, or_iff_right Bool.false_ne_true]
  have huser := append_unlessSet
    (hflag (·.userAgent) "User-Agent:".toList rfl userAgent_next)
    (by decide : "User-Agent: yasio-http\r\n".toList =
        "User-Agent: yasio-http".toList ++ Http.crlf ∧
      "User-Agent: yasio-http\r\n".toList.length < 2 ^ 31)
  have haccept := append_unlessSet (hflag (·.accept) "Accept:".toList rfl accept_next)
    (by decide : "Accept: */*;q=0.8\r\n".toList = "Accept: */*;q=0.8".toList ++ Http.crlf ∧
      "Accept: */*;q=0.8\r\n".toList.length < 2 ^ 31)
  have htype := append_unlessSet
    (hflag (·.contentType) "Content-Type:".toList rfl contentType_next)
    (by decide : "Content-Type: application/x-www-form-urlencoded;charset=UTF-8\r\n".toList =
        "Content-Type: application/x-www-form-urlencoded;charset=UTF-8".toList ++ Http.crlf ∧
      "Content-Type: application/x-www-form-urlencoded;charset=UTF-8\r\n".toList.length < 2 ^ 31)
  have hmethod : written (method request.requestType) = method request.requestType := by
    cases request.requestType <;> decide
  have hliterals : written " ".toList = " ".toList ∧
      written " HTTP/1.1\r\n".toList = " HTTP/1.1\r\n".toList ∧
      written "Host: ".toList = "Host: ".toList ∧ written "\r\n".toList = Http.crlf ∧
      "\r\n\r\n".toList = Http.crlf ++ Http.crlf := by decide
  obtain ⟨hblank, hversion, hhost, hcrlf, hends⟩ := hliterals
  unfold writeRequest
  simp only [written_headers, append_cookies, huser, haccept, htype]
  unfold layout defaults ending
  rw [hmethod, hblank, hversion, hhost, hcrlf, written_size, hends]
  split
  · simp only [Http.Message.lines_append, List.append_assoc]
  · simp only [Http.Message.lines_append, List.append_assoc]

/-! ## When the message is the one that is meant -/

theorem length_layout (start path host : List Char) (headers : List (List Char))
    (rest : List Char) :
    (layout start path host headers rest).length =
      start.length + path.length + host.length + (Http.Message.lines headers).length +
        rest.length + 19 := by
  have hversion : " HTTP/1.1\r\n".toList.length = 11 := by decide
  have hhost : "Host: ".toList.length = 6 := by decide
  have hcrlf : Http.crlf.length = 2 := rfl
  simp only [layout, List.length_append, hversion, hhost, hcrlf]
  omega

theorem length_lines_written (headers : List (List Char)) :
    (Http.Message.lines (headers.map written)).length ≤ (Http.Message.lines headers).length ∧
      ((Http.Message.lines (headers.map written)).length = (Http.Message.lines headers).length →
        ∀ header ∈ headers, header.length < 2 ^ 31) := by
  induction headers with
  | nil => exact ⟨Nat.le_refl _, fun _ header h => absurd h List.not_mem_nil⟩
  | cons header headers ih =>
    have hcons : ∀ (line : List Char) lines,
        (Http.Message.lines (line :: lines)).length =
          line.length + 2 + (Http.Message.lines lines).length := by
      intro line lines
      simp only [Http.Message.lines, List.flatMap_cons, List.length_append]
      rfl
    have hle := length_written_le header
    rw [List.map_cons, hcons, hcons]
    refine ⟨by omega, fun heq => List.forall_mem_cons.2 ⟨?_, ih.2 (by omega)⟩⟩
    exact lt_of_length_written (by omega)

theorem length_cookieText (cookies : List CookieInfo) (text : List Char) :
    (cookieText cookies (written text) []).length ≤ (cookieText cookies text Http.crlf).length ∧
      ((cookieText cookies (written text) []).length = (cookieText cookies text Http.crlf).length →
        cookies = []) := by
  have hle := length_written_le text
  have hcrlf : Http.crlf.length = 2 := rfl
  unfold cookieText
  split
  · next hnil => exact ⟨Nat.le_refl _, fun _ => hnil⟩
  · simp only [List.length_append, List.length_nil, hcrlf]
    exact ⟨by omega, fun heq => by omega⟩

theorem size_of_lt {n : ℕ} (h : n < 2 ^ 31) : Decimal.ofInt (toInt32 n) = Nat.toDigits 10 n := by
  rw [toInt32_eq_self (by omega) (by omega), Decimal.ofInt_natCast]

theorem length_ending (request : HttpRequest) :
    let wrote := ending request (Decimal.ofInt (toInt32 request.requestData.length))
      (written request.requestData)
    let meant := ending request (Nat.toDigits 10 request.requestData.length) request.requestData
    wrote.length ≤ meant.length ∧ (wrote.length = meant.length →
      usePostData request.requestType = true → request.requestData.length < 2 ^ 31) := by
  dsimp only
  by_cases hshort : request.requestData.length < 2 ^ 31
  · rw [size_of_lt hshort, written_of_lt hshort]
    exact ⟨Nat.le_refl _, fun _ _ => hshort⟩
  · have hmissing := length_written_of_le (Nat.not_lt.1 hshort)
    have hsize := length_size_le request.requestData.length
    unfold ending
    split
    · simp only [List.length_append]
      exact ⟨by omega, fun heq => by omega⟩
    · next huse => exact ⟨Nat.le_refl _, fun _ h => absurd h huse⟩

/-- No cookie is for the request, nothing in it has a line break or is as long as `2^31`, no header
of the user is empty, and none tells another length of the body. -/
structure Plain (now : ℤ) (jar : Option (List CookieInfo)) (uri : Uri) (request : HttpRequest) :
    Prop where
  cookies : ∀ cookie ∈ jar.getD [], ¬ Sent now uri cookie
  path : Http.OneLine uri.pathEtc ∧ uri.pathEtc.length < 2 ^ 31
  host : Http.OneLine uri.host ∧ uri.host.length < 2 ^ 31
  headers : ∀ header ∈ request.headers, header ≠ [] ∧ header.length < 2 ^ 31 ∧
    Http.Frames (if usePostData request.requestType then request.requestData.length else 0) header
  data : usePostData request.requestType = true → request.requestData.length < 2 ^ 31

theorem Plain.sentCookies_eq_nil {now : ℤ} {jar : Option (List CookieInfo)} {uri : Uri}
    {request : HttpRequest} (h : Plain now jar uri request) : sentCookies now jar uri = [] :=
  List.filter_eq_nil_iff.2 fun cookie hc hsent => h.cookies cookie hc (of_decide_eq_true hsent)

/-- The host line and the headers of the user are headers of the message. -/
theorem mem_headers_message {now : ℤ} {jar : Option (List CookieInfo)} {uri : Uri}
    {request : HttpRequest} {line : List Char}
    (h : line ∈ ["Host: ".toList ++ uri.host] ++ request.headers) :
    line ∈ (message now jar uri request).headers :=
  List.mem_append_left _ <| List.mem_append_left _ <| List.mem_append_left _ <|
    List.mem_append_left _ h

theorem plain_of_render {now : ℤ} {jar : Option (List CookieInfo)} {uri : Uri}
    {request : HttpRequest} (hwf : (message now jar uri request).WellFormed)
    (heq : (message now jar uri request).render = writeRequest now jar uri request) :
    Plain now jar uri request := by
  obtain ⟨hlines, hshort⟩ := length_lines_written request.headers
  obtain ⟨hcookies, hnone⟩ := length_cookieText (sentCookies now jar uri)
    (format (sentCookies now jar uri))
  obtain ⟨hending, hdata⟩ := length_ending request
  have hpath := length_written_le uri.pathEtc
  have hhost := length_written_le uri.host
  -- what is written is no longer than what is meant, part by part
  have hlength := congrArg List.length heq
  rw [render_message, writeRequest_eq, length_layout, length_layout] at hlength
  simp only [List.length_append] at hlength
  have hstart : Http.OneLine (method request.requestType ++ " ".toList ++ uri.pathEtc ++
      " HTTP/1.1".toList) := hwf.startLine
  rw [Http.oneLine_append, Http.oneLine_append] at hstart
  have hhostLine : Http.OneLine ("Host: ".toList ++ uri.host) :=
    hwf.oneLine _ (mem_headers_message (List.mem_append_left _ List.mem_cons_self))
  have hheader : ∀ header ∈ request.headers, header ∈ (message now jar uri request).headers :=
    fun header h => mem_headers_message (List.mem_append_right _ h)
  refine ⟨fun cookie hc hsent => ?_,
    ⟨hstart.1.2, lt_of_length_written (by omega)⟩,
    ⟨(Http.oneLine_append.1 hhostLine).2, lt_of_length_written (by omega)⟩,
    fun header h => ⟨hwf.ne_nil header (hheader header h), hshort (by omega) header h, ?_⟩,
    hdata (by omega)⟩
  · exact List.filter_eq_nil_iff.1 (hnone (by omega)) cookie hc (decide_eq_true hsent)
  · have hframes : Http.Frames (if usePostData request.requestType then request.requestData
        else []).length header := hwf.frames header (hheader header h)
    rwa [apply_ite List.length] at hframes

theorem render_of_plain {now : ℤ} {jar : Option (List CookieInfo)} {uri : Uri}
    {request : HttpRequest} (h : Plain now jar uri request) :
    (message now jar uri request).render = writeRequest now jar uri request := by
  have hheaders : request.headers.map written = request.headers := by
    conv_rhs => rw [← List.map_id request.headers]
    exact List.map_congr_left fun header hh => written_of_lt (h.headers header hh).2.1
  have hending : ending request (Decimal.ofInt (toInt32 request.requestData.length))
      (written request.requestData) =
      ending request (Nat.toDigits 10 request.requestData.length) request.requestData := by
    unfold ending
    split
    · next huse => rw [size_of_lt (h.data huse), written_of_lt (h.data huse)]
    · rfl
  rw [render_message, writeRequest_eq, h.sentCookies_eq_nil, hheaders, hending,
    written_of_lt h.path.2, written_of_lt h.host.2]
  rfl

/-- A header line that fits a body of so many characters. -/
def Fits (n : ℕ) (line : List Char) : Prop :=
  Http.OneLine line ∧ line ≠ [] ∧ Http.Frames n line

instance (n : ℕ) (line : List Char) : Decidable (Fits n line) :=
  inferInstanceAs (Decidable (_ ∧ _))

theorem fits_of_other {n : ℕ} {line : List Char}
    (h : Http.OneLine line ∧ line ≠ [] ∧ ¬ IStartsWith line Http.contentLength) : Fits n line :=
  ⟨h.1, h.2.1, fun hstarts => absurd hstarts h.2.2⟩

theorem fits_unlessSet {n : ℕ} {headers : List (List Char)} {name line : List Char}
    (h : Fits n line) : ∀ l ∈ unlessSet headers name line, Fits n l := by
  unfold unlessSet
  split
  · exact fun l hl => absurd hl List.not_mem_nil
  · exact List.forall_mem_singleton.2 h

theorem isNumber_toDigits (n : ℕ) : Http.IsNumber n (Nat.toDigits 10 n) :=
  ⟨Nat.toDigits_ne_nil, fun _ => Nat.isDigit_of_mem_toDigits (by decide) (by decide),
    Nat.ofDigitChars_ten_toDigits⟩

theorem not_isBlank_of_isDigit {c : Char} (h : c.isDigit = true) : Http.isBlank c = false := by
  unfold Http.isBlank
  by_contra hblank
  simp only [Bool.not_eq_false, Bool.or_eq_true, decide_eq_true_eq] at hblank
  rcases hblank with rfl | rfl <;> exact absurd h (by decide)

theorem trim_toDigits (n : ℕ) :
    ((' ' :: Nat.toDigits 10 n).dropWhile Http.isBlank).rdropWhile Http.isBlank =
      Nat.toDigits 10 n := by
  have hdigit : ∀ c ∈ Nat.toDigits 10 n, Http.isBlank c = false := fun c hc =>
    not_isBlank_of_isDigit ((isNumber_toDigits n).2.1 c hc)
  have hfront : (' ' :: Nat.toDigits 10 n).dropWhile Http.isBlank = Nat.toDigits 10 n := by
    rw [List.dropWhile_cons_of_pos rfl]
    cases hn : Nat.toDigits 10 n with
    | nil => rfl
    | cons c digits =>
      refine List.dropWhile_cons_of_neg ?_
      rw [hdigit c (hn ▸ List.mem_cons_self)]
      exact Bool.false_ne_true
  rw [hfront, List.rdropWhile_eq_self_iff]
  intro hne
  rw [hdigit _ (List.getLast_mem hne)]
  exact Bool.false_ne_true

theorem fits_contentLength (n : ℕ) : Fits n ("Content-Length: ".toList ++ Nat.toDigits 10 n) := by
  have hdigit : ∀ c ∈ Nat.toDigits 10 n, c.isDigit = true := (isNumber_toDigits n).2.1
  refine ⟨Http.oneLine_append.2 ⟨by decide, fun h => ?_, fun h => ?_⟩, fun h => ?_, fun _ => ?_⟩
  · exact absurd (hdigit _ h) (by decide)
  · exact absurd (hdigit _ h) (by decide)
  · exact absurd (List.append_eq_nil_iff.1 h).1 (by decide)
  · have hrest : ("Content-Length: ".toList ++ Nat.toDigits 10 n).drop Http.contentLength.length =
        ' ' :: Nat.toDigits 10 n := rfl
    rw [hrest, trim_toDigits]
    exact isNumber_toDigits n

theorem fits_headers {now : ℤ} {jar : Option (List CookieInfo)} {uri : Uri}
    {request : HttpRequest} (hheaders : ∀ header ∈ request.headers, Http.OneLine header)
    (h : Plain now jar uri request) : ∀ line ∈ (message now jar uri request).headers,
      Fits (if usePostData request.requestType then request.requestData.length else 0) line := by
  have hhost : Http.OneLine ("Host: ".toList ++ uri.host) :=
    Http.oneLine_append.2 ⟨by decide, h.host.1⟩
  have hlabel : IStartsWith ("Host: ".toList ++ uri.host) "Host: ".toList := by
    refine ⟨?_, by rw [List.take_left]⟩
    rw [List.length_append]
    exact Nat.le_add_right _ _
  unfold message
  rw [if_pos h.sentCookies_eq_nil]
  simp only [List.forall_mem_append]
  refine ⟨⟨⟨⟨⟨?_, fun header hh => ?_⟩, ?_⟩, ?_⟩, ?_⟩, ?_⟩
  · refine List.forall_mem_singleton.2 (fits_of_other ⟨hhost, ?_, fun hstarts => ?_⟩)
    · exact fun hnil => absurd (List.append_eq_nil_iff.1 hnil).1 (by decide)
    · exact not_iStartsWith hstarts (by decide) hlabel
  · exact ⟨hheaders header hh, (h.headers header hh).1, (h.headers header hh).2.2⟩
  · exact fun line hl => absurd hl List.not_mem_nil
  · exact fits_unlessSet (fits_of_other (by decide))
  · exact fits_unlessSet (fits_of_other (by decide))
  · split
    · exact List.forall_mem_append.2 ⟨fits_unlessSet (fits_of_other (by decide)),
        List.forall_mem_singleton.2 (fits_contentLength _)⟩
    · exact fun line hl => absurd hl List.not_mem_nil

theorem wellFormed_of_plain {now : ℤ} {jar : Option (List CookieInfo)} {uri : Uri}
    {request : HttpRequest} (hheaders : ∀ header ∈ request.headers, Http.OneLine header)
    (h : Plain now jar uri request) : (message now jar uri request).WellFormed := by
  have hmethod : Http.OneLine (method request.requestType) := by
    cases request.requestType <;> decide
  have hfits := fits_headers hheaders h
  refine ⟨?_, fun line hl => (hfits line hl).1, fun line hl => (hfits line hl).2.1,
    fun line hl => ?_⟩
  · exact Http.oneLine_append.2 ⟨Http.oneLine_append.2
      ⟨Http.oneLine_append.2 ⟨hmethod, by decide⟩, h.path.1⟩, by decide⟩
  · change Http.Frames (if usePostData request.requestType then request.requestData
        else []).length line
    rw [apply_ite List.length]
    exact (hfits line hl).2.2

end HttpRequest

end Yasio
