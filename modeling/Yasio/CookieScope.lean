import Yasio.HttpCookie

/-!
# The scope of cookies

Each cookie of the jar is kept together with what the header said that it was last stored from.
The domain and the path of a cookie are meant to end at the boundaries of labels and segments.
-/

namespace Yasio

/-- A cookie, the host whose header it was last stored from, and whether that header marks it as
secure and when it lets it expire. -/
structure JarEntry where
  info : CookieInfo
  setBy : List Char
  secure : Bool
  deadline : ℤ
  deriving DecidableEq, Repr

/-- A request, the jar before it, the entries that were put into it and the text of them. -/
structure CookieRequest where
  now : ℤ
  uri : Uri
  jar : List JarEntry
  sent : List JarEntry
  text : List Char

structure CookieWorld where
  jar : List JarEntry := []
  requests : List CookieRequest := []

inductive CookieOp
  /-- A response to a request for the URI has the header. -/
  | receive (header : List Char) (uri : Uri)
  | request (now : ℤ) (uri : Uri)

namespace JarEntry

variable {τ : Type} (cal : Calendar τ)

/-- An `expires` attribute is in GMT.  Neither `max-age`, which the reader of the header skips, nor
a date in a format that it does not parse sets a deadline. -/
def ofHeader (header : List Char) (uri : Uri) : JarEntry :=
  let (info, dt) := HttpCookie.readHeader cal header uri
  { info, setBy := uri.host, secure := info.secure, deadline := dt.elim timeMax cal.timegm }

def updateOrAdd (entry : JarEntry) : List JarEntry → List JarEntry
  | [] => [entry]
  | e :: jar =>
    if entry.info.isSame e.info then { entry with info := e.info.updateValue entry.info } :: jar
    else e :: updateOrAdd entry jar

end JarEntry

namespace CookieWorld

open HttpCookie

variable {τ : Type} (cal : Calendar τ)

def step : CookieOp → CookieWorld → Option CookieWorld
  | .receive header uri, w =>
    some { w with jar := (JarEntry.ofHeader cal header uri).updateOrAdd w.jar }
  | .request now uri, w =>
    some {
      jar := w.jar.filter (Remains now uri ·.info)
      requests := w.requests ++
        [{ now, uri, jar := w.jar, sent := w.jar.filter (Sent now uri ·.info),
           text := (checkAndGetFormatedMatchCookies now uri (w.jar.map (·.info)) []).2 }] }

/-- The cookies of the jar. -/
def cookies (w : CookieWorld) : List CookieInfo := w.jar.map (·.info)

theorem map_info_updateOrAdd (entry : JarEntry) (jar : List JarEntry) :
    (entry.updateOrAdd jar).map (·.info) = updateOrAdd entry.info (jar.map (·.info)) := by
  induction jar with
  | nil => rfl
  | cons e jar ih =>
    rw [JarEntry.updateOrAdd, List.map_cons, updateOrAdd]
    split
    · rfl
    · rw [List.map_cons, ih]

/-- What the code does to its cookies. -/
def cookiesStep : CookieOp → List CookieInfo → List CookieInfo
  | .receive header uri, cookies => updateOrAddCookie cal header uri cookies
  | .request now uri, cookies => (checkAndGetFormatedMatchCookies now uri cookies []).1

/-- The cookies of the jar are those of the code. -/
theorem cookies_step {op : CookieOp} {w w' : CookieWorld} (h : step cal op w = some w') :
    w'.cookies = cookiesStep cal op w.cookies := by
  cases op with
  | receive header uri =>
    obtain rfl := Option.some.inj h
    exact map_info_updateOrAdd _ _
  | request now uri =>
    obtain rfl := Option.some.inj h
    simp only [cookies, cookiesStep, checkAndGet_spec, List.filter_map]
    rfl

/-- The text of a request is that of the entries that were put into it. -/
theorem text_request (now : ℤ) (uri : Uri) (jar : List JarEntry) :
    (checkAndGetFormatedMatchCookies now uri (jar.map (·.info)) []).2 =
      format ((jar.filter (Sent now uri ·.info)).map (·.info)) := by
  simp only [checkAndGet_spec, joined_nil, List.filter_map]
  rfl

/-! ## The scope -/

/-- A domain is a host or a parent of it at a dot.  One in front of it is not a part of it. -/
def Covers (domain host : List Char) : Prop :=
  let d := if domain.head? = some '.' then domain.tail else domain
  host = d ∨ '.' :: d <:+ host

instance (domain host : List Char) : Decidable (Covers domain host) :=
  inferInstanceAs (Decidable (_ ∨ _))

/-- A path is another one or a prefix of it at a slash. -/
def PathCovers (path requestPath : List Char) : Prop :=
  path <+: requestPath ∧
    (requestPath = path ∨ path.getLast? = some '/' ∨
      (requestPath.drop path.length).head? = some '/')

instance (path requestPath : List Char) : Decidable (PathCovers path requestPath) :=
  inferInstanceAs (Decidable (_ ∧ _))

/-- The entry is for a request. -/
def InScope (now : ℤ) (uri : Uri) (e : JarEntry) : Prop :=
  now < e.deadline ∧ Covers e.info.domain uri.host ∧ Covers e.info.domain e.setBy ∧
    PathCovers e.info.path uri.path ∧ (e.secure → uri.isSecure)

instance (now : ℤ) (uri : Uri) (e : JarEntry) : Decidable (InScope now uri e) :=
  inferInstanceAs (Decidable (_ ∧ _))

/-- Each request was given the entries that are for it, and their text. -/
def Scoped (w : CookieWorld) : Prop :=
  ∀ r ∈ w.requests, r.sent = r.jar.filter (InScope r.now r.uri ·) ∧
    r.text = format (r.sent.map (·.info))

/-- The domain of the header covers its host, and its `expires` is the same in local time and lies
behind the beginning of time. -/
def Stores : CookieOp → Prop
  | .receive header uri =>
    let (info, dt) := readHeader cal header uri
    Covers info.domain uri.host ∧ ∀ t ∈ dt, 0 < cal.mktime t ∧ cal.mktime t = cal.timegm t
  | .request _ _ => True

/-- No cookie matches the request though it is not for it, and none is for it though its domain
begins with a dot. -/
def Requests (w : CookieWorld) : CookieOp → Prop
  | .receive _ _ => True
  | .request now uri => ∀ e ∈ w.jar, now < e.deadline →
      (Matches uri e.info →
        Covers e.info.domain uri.host ∧ PathCovers e.info.path uri.path ∧
          (e.secure → uri.isSecure)) ∧
      (e.info.domain = '.' :: uri.host → PathCovers e.info.path uri.path →
        e.secure ∧ ¬ uri.isSecure)

/-- The entry was stored from a header that meets the condition. -/
structure Stored (e : JarEntry) : Prop where
  covers : Covers e.info.domain e.setBy
  expires : e.info.expires = e.deadline

variable {cal}

theorem expires_headerAttribute (key value : List Char) (s : SetCookie τ)
    (h : s.info.expires = s.dt.elim 0 cal.mktime) :
    (headerAttribute cal key value s).info.expires =
      (headerAttribute cal key value s).dt.elim 0 cal.mktime := by
  unfold headerAttribute
  repeat' split
  all_goals first | exact h | rfl

/-- While a header is read, `expires` is what has been read of it. -/
theorem expires_headerPiece (mem : List Char) (first last : ℕ) (s : SetCookie τ)
    (h : s.info.expires = s.dt.elim 0 cal.mktime) :
    (headerPiece cal mem first last s).info.expires =
      (headerPiece cal mem first last s).dt.elim 0 cal.mktime := by
  unfold headerPiece
  dsimp only
  split
  · exact expires_headerAttribute _ _ _ h
  · exact h

theorem expires_readHeader {header : List Char} {uri : Uri}
    (hpos : ∀ t ∈ (readHeader cal header uri).2, 0 < cal.mktime t) :
    (readHeader cal header uri).1.expires =
      (readHeader cal header uri).2.elim timeMax cal.mktime := by
  have hread : ∀ s : SetCookie τ,
      s = (SplitPass.splitN (header ++ [0]) header.length ';'
        (headerPiece cal (header ++ [0])) {}).kept →
      s.info.expires = s.dt.elim 0 cal.mktime := fun s hs => hs ▸
    SplitPass.splitN_induction (fun s : SetCookie τ => s.info.expires = s.dt.elim 0 cal.mktime)
      (expires_headerPiece (header ++ [0])) rfl
  unfold readHeader at hpos ⊢
  dsimp only at hpos ⊢
  rw [expires_withDefaults, hread _ rfl]
  generalize (SplitPass.splitN (header ++ [0]) header.length ';'
    (headerPiece cal (header ++ [0])) {}).kept.dt = dt at hpos ⊢
  cases dt with
  | none => exact if_pos (Int.le_refl 0)
  | some t => exact if_neg (Int.not_le.2 (hpos t rfl))

theorem stored_ofHeader {header : List Char} {uri : Uri} (h : Stores cal (.receive header uri)) :
    Stored (JarEntry.ofHeader cal header uri) := by
  refine ⟨h.1, (expires_readHeader fun t ht => (h.2 t ht).1).trans ?_⟩
  have hgmt : ∀ t ∈ (readHeader cal header uri).2, cal.mktime t = cal.timegm t :=
    fun t ht => (h.2 t ht).2
  change _ = (readHeader cal header uri).2.elim timeMax cal.timegm
  cases hdt : (readHeader cal header uri).2 with
  | none => rfl
  | some t => exact hgmt t hdt

theorem stored_updateOrAdd {e : JarEntry} (he : Stored e) {jar : List JarEntry}
    (h : ∀ x ∈ jar, Stored x) : ∀ x ∈ e.updateOrAdd jar, Stored x := by
  induction jar with
  | nil => exact List.forall_mem_singleton.2 he
  | cons x jar ih =>
    obtain ⟨hx, hjar⟩ := List.forall_mem_cons.1 h
    rw [JarEntry.updateOrAdd]
    split
    · next hsame =>
      have hdomain : e.info.domain = x.info.domain := by
        simpa using (Bool.and_eq_true_iff.1 hsame).2
      refine List.forall_mem_cons.2 ⟨⟨?_, he.expires⟩, hjar⟩
      exact hdomain ▸ he.covers
    · exact List.forall_mem_cons.2 ⟨hx, ih hjar⟩

theorem stored_step {op : CookieOp} {w w' : CookieWorld} (h : ∀ e ∈ w.jar, Stored e)
    (hop : Stores cal op) (hstep : step cal op w = some w') : ∀ e ∈ w'.jar, Stored e := by
  cases op with
  | receive header uri =>
    obtain rfl := Option.some.inj hstep
    exact stored_updateOrAdd (stored_ofHeader hop) h
  | request now uri =>
    obtain rfl := Option.some.inj hstep
    exact fun e he => h e (List.mem_of_mem_filter he)

/-- Unless it is the host with a dot in front, a domain that covers a host is a suffix of it. -/
theorem suffix_of_covers {domain host : List Char} (h : Covers domain host)
    (hdot : domain ≠ '.' :: host) : domain <:+ host := by
  cases domain with
  | nil => exact List.nil_suffix
  | cons c d =>
    unfold Covers at h
    by_cases hc : c = '.'
    · obtain rfl := hc
      rcases h with rfl | h
      · exact absurd rfl hdot
      · exact h
    · rw [List.head?_cons, if_neg (mt Option.some.inj hc)] at h
      rcases h with rfl | h
      · exact List.suffix_refl _
      · exact (List.suffix_cons '.' _).trans h

/-- Where an entry is what its header said, a request is given it exactly when it is for the
request, except under the two conditions. -/
theorem sent_iff_inScope {now : ℤ} {uri : Uri} {e : JarEntry} (h : Stored e) :
    (Sent now uri e.info ↔ InScope now uri e) ↔
      (now < e.deadline →
        (Matches uri e.info →
          Covers e.info.domain uri.host ∧ PathCovers e.info.path uri.path ∧
            (e.secure → uri.isSecure)) ∧
        (e.info.domain = '.' :: uri.host → PathCovers e.info.path uri.path →
          e.secure ∧ ¬ uri.isSecure)) := by
  rw [Sent, h.expires, InScope]
  by_cases hnow : now < e.deadline
  · simp only [hnow, h.covers, and_true, true_and, true_imp_iff]
    constructor
    · intro hiff
      refine ⟨hiff.1, fun hdot hpath => ?_⟩
      have hcovers : Covers e.info.domain uri.host := by
        rw [hdot]
        exact .inl rfl
      have hmatch : ¬ Matches uri e.info := by
        intro hmatch
        have hle := hmatch.1.length_le
        rw [hdot, List.length_cons] at hle
        omega
      exact Classical.not_imp.1 fun hsecure => hmatch (hiff.2 ⟨hcovers, hpath, hsecure⟩)
    · rintro ⟨hmatches, hdot⟩
      refine ⟨hmatches, fun ⟨hcovers, hpath, hsecure⟩ => ⟨?_, hpath.1⟩⟩
      refine suffix_of_covers hcovers fun hhost => ?_
      have hinsecure := hdot hhost hpath
      exact hinsecure.2 (hsecure hinsecure.1)
  · simp only [hnow, and_false, false_and, false_imp_iff]

theorem scoped_step {op : CookieOp} {w w' : CookieWorld} (h : ∀ e ∈ w.jar, Stored e)
    (hstep : step cal op w = some w') : w'.Scoped ↔ w.Scoped ∧ w.Requests op := by
  cases op with
  | receive header uri =>
    obtain rfl := Option.some.inj hstep
    exact (and_iff_left trivial).symm
  | request now uri =>
    obtain rfl := Option.some.inj hstep
    have hfilter : w.jar.filter (Sent now uri ·.info) = w.jar.filter (InScope now uri ·) ↔
        w.Requests (.request now uri) := by
      refine Iff.trans ⟨fun heq e he => ?_, fun hall => ?_⟩
        (forall₂_congr fun e he => sent_iff_inScope (h e he))
      · have hmem := congrArg (e ∈ ·) heq
        simpa [List.mem_filter, he] using hmem
      · exact List.filter_congr fun e he => by simp [hall e he]
    unfold Scoped
    simp only [List.forall_mem_append, List.forall_mem_singleton, text_request, and_true, hfilter]

/-- In every run whose headers meet the condition, the requests are given the cookies that are for
them exactly when they meet theirs. -/
theorem scoped_iff_of_run {ops : List CookieOp} {w : CookieWorld}
    (hstores : Machine.Meets (step cal) (fun _ op => Stores cal op) ops {})
    (hrun : Machine.run (step cal) ops {} = some w) :
    w.Scoped ↔ Machine.Meets (step cal) Requests ops {} := by
  rw [Machine.iff_meets_of_meets (I := fun w : CookieWorld => ∀ e ∈ w.jar, Stored e)
    (fun _ _ _ h hop hstep => stored_step h hop hstep) (fun _ _ _ h _ hstep => scoped_step h hstep)
    (fun e he => absurd he List.not_mem_nil) hstores hrun]
  exact and_iff_right fun r hr => absurd hr List.not_mem_nil

instance (w : CookieWorld) : Decidable w.Scoped :=
  inferInstanceAs (Decidable (∀ r ∈ w.requests, _ ∧ _))

instance decidableStores (cal : Calendar τ) : ∀ op, Decidable (Stores cal op)
  | .receive header uri =>
    inferInstanceAs (Decidable (Covers (readHeader cal header uri).1.domain uri.host ∧
      ∀ t ∈ (readHeader cal header uri).2, 0 < cal.mktime t ∧ cal.mktime t = cal.timegm t))
  | .request _ _ => .isTrue trivial

instance decidableRequests (w : CookieWorld) : ∀ op, Decidable (w.Requests op)
  | .receive _ _ => .isTrue trivial
  | .request _ _ => inferInstanceAs (Decidable (∀ e ∈ w.jar, _ → (_ → _) ∧ (_ → _ → _)))

/-- A calendar of one day, where the local time is GMT. -/
def newYear : Calendar ℤ where
  getTime format text :=
    if format = "%d %b %Y %H:%M:%S".toList ∧ text = "01 Jan 2030 00:00:00".toList then
      some 1893456000
    else none
  mktime := id
  timegm := id

/-- A secure cookie for a parent of the host, and a request to one of its siblings. -/
def siblings : List CookieOp :=
  [.receive
      ("id=7; Domain=example.com; Path=/shop; Secure; Expires=Tue, 01 Jan 2030 00:00:00 GMT").toList
      { host := "www.example.com".toList },
    .request 1700000000
      { host := "shop.example.com".toList, path := "/shop/cart".toList, isSecure := true }]

theorem scoped_siblings : ∃ w, Machine.run (step newYear) siblings {} = some w ∧
    (w.Scoped ↔ Machine.Meets (step newYear) Requests siblings {}) ∧
    w.requests.map (·.text) = ["id=7".toList] := by
  obtain ⟨w, hrun, htext⟩ := Machine.exists_of_any (step newYear) siblings {}
    (fun w => w.requests.map (·.text) = ["id=7".toList]) (by decide +kernel)
  exact ⟨w, hrun, scoped_iff_of_run (by decide +kernel) hrun, htext⟩

/-- A host is given the cookie of another one whose name is the end of its own. -/
theorem not_scoped_suffix : ¬ ∀ (ops : List CookieOp) (w : CookieWorld),
    Machine.run (step newYear) ops {} = some w → w.Scoped := by
  intro hall
  obtain ⟨w, hrun, hnot⟩ := Machine.exists_of_any (step newYear)
    [.receive "id=7".toList { host := "ample.com".toList },
      .request 1700000000 { host := "example.com".toList }] {}
    (fun w => ¬ w.Scoped) (by decide +kernel)
  exact hnot (hall _ w hrun)

end CookieWorld

end Yasio
