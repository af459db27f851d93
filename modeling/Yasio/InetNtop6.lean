import Yasio.InetPton6

/-!
# IPv6 addresses to their text

`inet_ntop6`: the search for the zeros that `::` stands for, and the loop that prints.
-/

namespace Yasio

/-- The words of an address, in the order of the bytes. -/
def wordsOf : List UInt8 → List ℕ
  | hi :: lo :: rest => (hi.toNat <<< 8 ||| lo.toNat) :: wordsOf rest
  | _ => []

/-! ## The search -/

/-- `struct { int base, len; }` -/
structure ZeroRun where
  base : ℤ := -1
  len : ℤ := 0
  deriving DecidableEq

/-- The locals of the search. -/
structure RunSearch where
  best : ZeroRun := {}
  cur : ZeroRun := {}

namespace RunSearch

/-- `if (best.base == -1 || cur.len > best.len) best = cur;` -/
def keep (s : RunSearch) : ZeroRun :=
  if s.best.base = -1 ∨ s.best.len < s.cur.len then s.cur else s.best

/-- The body of the loop, for the word at index `i`. -/
def step (s : RunSearch) (i word : ℕ) : RunSearch :=
  if word = 0 then
    if s.cur.base = -1 then { s with cur := ⟨i, 1⟩ }
    else { s with cur := { s.cur with len := s.cur.len + 1 } }
  else if s.cur.base ≠ -1 then { best := s.keep, cur := { s.cur with base := -1 } }
  else s

def run (words : List ℕ) : RunSearch :=
  words.zipIdx.foldl (fun s word => s.step word.2 word.1) {}

end RunSearch

/-- `best` when the text is formatted. -/
def bestRun (words : List ℕ) : ZeroRun :=
  let s := RunSearch.run words
  let best := if s.cur.base ≠ -1 then s.keep else s.best
  if best.base ≠ -1 ∧ best.len < 2 then { best with base := -1 } else best

/-! ## The text -/

/-- `src + 12` -/
def Octets.last4 (src : Octets 16) : Octets 4 where
  bytes := src.bytes.drop 12
  length_bytes := by rw [List.length_drop, src.length_bytes]

/-- `sprintf` with `%x` -/
def hexText (word : ℕ) : List Char := Nat.toDigits 16 word

section

variable (src : Octets 16) (best : ZeroRun)

/-- `best.base == 0 && (best.len == 6 || (best.len == 5 && words[5] == 0xffff))` -/
def encapsulates : Prop :=
  best.base = 0 ∧ (best.len = 6 ∨ best.len = 5 ∧ (wordsOf src.bytes).getD 5 0 = 0xffff)

instance : Decidable (encapsulates src best) := inferInstanceAs (Decidable (_ ∧ _))

/-- The loop that formats, from the word at index `i` on; `tp` is what has been printed. -/
def formatWords (tp : List Char) : ℕ → List ℕ → Except InetErrno (List Char)
  | _, [] => .ok tp
  | i, word :: words =>
    if best.base ≠ -1 ∧ best.base ≤ i ∧ i < best.base + best.len then
      formatWords (if best.base = i then tp ++ [':'] else tp) (i + 1) words
    else if i = 6 ∧ encapsulates src best then do
      let text ← inetNtop4 src.last4 (46 - (tp ++ [':']).length)
      return tp ++ [':'] ++ text
    else formatWords ((if i ≠ 0 then tp ++ [':'] else tp) ++ hexText word) (i + 1) words

end

/-- `inet_ntop6` -/
def inetNtop6 (src : Octets 16) (size : ℕ) : Except InetErrno (List Char) := do
  let best := bestRun (wordsOf src.bytes)
  let tp ← formatWords src best [] 0 (wordsOf src.bytes)
  let tmp := if best.base ≠ -1 ∧ best.base + best.len = 8 then tp ++ [':'] else tp
  if size < tmp.length + 1 then .error .ENOSPC else .ok tmp

/-! ## The longest run of zeros -/

/-- The words from index `b` on are `n` zeros. -/
def ZerosAt (words : List ℕ) (b n : ℕ) : Prop := 0 < n ∧ ∀ j < n, words[b + j]? = some 0

/-- The longest run, the first of several. -/
structure Longest (words : List ℕ) (b n : ℕ) : Prop where
  zeros : ZerosAt words b n
  le : ∀ i k, ZerosAt words i k → k ≤ n
  first : ∀ i, ZerosAt words i n → b ≤ i

section

variable {words : List ℕ} {b n i k word : ℕ}

theorem ZerosAt.lt_length (h : ZerosAt words b n) : b + n ≤ words.length := by
  have hlast := h.2 (n - 1) (Nat.sub_lt h.1 (by decide))
  have hlt := (List.getElem?_eq_some_iff.1 hlast).1
  have hpos := h.1
  omega

theorem ZerosAt.append (h : ZerosAt words b n) (rest : List ℕ) : ZerosAt (words ++ rest) b n := by
  refine ⟨h.1, fun j hj => ?_⟩
  have hlt := h.lt_length
  rw [List.getElem?_append_left (by omega)]
  exact h.2 j hj

theorem ZerosAt.of_append (h : ZerosAt (words ++ [word]) b n) (hle : b + n ≤ words.length) :
    ZerosAt words b n := by
  refine ⟨h.1, fun j hj => ?_⟩
  have hsame : (words ++ [word])[b + j]? = words[b + j]? :=
    List.getElem?_append_left (by omega)
  rw [← hsame]
  exact h.2 j hj

/-- A run that reaches the last word. -/
theorem ZerosAt.last (h : ZerosAt (words ++ [word]) b n) (hle : words.length < b + n) :
    word = 0 ∧ b + n = words.length + 1 ∧ (b < words.length → ZerosAt words b (n - 1)) := by
  have hlen := h.lt_length
  rw [List.length_append, List.length_singleton] at hlen
  have hpos := h.1
  have hlast := h.2 (n - 1) (by omega)
  rw [show b + (n - 1) = words.length by omega, List.getElem?_append_right le_rfl, Nat.sub_self]
    at hlast
  refine ⟨Option.some.inj hlast, by omega, fun hlt => ?_⟩
  have hshort : ZerosAt (words ++ [word]) b (n - 1) :=
    ⟨by omega, fun j hj => h.2 j (by omega)⟩
  exact hshort.of_append (by omega)

/-- What the locals of the search say about the words that were seen. -/
structure RunSearch.Seen (s : RunSearch) (words : List ℕ) : Prop where
  cur : s.cur.base = -1 ∨ ∃ b n : ℕ, s.cur = ⟨b, n⟩ ∧ ZerosAt words b n ∧ b + n = words.length
  /-- No run goes back behind the one that is under way. -/
  cur_first : ∀ i k, ZerosAt words i k → i + k = words.length →
    s.cur.base ≠ -1 ∧ s.cur.base ≤ i
  best : s.best.base = -1 ∨ ∃ b n : ℕ, s.best = ⟨b, n⟩ ∧ ZerosAt words b n ∧
    (s.cur.base = -1 ∨ (b : ℤ) < s.cur.base)
  /-- The best of the runs that are over. -/
  best_max : ∀ i k, ZerosAt words i k → s.cur.base = -1 ∨ (i : ℤ) < s.cur.base →
    s.best.base ≠ -1 ∧ ((k : ℤ) < s.best.len ∨ (k : ℤ) = s.best.len ∧ s.best.base ≤ i)

namespace RunSearch

variable {s : RunSearch}

theorem seen_nil : Seen {} [] where
  cur := .inl rfl
  cur_first i k h := absurd h.lt_length (by have := h.1; rw [List.length_nil]; omega)
  best := .inl rfl
  best_max i k h := absurd h.lt_length (by have := h.1; rw [List.length_nil]; omega)

/-- `keep` is the best run when the one under way is over. -/
theorem Seen.keep_max (h : s.Seen words) (hcur : s.cur.base ≠ -1) :
    (∃ b n : ℕ, s.keep = ⟨b, n⟩ ∧ ZerosAt words b n) ∧ ∀ i k, ZerosAt words i k →
      s.keep.base ≠ -1 ∧ ((k : ℤ) < s.keep.len ∨ (k : ℤ) = s.keep.len ∧ s.keep.base ≤ i) := by
  obtain ⟨b, n, hbn, hzeros, hend⟩ := h.cur.resolve_left hcur
  unfold keep
  split
  · rename_i hbetter
    refine ⟨⟨b, n, hbn, hzeros⟩, fun i k hik => ?_⟩
    have hlen := hik.lt_length
    rw [hbn] at hbetter ⊢
    refine ⟨by dsimp only; omega, ?_⟩
    by_cases hi : (i : ℤ) < b
    · have hold := h.best_max i k hik (.inr (by rw [hbn]; exact hi))
      dsimp only at hbetter ⊢
      omega
    · dsimp only
      omega
  · rename_i hbest
    rw [not_or] at hbest
    obtain ⟨b', n', hbn', hzeros', hlt⟩ := h.best.resolve_left hbest.1
    refine ⟨⟨b', n', hbn', hzeros'⟩, fun i k hik => ⟨hbest.1, ?_⟩⟩
    have hlen := hik.lt_length
    by_cases hi : (i : ℤ) < b
    · exact (h.best_max i k hik (.inr (by rw [hbn]; exact hi))).2
    · have hbase : s.best.base = b' := by rw [hbn']
      have hlen' : s.cur.len = n := by rw [hbn]
      have hbase' : s.cur.base = b := by rw [hbn]
      omega

theorem Seen.step (h : s.Seen words) (word : ℕ) :
    (s.step words.length word).Seen (words ++ [word]) := by
  unfold RunSearch.step
  split
  · rename_i hword
    subst hword
    have hlast : ∀ i k, ZerosAt (words ++ [0]) i k → words.length < i + k → i < words.length →
        s.cur.base ≠ -1 ∧ s.cur.base ≤ i ∧ i + k = words.length + 1 := by
      intro i k hik hlt hi
      obtain ⟨-, hend, hshort⟩ := hik.last hlt
      have hpos := (hshort hi).1
      have hfirst := h.cur_first i (k - 1) (hshort hi) (by omega)
      exact ⟨hfirst.1, hfirst.2, hend⟩
    have hwithin : ∀ i k, ZerosAt (words ++ [0]) i k → i < words.length →
        s.cur.base = -1 ∨ (i : ℤ) < s.cur.base → s.best.base ≠ -1 ∧
          ((k : ℤ) < s.best.len ∨ (k : ℤ) = s.best.len ∧ s.best.base ≤ i) := by
      intro i k hik hi hcur
      by_cases hlt : words.length < i + k
      · have hfirst := hlast i k hik hlt hi
        omega
      · exact h.best_max i k (hik.of_append (by omega)) hcur
    split
    · rename_i hcur
      refine ⟨.inr ⟨words.length, 1, rfl, ⟨by decide, fun j hj => ?_⟩, by simp⟩, ?_, ?_, ?_⟩
      · obtain rfl : j = 0 := by omega
        simp
      · intro i k hik hend
        rw [List.length_append, List.length_singleton] at hend
        refine ⟨by dsimp only; omega, ?_⟩
        by_cases hi : i < words.length
        · exact absurd hcur (hlast i k hik (by omega) hi).1
        · dsimp only
          omega
      · refine h.best.imp id ?_
        rintro ⟨b, n, hbn, hzeros, -⟩
        have hlen := hzeros.lt_length
        have hpos := hzeros.1
        exact ⟨b, n, hbn, hzeros.append [0], .inr (by dsimp only; omega)⟩
      · intro i k hik hi
        have hlt : i < words.length := by
          dsimp only at hi
          omega
        exact hwithin i k hik hlt (.inl hcur)
    · rename_i hcur
      obtain ⟨b, n, hbn, hzeros, hend⟩ := h.cur.resolve_left hcur
      have hbase : s.cur.base = b := by rw [hbn]
      refine ⟨.inr ⟨b, n + 1, by rw [hbn]; rfl, ⟨by omega, fun j hj => ?_⟩, ?_⟩, ?_, ?_, ?_⟩
      · by_cases hlt : j < n
        · exact (hzeros.append [0]).2 j hlt
        · obtain rfl : j = n := by omega
          rw [hend]
          simp
      · rw [List.length_append, List.length_singleton]
        omega
      · intro i k hik hend'
        rw [List.length_append, List.length_singleton] at hend'
        refine ⟨hcur, ?_⟩
        by_cases hi : i < words.length
        · exact (hlast i k hik (by omega) hi).2.1
        · dsimp only
          omega
      · refine h.best.imp id ?_
        rintro ⟨b', n', hbn', hzeros', hlt⟩
        exact ⟨b', n', hbn', hzeros'.append [0], hlt⟩
      · intro i k hik hi
        have hlt : i < words.length := by
          have hpos := hzeros.1
          dsimp only at hi
          omega
        exact hwithin i k hik hlt hi
  · rename_i hword
    have hwithin : ∀ i k, ZerosAt (words ++ [word]) i k → ZerosAt words i k :=
      fun i k hik => hik.of_append (Nat.not_lt.1 fun hlt => hword (hik.last hlt).1)
    have hnone : ∀ i k, ZerosAt (words ++ [word]) i k → i + k ≠ (words ++ [word]).length := by
      intro i k hik hend
      have hlen := (hwithin i k hik).lt_length
      rw [List.length_append, List.length_singleton] at hend
      omega
    split
    · rename_i hcur
      obtain ⟨⟨b, n, hbn, hzeros⟩, hmax⟩ := h.keep_max hcur
      exact ⟨.inl rfl, fun i k hik hend => absurd hend (hnone i k hik),
        .inr ⟨b, n, hbn, hzeros.append _, .inl rfl⟩, fun i k hik _ => hmax i k (hwithin i k hik)⟩
    · rename_i hcur
      rw [ne_eq, not_not] at hcur
      refine ⟨.inl hcur, fun i k hik hend => absurd hend (hnone i k hik), ?_,
        fun i k hik hi => h.best_max i k (hwithin i k hik) hi⟩
      refine h.best.imp id ?_
      rintro ⟨b, n, hbn, hzeros, hlt⟩
      exact ⟨b, n, hbn, hzeros.append _, hlt⟩

theorem seen_run (words : List ℕ) : (run words).Seen words := by
  induction words using List.reverseRecOn with
  | nil => exact seen_nil
  | append_singleton words word ih =>
    have hrun : run (words ++ [word]) = (run words).step words.length word := by
      simp [run, List.zipIdx_append]
    rw [hrun]
    exact ih.step word

end RunSearch

theorem Longest.unique (h : Longest words b n) (h' : Longest words i k) : b = i ∧ n = k := by
  obtain rfl : n = k := Nat.le_antisymm (h'.le b n h.zeros) (h.le i k h'.zeros)
  exact ⟨Nat.le_antisymm (h.first i h'.zeros) (h'.first b h.zeros), rfl⟩

/-- The best run when all words have been seen. -/
theorem RunSearch.Seen.final {s : RunSearch} (h : s.Seen words) :
    let best := if s.cur.base ≠ -1 then s.keep else s.best
    (best.base = -1 ∧ ∀ i k, ¬ZerosAt words i k) ∨
      ∃ b n : ℕ, best = ⟨b, n⟩ ∧ Longest words b n := by
  have hlongest : ∀ b n : ℕ, ZerosAt words b n →
      (∀ i k, ZerosAt words i k → (k : ℤ) < n ∨ (k : ℤ) = n ∧ (b : ℤ) ≤ i) → Longest words b n := by
    intro b n hzeros hmax
    refine ⟨hzeros, fun i k hik => ?_, fun i hi => ?_⟩
    · have hle := hmax i k hik
      omega
    · have hle := hmax i n hi
      omega
  by_cases hcur : s.cur.base ≠ -1
  · obtain ⟨⟨b, n, hbn, hzeros⟩, hmax⟩ := h.keep_max hcur
    refine .inr ⟨b, n, (if_pos hcur).trans hbn, hlongest b n hzeros fun i k hik => ?_⟩
    simpa only [hbn] using (hmax i k hik).2
  · have hcur' := not_not.1 hcur
    rcases h.best with hbest | ⟨b, n, hbn, hzeros, -⟩
    · exact .inl ⟨(congrArg ZeroRun.base (if_neg hcur)).trans hbest,
        fun i k hik => (h.best_max i k hik (.inl hcur')).1 hbest⟩
    · refine .inr ⟨b, n, (if_neg hcur).trans hbn, hlongest b n hzeros fun i k hik => ?_⟩
      simpa only [hbn] using (h.best_max i k hik (.inl hcur')).2

/-- The search finds the longest run that is worth a `::`. -/
theorem bestRun_cases (words : List ℕ) :
    ((bestRun words).base = -1 ∧ ∀ i k, ZerosAt words i k → k < 2) ∨
      ∃ b n : ℕ, bestRun words = ⟨b, n⟩ ∧ 2 ≤ n ∧ Longest words b n := by
  unfold bestRun
  dsimp only
  rcases (RunSearch.seen_run words).final with ⟨hbase, hnone⟩ | ⟨b, n, hbn, hlongest⟩
  · rw [if_neg fun h => h.1 hbase]
    exact .inl ⟨hbase, fun i k hik => absurd hik (hnone i k)⟩
  · rw [hbn]
    by_cases hn : n < 2
    · rw [if_pos ⟨by dsimp only; omega, by dsimp only; omega⟩]
      exact .inl ⟨rfl, fun i k hik => (hlongest.le i k hik).trans_lt hn⟩
    · rw [if_neg (by dsimp only; omega)]
      exact .inr ⟨b, n, rfl, by omega, hlongest⟩

end

/-! ## The words and the bytes -/

theorem wordsOf_lt (bytes : List UInt8) : ∀ word ∈ wordsOf bytes, word < 2 ^ 16 := by
  induction bytes using wordsOf.induct with
  | case1 hi lo rest ih =>
    intro word hword
    rw [wordsOf] at hword
    rcases List.mem_cons.1 hword with rfl | hword
    · have hhi := hi.toNat_lt
      have hlo := lo.toNat_lt
      rw [← Nat.shiftLeft_add_eq_or_of_lt hlo, Nat.shiftLeft_eq]
      omega
    · exact ih word hword
  | case2 bytes h =>
    intro word hword
    rw [wordsOf] at hword
    · cases hword
    · exact h

theorem wordBytes_shiftLeft (hi lo : UInt8) :
    wordBytes (hi.toNat <<< 8 ||| lo.toNat) = [hi, lo] := by
  have hlo := lo.toNat_lt
  rw [← Nat.shiftLeft_add_eq_or_of_lt hlo, Nat.shiftLeft_eq]
  have hhigh : (hi.toNat * 2 ^ 8 + lo.toNat) >>> 8 = hi.toNat := by
    rw [Nat.shiftRight_eq_div_pow]
    omega
  have hlow : UInt8.ofNat (hi.toNat * 2 ^ 8 + lo.toNat) = lo := by
    rw [← UInt8.toNat_inj, UInt8.toNat_ofNat']
    omega
  rw [wordBytes, hhigh, hlow, UInt8.ofNat_toNat]

theorem wordsOf_spec {n : ℕ} {bytes : List UInt8} (h : bytes.length = 2 * n) :
    (wordsOf bytes).flatMap wordBytes = bytes ∧ (wordsOf bytes).length = n := by
  induction n generalizing bytes with
  | zero =>
    obtain rfl := List.length_eq_zero_iff.1 h
    exact ⟨rfl, rfl⟩
  | succ n ih =>
    obtain ⟨hi, rest, rfl⟩ := List.exists_cons_of_length_pos (l := bytes) (by omega)
    rw [List.length_cons] at h
    obtain ⟨lo, rest, rfl⟩ := List.exists_cons_of_length_pos (l := rest) (by omega)
    rw [List.length_cons] at h
    obtain ⟨hbytes, hlen⟩ := ih (show rest.length = 2 * n by omega)
    rw [wordsOf, List.flatMap_cons, wordBytes_shiftLeft, hbytes, List.length_cons, hlen]
    exact ⟨rfl, rfl⟩

theorem length_flatMap_wordBytes (words : List ℕ) :
    (words.flatMap wordBytes).length = 2 * words.length := by
  induction words with
  | nil => rfl
  | cons word words ih =>
    rw [List.flatMap_cons, List.length_append, ih, length_wordBytes, List.length_cons]
    omega

theorem flatMap_replicate_zero (n : ℕ) :
    (List.replicate n 0).flatMap wordBytes = List.replicate (2 * n) 0 := by
  induction n with
  | zero => rfl
  | succ n ih =>
    rw [List.replicate_succ, List.flatMap_cons, ih, Nat.mul_succ]
    rfl

/-- The words around a run. -/
theorem ZerosAt.split {words : List ℕ} {b n : ℕ} (h : ZerosAt words b n) :
    words = words.take b ++ (List.replicate n 0 ++ words.drop (b + n)) := by
  have hlen := h.lt_length
  have hzeros : (words.drop b).take n = List.replicate n 0 := by
    refine List.eq_replicate_iff.2 ⟨by simp only [List.length_take, List.length_drop]; omega, ?_⟩
    intro word hword
    obtain ⟨j, hj⟩ := List.mem_iff_getElem?.1 hword
    have hlt : j < n := (List.length_take_le n _).trans_lt' (List.getElem?_eq_some_iff.1 hj).1
    rw [List.getElem?_take_of_lt hlt, List.getElem?_drop, h.2 j hlt] at hj
    exact (Option.some.inj hj).symm
  rw [← hzeros, ← List.drop_drop, List.take_append_drop, List.take_append_drop]

/-! ## What is printed -/

/-- Words with a colon in front of each. -/
def colonWords (words : List ℕ) : List Char := words.flatMap fun word => ':' :: hexText word

/-- Words with a colon between them. -/
def joinWords (words : List ℕ) : List Char := [':'].intercalate (words.map hexText)

theorem joinWords_cons (word : ℕ) (words : List ℕ) :
    joinWords (word :: words) = hexText word ++ colonWords words := by
  induction words generalizing word with
  | nil => simp [joinWords, colonWords]
  | cons next words ih =>
    have hnext := ih next
    unfold joinWords at hnext ⊢
    rw [List.map_cons, List.map_cons, List.intercalate_cons_cons, ← List.map_cons, hnext]
    simp [colonWords]

theorem colonWords_eq {words : List ℕ} (h : words ≠ []) :
    colonWords words = ':' :: joinWords words := by
  obtain ⟨word, rest, rfl⟩ := List.exists_cons_of_ne_nil h
  rw [joinWords_cons]
  rfl

section

variable {src : Octets 16} {best : ZeroRun} {words rest : List ℕ} {tp : List Char} {i b n : ℕ}

/-- Words outside of the run, behind the first. -/
theorem formatWords_colonWords (hi : i ≠ 0)
    (hout : ∀ j < words.length,
      ¬(best.base ≠ -1 ∧ best.base ≤ ↑(i + j) ∧ ↑(i + j) < best.base + best.len))
    (hplain : encapsulates src best → i + words.length ≤ 6) :
    formatWords src best tp i (words ++ rest) =
      formatWords src best (tp ++ colonWords words) (i + words.length) rest := by
  induction words generalizing i tp with
  | nil => simp [colonWords]
  | cons word words ih =>
    have hfirst := hout 0 (by simp)
    rw [Nat.add_zero] at hfirst
    rw [List.length_cons] at hplain
    have hsix : ¬(i = 6 ∧ encapsulates src best) := by
      rintro ⟨rfl, h⟩
      have hle := hplain h
      omega
    have hrest : ∀ j < words.length, ¬(best.base ≠ -1 ∧ best.base ≤ ↑(i + 1 + j) ∧
        ↑(i + 1 + j) < best.base + best.len) := by
      intro j hj
      have hj' := hout (j + 1) (by rw [List.length_cons]; omega)
      rwa [show i + (j + 1) = i + 1 + j by omega] at hj'
    rw [List.cons_append, formatWords, if_neg hfirst, if_neg hsix, if_pos hi,
      ih (Nat.succ_ne_zero i) hrest (fun h => by have hle := hplain h; omega), List.length_cons,
      show i + (words.length + 1) = i + 1 + words.length by omega]
    simp [colonWords]

/-- The run is printed as one colon. -/
theorem formatWords_zeros (hbest : best = ⟨b, n⟩) (hn : 0 < n) :
    formatWords src best tp b (List.replicate n 0 ++ rest) =
      formatWords src best (tp ++ [':']) (b + n) rest := by
  have hinside : ∀ m i, b < i → i + m = b + n → ∀ tp,
      formatWords src best tp i (List.replicate m 0 ++ rest) =
        formatWords src best tp (b + n) rest := by
    intro m
    induction m with
    | zero =>
      intro i _ hi tp
      rw [Nat.add_zero] at hi
      rw [hi]
      rfl
    | succ m ih =>
      intro i hi him tp
      rw [List.replicate_succ, List.cons_append, formatWords, hbest,
        if_pos ⟨by dsimp only; omega, by dsimp only; omega, by dsimp only; omega⟩,
        if_neg (by dsimp only; omega), ← hbest]
      exact ih (i + 1) (by omega) (by omega) tp
  obtain ⟨m, rfl⟩ := Nat.exists_eq_succ_of_ne_zero hn.ne'
  rw [List.replicate_succ, List.cons_append, formatWords, hbest,
    if_pos ⟨by dsimp only; omega, by dsimp only; omega, by dsimp only; omega⟩, if_pos rfl, ← hbest]
  exact hinside m (b + 1) (by omega) (by omega) _

/-- Words outside of the run, from the first on. -/
theorem formatWords_joinWords (hne : words ≠ [])
    (hout : ∀ j < words.length,
      ¬(best.base ≠ -1 ∧ best.base ≤ (j : ℤ) ∧ (j : ℤ) < best.base + best.len))
    (hplain : ¬encapsulates src best) : formatWords src best [] 0 (words ++ rest) =
      formatWords src best (joinWords words) words.length rest := by
  obtain ⟨word, words, rfl⟩ := List.exists_cons_of_ne_nil hne
  have hfirst := hout 0 (by simp)
  rw [List.cons_append, formatWords, if_neg hfirst, if_neg (by simp), if_neg (by simp),
    List.nil_append, formatWords_colonWords (by decide) ?_ (fun h => absurd h hplain),
    joinWords_cons, List.length_cons, Nat.zero_add, Nat.add_comm 1]
  intro j hj
  have hj' := hout (j + 1) (by rw [List.length_cons]; omega)
  rwa [Nat.zero_add, Nat.add_comm 1]

/-- A text without `::`. -/
theorem formatWords_plain (hbase : best.base = -1) (hne : words ≠ []) :
    formatWords src best [] 0 words = .ok (joinWords words) := by
  have hplain : ¬encapsulates src best := by
    rintro ⟨h, -⟩
    omega
  have hformat : formatWords src best [] 0 (words ++ []) = _ :=
    formatWords_joinWords hne (fun j _ h => h.1 hbase) hplain
  rw [List.append_nil] at hformat
  exact hformat

/-- The words in front of the run, and its colon. -/
theorem formatWords_front (hbest : best = ⟨b, n⟩) (hzeros : ZerosAt words b n) :
    formatWords src best [] 0 words =
      formatWords src best (joinWords (words.take b) ++ [':']) (b + n) (words.drop (b + n)) := by
  have hlen := hzeros.lt_length
  have hsplit := hzeros.split
  by_cases hb : b = 0
  · subst hb
    have hzero : formatWords src best [] 0 (List.replicate n 0 ++ words.drop (0 + n)) = _ :=
      formatWords_zeros hbest hzeros.1
    rw [List.take_zero, List.nil_append] at hsplit
    rw [← hsplit] at hzero
    exact hzero
  · have htake : (words.take b).length = b := List.length_take_of_le (by omega)
    have hne : words.take b ≠ [] := List.ne_nil_of_length_pos (by omega)
    have hplain : ¬encapsulates src best := by
      rintro ⟨h, -⟩
      rw [hbest] at h
      dsimp only at h
      omega
    have hfront : formatWords src best [] 0
        (words.take b ++ (List.replicate n 0 ++ words.drop (b + n))) = _ :=
      formatWords_joinWords hne (fun j hj h => by rw [hbest] at h; dsimp only at h; omega) hplain
    rw [← hsplit, htake, formatWords_zeros hbest hzeros.1] at hfront
    exact hfront

/-- The words behind it. -/
theorem formatWords_back (hbest : best = ⟨b, n⟩) (hn : 0 < n) (hplain : ¬encapsulates src best) :
    formatWords src best tp (b + n) rest = .ok (tp ++ colonWords rest) := by
  have hformat : formatWords src best tp (b + n) (rest ++ []) = _ :=
    formatWords_colonWords (by omega) (fun j _ h => by rw [hbest] at h; dsimp only at h; omega)
      fun h => absurd h hplain
  rw [List.append_nil] at hformat
  exact hformat

theorem length_dotted_le (octets : Octets 4) : (dotted octets.bytes).length ≤ 15 := by
  have hthree : ∀ a : UInt8, (decimal a.toNat).length ≤ 3 := fun a =>
    (Nat.length_toDigits_le_iff (by decide) (by decide)).2 (a.toNat_lt.trans (by decide))
  obtain ⟨bytes, hlen⟩ := octets
  obtain ⟨a, b, c, d, rfl⟩ := List.length_eq_four.1 hlen
  have ha := hthree a
  have hb := hthree b
  have hc := hthree c
  have hd := hthree d
  rw [Quad.dotted_four]
  simp only [List.length_append, List.length_cons]
  omega

theorem inetNtop4_eq {octets : Octets 4} {size : ℕ} (hsize : size < 2 ^ 31) :
    inetNtop4 octets size = if size < (dotted octets.bytes).length + 1 then .error .ENOSPC
      else .ok (dotted octets.bytes) := by
  unfold inetNtop4
  dsimp only
  rw [toInt32_eq_self (by omega) (by omega)]
  have hiff : (size : ℤ) ≤ ((dotted octets.bytes).length : ℤ) ↔
    size < (dotted octets.bytes).length + 1 := by omega
  simp only [hiff]

/-- The word at index 6 of an encapsulated address: the loop prints the quad and ends. -/
theorem formatWords_quad (hbest : best = ⟨b, n⟩) (hlt : b + n ≤ 6) (h : encapsulates src best)
    (htp : tp.length ≤ 20) (word : ℕ) : formatWords src best tp 6 (word :: rest) =
      .ok (tp ++ ':' :: dotted src.last4.bytes) := by
  have hout : ¬(best.base ≠ -1 ∧ best.base ≤ ((6 : ℕ) : ℤ) ∧
      ((6 : ℕ) : ℤ) < best.base + best.len) := by
    rw [hbest]
    dsimp only
    omega
  have hquad := length_dotted_le src.last4
  rw [formatWords, if_neg hout, if_pos ⟨rfl, h⟩, inetNtop4_eq (by omega), if_neg]
  · simp [bind, Except.bind, pure, Except.pure]
  · rw [List.length_append, List.length_singleton]
    omega

end

/-- The texts that `inet_ntop6` prints. -/
inductive Printed (src : Octets 16) : List Char → Prop
  | plain (h : ∀ i k, ZerosAt (wordsOf src.bytes) i k → k < 2) :
    Printed src (joinWords (wordsOf src.bytes))
  | zeros {b n : ℕ} (h : Longest (wordsOf src.bytes) b n) (hn : 2 ≤ n)
    (hplain : b = 0 → n ≠ 6 ∧ (n = 5 → (wordsOf src.bytes).getD 5 0 ≠ 0xffff)) :
    Printed src (joinWords ((wordsOf src.bytes).take b) ++
      ':' :: ':' :: joinWords ((wordsOf src.bytes).drop (b + n)))
  | compatible (h : Longest (wordsOf src.bytes) 0 6) :
    Printed src (':' :: ':' :: dotted src.last4.bytes)
  | mapped (h : Longest (wordsOf src.bytes) 0 5) (hword : (wordsOf src.bytes).getD 5 0 = 0xffff) :
    Printed src (':' :: ':' :: 'f' :: 'f' :: 'f' :: 'f' :: ':' :: dotted src.last4.bytes)

section

variable {src : Octets 16} {tp text : List Char} {size : ℕ}

theorem length_words (src : Octets 16) : (wordsOf src.bytes).length = 8 :=
  (wordsOf_spec (n := 8) src.length_bytes).2

theorem inetNtop6_of_format
    (hformat : formatWords src (bestRun (wordsOf src.bytes)) [] 0 (wordsOf src.bytes) = .ok tp)
    (htext : (if (bestRun (wordsOf src.bytes)).base ≠ -1 ∧
      (bestRun (wordsOf src.bytes)).base + (bestRun (wordsOf src.bytes)).len = 8
        then tp ++ [':'] else tp) = text) (size : ℕ) :
    inetNtop6 src size = if size < text.length + 1 then .error .ENOSPC else .ok text := by
  unfold inetNtop6
  dsimp only
  rw [hformat, ← htext]
  rfl

/-- The six zeros in front of an IPv4 address, or five and a word of ones. -/
theorem formatWords_encapsulated {n : ℕ} (hbest : bestRun (wordsOf src.bytes) = ⟨0, n⟩)
    (hlongest : Longest (wordsOf src.bytes) 0 n)
    (h : encapsulates src (bestRun (wordsOf src.bytes))) : ∃ text, Printed src text ∧
      formatWords src (bestRun (wordsOf src.bytes)) [] 0 (wordsOf src.bytes) = .ok text ∧
        n < 8 := by
  have hlen := length_words src
  have hfront : formatWords src (bestRun (wordsOf src.bytes)) [] 0 (wordsOf src.bytes) = _ :=
    formatWords_front (b := 0) (by exact_mod_cast hbest) hlongest.zeros
  rw [List.take_zero, Nat.zero_add] at hfront
  have hcases := h.2
  rw [hbest] at hcases
  dsimp only at hcases
  by_cases hsix : n = 6
  · subst hsix
    obtain ⟨word, rest, hrest⟩ := List.exists_cons_of_length_pos (l := (wordsOf src.bytes).drop 6)
      (by rw [List.length_drop]; omega)
    rw [hrest, formatWords_quad (b := 0) (n := 6) (by exact_mod_cast hbest) (by omega) h
      (by decide)] at hfront
    exact ⟨_, .compatible hlongest, hfront, by decide⟩
  · obtain ⟨hfive, hword⟩ := hcases.resolve_left (by omega)
    obtain rfl : n = 5 := by omega
    have hrest := List.drop_eq_getElem_cons (l := wordsOf src.bytes) (i := 5) (by omega)
    obtain ⟨word, rest, hnext⟩ := List.exists_cons_of_length_pos (l := (wordsOf src.bytes).drop 6)
      (by rw [List.length_drop]; omega)
    have hfifth : (wordsOf src.bytes)[5] = 0xffff := by
      rwa [List.getD_eq_getElem?_getD, List.getElem?_eq_getElem (by omega), Option.getD_some]
        at hword
    rw [hfifth, hnext] at hrest
    have hout : ¬((bestRun (wordsOf src.bytes)).base ≠ -1 ∧
        (bestRun (wordsOf src.bytes)).base ≤ ((5 : ℕ) : ℤ) ∧
        ((5 : ℕ) : ℤ) <
          (bestRun (wordsOf src.bytes)).base + (bestRun (wordsOf src.bytes)).len) := by
      rw [hbest]
      dsimp only
      omega
    rw [hrest, formatWords, if_neg hout, if_neg (by omega), if_pos (by decide),
      formatWords_quad (b := 0) (n := 5) (by exact_mod_cast hbest) (by omega) h (by decide)]
      at hfront
    exact ⟨_, .mapped hlongest hword, hfront, by decide⟩

/-- `inet_ntop6` prints one text, when there is room for it and the terminator. -/
theorem inetNtop6_eq (src : Octets 16) : ∃ text, Printed src text ∧ ∀ size,
    inetNtop6 src size = if size < text.length + 1 then .error .ENOSPC else .ok text := by
  have hlen := length_words src
  rcases bestRun_cases (wordsOf src.bytes) with ⟨hbase, hshort⟩ | ⟨b, n, hbest, hn, hlongest⟩
  · have hne : wordsOf src.bytes ≠ [] := List.ne_nil_of_length_pos (by omega)
    exact ⟨_, .plain hshort, inetNtop6_of_format (formatWords_plain hbase hne)
      (if_neg fun h => h.1 hbase)⟩
  by_cases h : encapsulates src (bestRun (wordsOf src.bytes))
  · obtain rfl : b = 0 := by
      have hb := h.1
      rw [hbest] at hb
      dsimp only at hb
      omega
    obtain ⟨text, hprinted, hformat, hlt⟩ := formatWords_encapsulated hbest hlongest h
    refine ⟨text, hprinted, inetNtop6_of_format hformat (if_neg ?_)⟩
    rw [hbest]
    dsimp only
    omega
  · have hformat : formatWords src (bestRun (wordsOf src.bytes)) [] 0 (wordsOf src.bytes) = _ :=
      formatWords_front hbest hlongest.zeros
    rw [formatWords_back hbest hlongest.zeros.1 h] at hformat
    have hplain : b = 0 → n ≠ 6 ∧ (n = 5 → (wordsOf src.bytes).getD 5 0 ≠ 0xffff) := by
      rintro rfl
      refine ⟨?_, ?_⟩
      · rintro rfl
        exact h (by rw [hbest]; exact ⟨rfl, .inl rfl⟩)
      · rintro rfl hword
        exact h (by rw [hbest]; exact ⟨rfl, .inr ⟨rfl, hword⟩⟩)
    refine ⟨_, .zeros hlongest hn hplain, inetNtop6_of_format hformat ?_⟩
    rw [hbest]
    have hlt := hlongest.zeros.lt_length
    by_cases hend : b + n = 8
    · have hnil : (wordsOf src.bytes).drop (b + n) = [] := List.drop_eq_nil_of_le (by omega)
      rw [if_pos ⟨by dsimp only; omega, by dsimp only; omega⟩, hnil]
      simp [colonWords, joinWords]
    · have hne : (wordsOf src.bytes).drop (b + n) ≠ [] :=
        List.ne_nil_of_length_pos (by rw [List.length_drop]; omega)
      rw [if_neg (by dsimp only; omega), colonWords_eq hne]
      simp

end

/-! ## What is printed can be read -/

theorem isXdigit_digitChar {d : ℕ} (h : d < 16) : isXdigit d.digitChar = true := by
  have hall : ∀ d < 16, isXdigit (Nat.digitChar d) = true := by decide
  exact hall d h

theorem idxOf_digitChar {d : ℕ} (h : d < 16) : xdigits.idxOf d.digitChar.toLower = d := by
  have hall : ∀ d < 16, xdigits.idxOf (Nat.digitChar d).toLower = d := by decide
  exact hall d h

theorem hexText_spec (word : ℕ) :
    (∀ c ∈ hexText word, isXdigit c = true) ∧ xvalue 0 (hexText word) = word := by
  unfold hexText
  induction word using Nat.strongRecOn with
  | _ word ih =>
    by_cases hlt : word < 16
    · rw [Nat.toDigits_of_lt_base hlt]
      refine ⟨fun c hc => ?_, ?_⟩
      · rw [List.mem_singleton.1 hc]
        exact isXdigit_digitChar hlt
      · rw [xvalue, List.foldl_cons, List.foldl_nil, idxOf_digitChar hlt, Nat.mul_zero,
          Nat.zero_add]
    · have hmod : word % 16 < 16 := Nat.mod_lt word (by decide)
      obtain ⟨hdigits, hvalue⟩ := ih (word / 16) (by omega)
      rw [Nat.toDigits_of_base_le (by decide) (by omega)]
      refine ⟨fun c hc => ?_, ?_⟩
      · rcases List.mem_append.1 hc with hc | hc
        · exact hdigits c hc
        · rw [List.mem_singleton.1 hc]
          exact isXdigit_digitChar hmod
      · unfold xvalue at hvalue ⊢
        rw [List.foldl_append, hvalue, List.foldl_cons, List.foldl_nil, idxOf_digitChar hmod]
        exact Nat.div_add_mod word 16

theorem hextet_hexText {word : ℕ} (h : word < 2 ^ 16) : Hextet (hexText word) word where
  ne_nil := Nat.toDigits_ne_nil
  xdigit := (hexText_spec word).1
  value := (hexText_spec word).2
  le := Nat.le_of_lt_succ h

section

variable {quad : Bool} {words : List ℕ} {src : Octets 16} {text text' : List Char}

theorem groups_joinWords (hne : words ≠ []) (h : ∀ word ∈ words, word < 2 ^ 16) :
    Groups quad (joinWords words) (words.flatMap wordBytes) := by
  induction words with
  | nil => exact absurd rfl hne
  | cons word words ih =>
    have hword := hextet_hexText (h word List.mem_cons_self)
    rw [joinWords_cons, List.flatMap_cons]
    by_cases hnil : words = []
    · subst hnil
      have hlast : Groups quad _ _ := .last hword
      simpa [colonWords] using hlast
    · rw [colonWords_eq hnil]
      exact .cons hword (ih hnil fun word hmem => h word (List.mem_cons_of_mem _ hmem))

theorem side_joinWords (h : ∀ word ∈ words, word < 2 ^ 16) :
    Side quad (joinWords words) (words.flatMap wordBytes) := by
  by_cases hnil : words = []
  · subst hnil
    exact .inl ⟨rfl, rfl⟩
  · exact .inr (groups_joinWords hnil h)

/-- The bytes around a run of zero words. -/
theorem bytes_split {b n : ℕ} (h : ZerosAt (wordsOf src.bytes) b n) :
    src.bytes = ((wordsOf src.bytes).take b).flatMap wordBytes ++
      (List.replicate (2 * n) 0 ++ ((wordsOf src.bytes).drop (b + n)).flatMap wordBytes) := by
  have hbytes := (wordsOf_spec (n := 8) src.length_bytes).1
  rw [h.split, List.flatMap_append, List.flatMap_append, flatMap_replicate_zero] at hbytes
  exact hbytes.symm

theorem bytes_last4 (src : Octets 16) :
    ((wordsOf src.bytes).drop 6).flatMap wordBytes = src.last4.bytes := by
  have hbytes := (wordsOf_spec (n := 8) src.length_bytes).1
  have hlen : (((wordsOf src.bytes).take 6).flatMap wordBytes).length = 12 := by
    rw [length_flatMap_wordBytes, List.length_take_of_le (by rw [length_words]; decide)]
  have hdrop : src.last4.bytes = src.bytes.drop 12 := rfl
  have hsplit : src.bytes = ((wordsOf src.bytes).take 6).flatMap wordBytes ++
      ((wordsOf src.bytes).drop 6).flatMap wordBytes := by
    rw [← List.flatMap_append, List.take_append_drop, hbytes]
  rw [hdrop, ← hlen]
  exact (List.drop_left' rfl).symm.trans (congrArg _ hsplit.symm)

/-- A printed text denotes the address. -/
theorem Printed.spells (h : Printed src text) : Spells src text := by
  have hlen := length_words src
  have hwords := wordsOf_lt src.bytes
  cases h with
  | plain =>
    refine .full ?_
    have hgroups : Groups true _ _ :=
      groups_joinWords (List.ne_nil_of_length_pos (by omega)) hwords
    rwa [(wordsOf_spec (n := 8) src.length_bytes).1] at hgroups
  | @zeros b n hlongest =>
    have hlt := hlongest.zeros.lt_length
    have hhigh : (((wordsOf src.bytes).take b).flatMap wordBytes).length = 2 * b := by
      rw [length_flatMap_wordBytes, List.length_take_of_le (by omega)]
    have hlow : (((wordsOf src.bytes).drop (b + n)).flatMap wordBytes).length =
        2 * (8 - (b + n)) := by
      rw [length_flatMap_wordBytes, List.length_drop, hlen]
    refine .zeros (side_joinWords fun word hmem => hwords word (List.mem_of_mem_take hmem))
      (side_joinWords fun word hmem => hwords word (List.mem_of_mem_drop hmem)) (by omega) ?_
    rw [hhigh, hlow, show 16 - (2 * b + 2 * (8 - (b + n))) = 2 * n by omega, List.append_assoc]
    exact bytes_split hlongest.zeros
  | compatible hlongest =>
    have hbytes := bytes_split hlongest.zeros
    rw [List.take_zero, Nat.zero_add, bytes_last4] at hbytes
    refine .zeros (.inl ⟨rfl, rfl⟩) (.inr (.dotted rfl src.last4)) ?_ ?_
    · rw [src.last4.length_bytes]
      decide
    · rw [src.last4.length_bytes]
      exact hbytes
  | mapped hlongest hword =>
    have hbytes := bytes_split hlongest.zeros
    rw [List.getD_eq_getElem?_getD, List.getElem?_eq_getElem (by omega), Option.getD_some] at hword
    rw [List.take_zero, Nat.zero_add, List.drop_eq_getElem_cons (by omega), List.flatMap_cons,
      bytes_last4, hword] at hbytes
    have hones : Hextet ['f', 'f', 'f', 'f'] 0xffff :=
      ⟨by decide, List.all_eq_true.1 (by decide), by decide, by decide⟩
    refine .zeros (.inl ⟨rfl, rfl⟩) (.inr (.cons hones (.dotted rfl src.last4))) ?_ ?_
    · rw [List.length_append, src.last4.length_bytes]
      decide
    · rw [List.length_append, src.last4.length_bytes]
      exact hbytes

theorem length_joinWords_le (h : ∀ word ∈ words, word < 2 ^ 16) :
    (joinWords words).length ≤ 5 * words.length - 1 := by
  by_cases hnil : words = []
  · subst hnil
    exact Nat.zero_le _
  · have hparts : ∀ part ∈ words.map hexText, part.length ≤ 4 := by
      intro part hpart
      obtain ⟨word, hword, rfl⟩ := List.mem_map.1 hpart
      exact (Nat.length_toDigits_le_iff (by decide) (by decide)).2 (h word hword)
    have hle : ([':'].intercalate (words.map hexText)).length + 1 ≤ _ :=
      length_intercalate_le (by simpa using hnil) hparts
    rw [List.length_map] at hle
    unfold joinWords
    omega

/-- `tmp` has room for every text. -/
theorem Printed.length_le (h : Printed src text) : text.length < 46 := by
  have hlen := length_words src
  have hwords := wordsOf_lt src.bytes
  have hquad := length_dotted_le src.last4
  cases h with
  | plain =>
    have hle := length_joinWords_le hwords
    omega
  | @zeros b n hlongest =>
    have hlt := hlongest.zeros.lt_length
    have hfront : (joinWords ((wordsOf src.bytes).take b)).length ≤ _ :=
      length_joinWords_le fun word hmem => hwords word (List.mem_of_mem_take hmem)
    have hback : (joinWords ((wordsOf src.bytes).drop (b + n))).length ≤ _ :=
      length_joinWords_le fun word hmem => hwords word (List.mem_of_mem_drop hmem)
    have hpos := hlongest.zeros.1
    rw [List.length_take_of_le (by omega)] at hfront
    rw [List.length_drop, hlen] at hback
    simp only [List.length_append, List.length_cons]
    omega
  | compatible =>
    simp only [List.length_cons]
    omega
  | mapped =>
    simp only [List.length_cons]
    omega

theorem Printed.unique (h : Printed src text) (h' : Printed src text') : text = text' := by
  cases h with
  | plain hshort =>
    cases h' with
    | plain => rfl
    | zeros hlongest hn => exact absurd (hshort _ _ hlongest.zeros) (Nat.not_lt.2 hn)
    | compatible hlongest => exact absurd (hshort _ _ hlongest.zeros) (by decide)
    | mapped hlongest => exact absurd (hshort _ _ hlongest.zeros) (by decide)
  | zeros hlongest hn hplain =>
    cases h' with
    | plain hshort => exact absurd (hshort _ _ hlongest.zeros) (Nat.not_lt.2 hn)
    | zeros hlongest' =>
      obtain ⟨rfl, rfl⟩ := hlongest.unique hlongest'
      rfl
    | compatible hlongest' =>
      obtain ⟨rfl, rfl⟩ := hlongest.unique hlongest'
      exact absurd rfl (hplain rfl).1
    | mapped hlongest' hword =>
      obtain ⟨rfl, rfl⟩ := hlongest.unique hlongest'
      exact absurd hword ((hplain rfl).2 rfl)
  | compatible hlongest =>
    cases h' with
    | plain hshort => exact absurd (hshort _ _ hlongest.zeros) (by decide)
    | zeros hlongest' _ hplain =>
      obtain ⟨rfl, rfl⟩ := hlongest.unique hlongest'
      exact absurd rfl (hplain rfl).1
    | compatible => rfl
    | mapped hlongest' => exact absurd (hlongest.unique hlongest').2 (by decide)
  | mapped hlongest hword =>
    cases h' with
    | plain hshort => exact absurd (hshort _ _ hlongest.zeros) (by decide)
    | zeros hlongest' _ hplain =>
      obtain ⟨rfl, rfl⟩ := hlongest.unique hlongest'
      exact absurd hword ((hplain rfl).2 rfl)
    | compatible hlongest' => exact absurd (hlongest.unique hlongest').2 (by decide)
    | mapped => rfl

end

end Yasio
