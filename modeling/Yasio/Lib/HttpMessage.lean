import Mathlib.Data.List.Basic
import Mathlib.Data.List.DropRight

/-!
# The form of an HTTP/1.1 message

A start line and header lines, each of them ended by CRLF, an empty line, and a body of as many
characters as each `Content-Length` among the headers says.
-/

namespace Http

/-- ASCII letters are compared without their case. -/
def IStartsWith (line v : List Char) : Prop :=
  v.length ≤ line.length ∧ (line.take v.length).map Char.toLower = v.map Char.toLower

instance (line v : List Char) : Decidable (IStartsWith line v) :=
  inferInstanceAs (Decidable (_ ∧ _))

/-- A line without a line break. -/
def OneLine (line : List Char) : Prop := '\r' ∉ line ∧ '\n' ∉ line

instance (line : List Char) : Decidable (OneLine line) := inferInstanceAs (Decidable (_ ∧ _))

theorem oneLine_append {a b : List Char} : OneLine (a ++ b) ↔ OneLine a ∧ OneLine b := by
  simp only [OneLine, List.mem_append, not_or]
  exact and_and_and_comm

def crlf : List Char := ['\r', '\n']

/-- Blanks and tabs. -/
def isBlank (c : Char) : Bool := c = ' ' || c = '\t'

/-- A number without blanks around it. -/
def IsNumber (n : ℕ) (text : List Char) : Prop :=
  text ≠ [] ∧ (∀ c ∈ text, c.isDigit = true) ∧ Nat.ofDigitChars 10 text 0 = n

instance (n : ℕ) (text : List Char) : Decidable (IsNumber n text) :=
  inferInstanceAs (Decidable (_ ∧ _))

def contentLength : List Char := "Content-Length:".toList

/-- A `Content-Length` line tells the length of the body. -/
def Frames (n : ℕ) (line : List Char) : Prop :=
  IStartsWith line contentLength →
    IsNumber n (((line.drop contentLength.length).dropWhile isBlank).rdropWhile isBlank)

instance (n : ℕ) (line : List Char) : Decidable (Frames n line) :=
  inferInstanceAs (Decidable (_ → _))

structure Message where
  startLine : List Char
  headers : List (List Char)
  body : List Char
  deriving DecidableEq, Repr

namespace Message

def lines (headers : List (List Char)) : List Char := headers.flatMap (· ++ crlf)

def render (m : Message) : List Char :=
  m.startLine ++ crlf ++ lines m.headers ++ crlf ++ m.body

structure WellFormed (m : Message) : Prop where
  startLine : OneLine m.startLine
  oneLine : ∀ line ∈ m.headers, OneLine line
  ne_nil : ∀ line ∈ m.headers, line ≠ []
  frames : ∀ line ∈ m.headers, Frames m.body.length line

theorem lines_append (headers headers' : List (List Char)) :
    lines (headers ++ headers') = lines headers ++ lines headers' := List.flatMap_append

theorem lines_singleton (line : List Char) : lines [line] = line ++ crlf :=
  List.flatMap_singleton _ _

theorem lines_cons (line : List Char) (headers : List (List Char)) (rest : List Char) :
    lines (line :: headers) ++ rest = line ++ '\r' :: '\n' :: (lines headers ++ rest) := by
  simp [lines, crlf]

/-- The first line is found at the first carriage return. -/
theorem line_inj {line line' a b : List Char} (h : '\r' ∉ line) (h' : '\r' ∉ line')
    (heq : line ++ '\r' :: '\n' :: a = line' ++ '\r' :: '\n' :: b) : line = line' ∧ a = b := by
  induction line generalizing line' with
  | nil =>
    cases line' with
    | nil => exact ⟨rfl, (List.cons.inj (List.cons.inj heq).2).2⟩
    | cons c line' => exact absurd ((List.cons.inj heq).1 ▸ List.mem_cons_self) h'
  | cons c line ih =>
    cases line' with
    | nil => exact absurd ((List.cons.inj heq).1 ▸ List.mem_cons_self) h
    | cons c' line' =>
      obtain ⟨rfl, htail⟩ := List.cons.inj heq
      obtain ⟨rfl, rfl⟩ := ih (mt (List.mem_cons_of_mem c) h) (mt (List.mem_cons_of_mem c) h') htail
      exact ⟨rfl, rfl⟩

/-- No header line begins with the carriage return of the empty line. -/
theorem crlf_ne_lines {line a b : List Char} (h : OneLine line) (hne : line ≠ []) :
    crlf ++ a ≠ line ++ b := by
  cases line with
  | nil => exact absurd rfl hne
  | cons c line =>
    intro heq
    exact h.1 ((List.cons.inj heq).1 ▸ List.mem_cons_self)

theorem lines_inj {headers headers' : List (List Char)} {a b : List Char}
    (h : ∀ line ∈ headers, OneLine line ∧ line ≠ [])
    (h' : ∀ line ∈ headers', OneLine line ∧ line ≠ [])
    (heq : lines headers ++ (crlf ++ a) = lines headers' ++ (crlf ++ b)) :
    headers = headers' ∧ a = b := by
  induction headers generalizing headers' with
  | nil =>
    cases headers' with
    | nil => exact ⟨rfl, List.append_cancel_left heq⟩
    | cons line headers' =>
      obtain ⟨hline, -⟩ := List.forall_mem_cons.1 h'
      rw [lines_cons] at heq
      exact absurd heq (crlf_ne_lines hline.1 hline.2)
  | cons line headers ih =>
    obtain ⟨hline, hheaders⟩ := List.forall_mem_cons.1 h
    rw [lines_cons] at heq
    cases headers' with
    | nil => exact absurd heq.symm (crlf_ne_lines hline.1 hline.2)
    | cons line' headers' =>
      obtain ⟨hline', hheaders'⟩ := List.forall_mem_cons.1 h'
      rw [lines_cons] at heq
      obtain ⟨rfl, hrest⟩ := line_inj hline.1.1 hline'.1.1 heq
      obtain ⟨rfl, rfl⟩ := ih hheaders hheaders' hrest
      exact ⟨rfl, rfl⟩

/-- Two messages have different texts. -/
theorem render_injective {m m' : Message} (h : m.WellFormed) (h' : m'.WellFormed)
    (heq : m.render = m'.render) : m = m' := by
  unfold render at heq
  simp only [List.append_assoc, crlf, List.cons_append, List.nil_append] at heq
  obtain ⟨hstart, heq⟩ := line_inj h.startLine.1 h'.startLine.1 heq
  obtain ⟨hheaders, hbody⟩ := lines_inj (fun line hl => ⟨h.oneLine line hl, h.ne_nil line hl⟩)
    (fun line hl => ⟨h'.oneLine line hl, h'.ne_nil line hl⟩) heq
  obtain ⟨startLine, headers, body⟩ := m
  obtain rfl : startLine = m'.startLine := hstart
  obtain rfl : headers = m'.headers := hheaders
  obtain rfl : body = m'.body := hbody
  rfl

/-- The text is that of the message. -/
def Parses (text : List Char) (m : Message) : Prop := m.WellFormed ∧ m.render = text

/-- A text is that of one message at most. -/
theorem Parses.unique {text : List Char} {m m' : Message} (h : Parses text m)
    (h' : Parses text m') : m = m' :=
  render_injective h.1 h'.1 (h.2.trans h'.2.symm)

end Message

end Http
