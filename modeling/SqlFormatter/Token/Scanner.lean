import SqlFormatter.Token.Lexeme

/-!
# SqlFormatter.Token.Scanner

A scanner stands at a byte offset of the text of one registered file. `scan` gives the next token
and the scanner after it; a scanner is a value, so that one can scan on from it as often as wanted.

* A scan moves the scanner over the gap before the token and over the token. After an error it
  stands where the fault was found, and can be scanned on from there.
* The file of the scanner knows the line starts in the part of the text that the scanner has left
  behind (`lineStarts`).
* Every problem is counted, and reported as it is found (`Scanner.report`).
-/

namespace SqlFormatter

/-- A place in the text of a file, and what is remembered of the text before it. -/
structure Scanner where
  /-- The file, with the lines known so far. -/
  file : File
  /-- The text from here on. -/
  rest : List Char
  /-- The number of bytes before `rest`. -/
  offset : Nat := 0
  /-- The kind of the last token that was no comment. -/
  previous : Kind := .endOfInput
  /-- Whether the time for scanning is over. -/
  expired : Bool := false
  /-- The number of problems met. -/
  errorCount : Nat := 0
  /-- What was reported of them, in order. -/
  reports : List Report := []
  deriving Repr

/-- The mark that may stand before a text. -/
def byteOrderMark : Char := '\ufeff'

/-- The offsets just past the newlines in `text`, which starts at `offset`. -/
def lineStarts (offset : Nat) : List Char → List Nat
  | [] => []
  | c :: cs =>
    let next := offset + c.utf8Size
    if c = '\n' then next :: lineStarts next cs else lineStarts next cs

namespace Scanner

/-- The position of the first byte of the text from here on. -/
def pos (s : Scanner) : Nat := s.file.base + s.offset

/-- Moves over `text`, which leaves `rest`. -/
def advance (s : Scanner) (text rest : List Char) : Scanner :=
  { s with
    file := s.file.addLines (lineStarts s.offset text)
    rest
    offset := s.offset + byteLength text }

/-- The scanner at the start of `text`, which must have the size of the file. A byte order mark is
passed over. -/
def ofText (file : File) (text : String) (expired : Bool := false) : Except Violation Scanner :=
  let cs := text.toList
  if file.size = byteLength cs then
    let start : Scanner := { file, rest := cs, expired }
    match cs with
    | [] => .ok start
    | c :: rest => .ok (if c = byteOrderMark then start.advance [c] rest else start)
  else .error (.sizeMismatch file.size (byteLength cs))

/-- Moves to the first character that is not in a gap. -/
def skipGap (s : Scanner) : Scanner := s.advance (s.rest.takeWhile isGap) (s.rest.dropWhile isGap)

/-- Counts a problem and reports it. -/
def report (s : Scanner) (r : Report) : Scanner :=
  { s with errorCount := s.errorCount + 1, reports := s.reports ++ [r] }

/-- The outcome of a scan that found the lexeme `l`, which starts with `c`, at `s`. -/
def settle (s : Scanner) (c : Char) (l : Lexeme) : Except LexError Token × Scanner :=
  let after := s.advance l.text l.rest
  match l.result with
  | .error fault =>
    let error : LexError := ⟨s.pos, fault⟩
    (.error error, after.report (.fatal error))
  | .ok .comment => (.ok ⟨s.pos, .comment, String.ofList l.text⟩, after)
  | .ok .illegal =>
    (.ok ⟨s.pos, .illegal, String.ofList l.text⟩,
      { after.report (.illegalCharacter s.pos c) with previous := .illegal })
  | .ok kind => (.ok ⟨s.pos, kind, String.ofList l.text⟩, { after with previous := kind })

/-- The next token, or why there is none, and the scanner after it. At the end of the text every
scan gives the end of input. -/
def scan (s : Scanner) : Except LexError Token × Scanner :=
  let s := s.skipGap
  match s.rest with
  | [] => (.ok (.endOfInput s.pos), s)
  | c :: cs => s.settle c (Lexeme.read s.expired s.previous c cs)

@[simp] theorem rest_advance (s : Scanner) (text rest : List Char) :
    (s.advance text rest).rest = rest := rfl

@[simp] theorem rest_settle (s : Scanner) (c : Char) (l : Lexeme) :
    (s.settle c l).2.rest = l.rest := by
  unfold settle
  dsimp only
  split <;> rfl

theorem result_of_settle_eq_ok {s : Scanner} {c : Char} {l : Lexeme} {t : Token}
    (h : (s.settle c l).1 = .ok t) : l.result = .ok t.kind := by
  unfold settle at h
  dsimp only at h
  split at h <;> cases h <;> assumption

/-- A scanner that settles a lexeme behind the gap moves on, if the lexeme leaves less. -/
theorem rest_length_lt_of_settle {s s' : Scanner} {c : Char} {l : Lexeme}
    {outcome : Except LexError Token} (h : s.skipGap.settle c l = (outcome, s'))
    (hlt : l.rest.length < s.skipGap.rest.length) : s'.rest.length < s.rest.length := by
  have hgap : s.skipGap.rest.length ≤ s.rest.length := (List.dropWhile_sublist _).length_le
  have hrest := congrArg (fun r => r.2.rest) h
  simp only [rest_settle] at hrest
  rw [← hrest]
  exact Nat.lt_of_lt_of_le hlt hgap

/-- A scan that gives a token moves on, but at the end of the text. -/
theorem rest_length_lt_of_scan_eq_ok {s s' : Scanner} {t : Token} (h : s.scan = (.ok t, s'))
    (ht : t.kind ≠ .endOfInput) : s'.rest.length < s.rest.length := by
  unfold scan at h
  dsimp only at h
  split at h
  · cases h
    exact absurd rfl ht
  · next c cs hcons =>
    refine rest_length_lt_of_settle h ?_
    rw [hcons]
    exact Lexeme.rest_length_lt_of_ok (result_of_settle_eq_ok (congrArg Prod.fst h))

/-- All tokens up to the end of input, which is the last one, or the first error; and the scanner
after them. -/
def tokenize (s : Scanner) : Except LexError (List Token) × Scanner :=
  match h : s.scan with
  | (.error e, s') => (.error e, s')
  | (.ok t, s') =>
    if ht : t.kind = .endOfInput then (.ok [t], s')
    else
      have := rest_length_lt_of_scan_eq_ok h ht
      let (tokens, last) := s'.tokenize
      (tokens.map (t :: ·), last)
termination_by s.rest.length

end Scanner

end SqlFormatter
