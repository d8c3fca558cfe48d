import SqlFormatter.Text.Alphabetic
import SqlFormatter.Text.Blank
import SqlFormatter.Text.Numeric
import SqlFormatter.Token.Basic
import SqlFormatter.Token.Number

/-!
# SqlFormatter.Token.Lexeme

Cutting one lexeme off a text that does not start with a gap. Each function below reads one class of
lexeme; `Lexeme.read` chooses among them by the first character, and for a minus also by the kind
of the token before.

* `Lexeme.read_append`: the lexeme and what is left of the text are the text.
* `Lexeme.text_ne_nil_of_ok`: a lexeme that gives a token is not empty.
-/

namespace SqlFormatter

/-- Whether `c` may stand between tokens. -/
def isGap (c : Char) : Bool := c == ' ' || c == '\t' || c == '\n' || c == '\r'

/-- Whether `c` may start an identifier. -/
def isLetter (c : Char) : Bool :=
  if c.toNat < 128 then c.isAlpha || c == '_' else isForeignLetter c

/-- Whether `c` may stand in an identifier. -/
def isWordChar (c : Char) : Bool :=
  isLetter c || (if c.toNat < 128 then c.isDigit else isForeignDigit c)

/-- The kind of token that a number ending in this part is. -/
def NumberPart.kind : NumberPart → Kind
  | whole => .integer
  | fraction | exponent => .real

/-- The kind of token that the word is. -/
def wordKind (word : List Char) : Kind := ((Keyword.ofText? word).map .keyword).getD .ident

/-- The kinds of token of one character that starts no longer token, or does so only with one
particular character after it. -/
def singleKind? (c : Char) : Option Kind :=
  match c with
  | '+' => some .plus
  | '*' => some .star
  | '%' => some .percent
  | '(' => some .leftParen
  | ')' => some .rightParen
  | ',' => some .comma
  | ';' => some .semicolon
  | '.' => some .dot
  | '=' => some .eq
  | '<' => some .lt
  | '>' => some .gt
  | _ => none

/-- The kinds of token of two characters, comment markers apart. -/
def pairKind? (c d : Char) : Option Kind :=
  if c = '<' ∧ d = '=' then some .ltEq
  else if c = '<' ∧ d = '>' then some .notEq
  else if c = '>' ∧ d = '=' then some .gtEq
  else if c = '!' ∧ d = '=' then some .notEq
  else none

/-- A lexeme: its text, what is left, and the kind of token that it is or why it is none. -/
abbrev Lexeme := Cut (Except LexFault Kind)

namespace Lexeme

/-- A keyword or an identifier. -/
def word (cs : List Char) : Lexeme :=
  ⟨cs.takeWhile isWordChar, cs.dropWhile isWordChar, .ok (wordKind (cs.takeWhile isWordChar))⟩

/-- A number whose sign, if any, has been read. -/
def number (expired : Bool) (sign digits : List Char) : Lexeme :=
  if expired then ⟨sign, digits, .error .deadlineExceeded⟩
  else
    let r := readNumber .whole digits
    match r.result with
    | .ok part => ⟨sign ++ r.text, r.rest, .ok part.kind⟩
    | .error fault =>
      ⟨sign ++ r.text, r.rest,
        .error (.malformedNumber (String.ofList (sign ++ r.text ++ r.rest.take 1)) fault)⟩

/-- A text between quotation marks, the first of which has been read. There is no way to write
the mark itself inside. -/
def quoted (expired : Bool) (cs : List Char) : Lexeme :=
  if expired then ⟨[singleQuote], cs, .error .deadlineExceeded⟩
  else
    match cs.dropWhile (· != singleQuote) with
    | [] => ⟨singleQuote :: cs, [], .error .unterminatedString⟩
    | q :: rest => ⟨singleQuote :: cs.takeWhile (· != singleQuote) ++ [q], rest, .ok .string⟩

/-- A comment that ends before the end of the line, of which `marker` has been read. -/
def lineComment (marker cs : List Char) : Lexeme :=
  ⟨marker ++ cs.takeWhile (· != '\n'), cs.dropWhile (· != '\n'), .ok .comment⟩

/-- The part of a block comment after its first two characters. -/
def blockTail : List Char → Lexeme
  | [] => ⟨[], [], .error .unterminatedComment⟩
  | [c] => ⟨[c], [], .error .unterminatedComment⟩
  | c :: d :: cs =>
    if c = '*' ∧ d = '/' then ⟨[c, d], cs, .ok .comment⟩ else (blockTail (d :: cs)).after [c]

/-- A block comment, of which the first two characters have been read. -/
def blockComment (expired : Bool) (cs : List Char) : Lexeme :=
  if expired then ⟨['/', '*'], cs, .error .deadlineExceeded⟩
  else (blockTail cs).after ['/', '*']

/-- A lexeme that starts with a minus, which has been read. Two of them start a comment if a blank
or the end of input follows. -/
def dash (expired : Bool) (previous : Kind) : List Char → Lexeme
  | [] => ⟨['-'], [], .ok .minus⟩
  | c :: cs =>
    if c = '-' ∧ cs.head?.all isBlank then lineComment ['-', '-'] cs
    else if c.isDigit ∧ previous.endsOperand = false then number expired ['-'] (c :: cs)
    else ⟨['-'], c :: cs, .ok .minus⟩

/-- A lexeme that starts with a slash, which has been read. -/
def slash (expired : Bool) : List Char → Lexeme
  | [] => ⟨['/'], [], .ok .slash⟩
  | c :: cs => if c = '*' then blockComment expired cs else ⟨['/'], c :: cs, .ok .slash⟩

/-- A character that is a token of its own, or starts none. -/
def single (c : Char) (cs : List Char) : Lexeme :=
  ⟨[c], cs, .ok ((singleKind? c).getD .illegal)⟩

/-- A lexeme of one or two characters. -/
def symbol (c : Char) : List Char → Lexeme
  | [] => single c []
  | d :: cs =>
    match pairKind? c d with
    | some kind => ⟨[c, d], cs, .ok kind⟩
    | none => single c (d :: cs)

/-- The lexeme at the front of `c :: cs`, after a token of kind `previous`. If the time for
scanning is over (`expired`), no number, text or block comment is read. -/
def read (expired : Bool) (previous : Kind) (c : Char) (cs : List Char) : Lexeme :=
  if isLetter c then word (c :: cs)
  else if c.isDigit then number expired [] (c :: cs)
  else if c = singleQuote then quoted expired cs
  else if c = '#' then lineComment ['#'] cs
  else if c = '-' then dash expired previous cs
  else if c = '/' then slash expired cs
  else symbol c cs

theorem blockTail_append (cs : List Char) : (blockTail cs).text ++ (blockTail cs).rest = cs := by
  fun_induction blockTail cs <;> simp_all

theorem number_append (expired : Bool) (sign digits : List Char) :
    (number expired sign digits).text ++ (number expired sign digits).rest = sign ++ digits := by
  have h := readNumber_append .whole digits
  unfold number
  split
  · simp
  · dsimp only
    split <;> simp [List.append_assoc, h]

theorem quoted_append (expired : Bool) (cs : List Char) :
    (quoted expired cs).text ++ (quoted expired cs).rest = singleQuote :: cs := by
  unfold quoted
  split
  · simp
  · split
    · simp
    · next q rest h =>
      have := List.takeWhile_append_dropWhile (p := (· != singleQuote)) (l := cs)
      rw [h] at this
      simp [this]

theorem lineComment_append (marker cs : List Char) :
    (lineComment marker cs).text ++ (lineComment marker cs).rest = marker ++ cs := by
  simp [lineComment, List.append_assoc, List.takeWhile_append_dropWhile]

theorem dash_append (expired : Bool) (previous : Kind) (cs : List Char) :
    (dash expired previous cs).text ++ (dash expired previous cs).rest = '-' :: cs := by
  cases cs with
  | nil => rfl
  | cons c cs =>
    simp only [dash]
    split
    · next h => rw [lineComment_append, h.1]; rfl
    · split
      · exact number_append expired ['-'] (c :: cs)
      · rfl

theorem slash_append (expired : Bool) (cs : List Char) :
    (slash expired cs).text ++ (slash expired cs).rest = '/' :: cs := by
  cases cs with
  | nil => rfl
  | cons c cs =>
    simp only [slash, blockComment]
    split
    · next h => subst h; split <;> simp [blockTail_append]
    · rfl

theorem symbol_append (c : Char) (cs : List Char) :
    (symbol c cs).text ++ (symbol c cs).rest = c :: cs := by
  cases cs with
  | nil => rfl
  | cons d cs => simp only [symbol]; split <;> rfl

/-- Nothing is lost or reordered. -/
theorem read_append (expired : Bool) (previous : Kind) (c : Char) (cs : List Char) :
    (read expired previous c cs).text ++ (read expired previous c cs).rest = c :: cs := by
  unfold read
  split
  · simp [word, List.takeWhile_append_dropWhile]
  · split
    · simpa using number_append expired [] (c :: cs)
    · split
      · next h => rw [h]; exact quoted_append expired cs
      · split
        · next h => rw [lineComment_append, h]; rfl
        · split
          · next h => rw [h]; exact dash_append expired previous cs
          · split
            · next h => rw [h]; exact slash_append expired cs
            · exact symbol_append c cs

theorem word_text_ne_nil {c : Char} (cs : List Char) (h : isLetter c = true) :
    (word (c :: cs)).text ≠ [] := by
  simp [word, isWordChar, h]

theorem number_text_ne_nil {c : Char} (sign cs : List Char) (h : c.isDigit = true) :
    (number false sign (c :: cs)).text ≠ [] := by
  have hc : (readNumber .whole (c :: cs)).text ≠ [] := by
    simp [readNumber_digit h]
  simp only [number, Bool.false_eq_true, if_false]
  split <;> simp [hc]

theorem quoted_text_ne_nil (expired : Bool) (cs : List Char) : (quoted expired cs).text ≠ [] := by
  unfold quoted
  split
  · simp
  · split <;> simp

theorem dash_text_ne_nil (expired : Bool) (previous : Kind) (cs : List Char) :
    (dash expired previous cs).text ≠ [] := by
  cases cs with
  | nil => simp [dash]
  | cons c cs =>
    simp only [dash]
    split
    · simp [lineComment]
    · split
      · simp only [number]
        split
        · simp
        · split <;> simp
      · simp

theorem slash_text_ne_nil (expired : Bool) (cs : List Char) : (slash expired cs).text ≠ [] := by
  cases cs with
  | nil => simp [slash]
  | cons c cs =>
    simp only [slash, blockComment]
    split
    · split <;> simp
    · simp

theorem symbol_text_ne_nil (c : Char) (cs : List Char) : (symbol c cs).text ≠ [] := by
  cases cs with
  | nil => simp [symbol, single]
  | cons d cs => simp only [symbol, single]; split <;> simp

/-- Only a number that the deadline cuts off can be empty. -/
theorem text_ne_nil_of_ok {expired : Bool} {previous kind : Kind} {c : Char} {cs : List Char}
    (h : (read expired previous c cs).result = .ok kind) :
    (read expired previous c cs).text ≠ [] := by
  unfold read at *
  split
  · next hc => exact word_text_ne_nil cs hc
  · split
    · next hl hd =>
      cases expired with
      | false => exact number_text_ne_nil [] cs hd
      | true => simp [hl, hd, number] at h
    · split
      · exact quoted_text_ne_nil expired cs
      · split
        · simp [lineComment]
        · split
          · exact dash_text_ne_nil expired previous cs
          · split
            · exact slash_text_ne_nil expired cs
            · exact symbol_text_ne_nil c cs

/-- What is left after a token is shorter. -/
theorem rest_length_lt_of_ok {expired : Bool} {previous kind : Kind} {c : Char} {cs : List Char}
    (h : (read expired previous c cs).result = .ok kind) :
    (read expired previous c cs).rest.length < (c :: cs).length := by
  have happend := congrArg List.length (read_append expired previous c cs)
  have hpos := List.length_pos_iff.2 (text_ne_nil_of_ok h)
  rw [List.length_append] at happend
  omega

end Lexeme

end SqlFormatter
