import SqlFormatter.Text.Graphic

/-!
# SqlFormatter.Text.Quoted

Characters and texts between quotation marks, as diagnostics and log lines show them: on one line,
with every character visible and the marks escaped.
-/

namespace SqlFormatter

/-- The single quotation mark. -/
def singleQuote : Char := '\x27'

/-- The double quotation mark. -/
def doubleQuote : Char := '\x22'

/-- The backslash. -/
def backslash : Char := '\x5c'

/-- The digits of `n` to the base sixteen, in lower case. -/
def hexDigits (n : Nat) : String :=
  String.ofList (Nat.toDigits 16 n)

/-- The text for `c` between two `mark`s. -/
def escapeChar (mark c : Char) : String :=
  if c = '\x00' then "\\0"
  else if c = '\t' then "\\t"
  else if c = '\r' then "\\r"
  else if c = '\n' then "\\n"
  else if c = mark ∨ c = backslash then String.ofList [backslash, c]
  else if isGraphic c then c.toString
  else "\\u\x7b" ++ hexDigits c.toNat ++ "\x7d"

/-- A character between single quotation marks. -/
def quoteChar (c : Char) : String :=
  singleQuote.toString ++ escapeChar singleQuote c ++ singleQuote.toString

/-- A text between double quotation marks. -/
def quoteText (text : String) : String :=
  doubleQuote.toString ++ String.join (text.toList.map (escapeChar doubleQuote)) ++
    doubleQuote.toString

end SqlFormatter
