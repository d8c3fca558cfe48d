import SqlFormatter.Expr.Operator
import SqlFormatter.NonemptyList

/-!
# SqlFormatter.Layout.Style

What may vary in the layout of a statement, and the pieces of text that depend on it.
-/

namespace SqlFormatter

/-- What may vary in the layout of a statement. -/
structure Style where
  /-- The number of blanks before an item of a clause. -/
  indentWidth : Nat := 4
  /-- Whether a semicolon ends the statement. -/
  semicolon : Bool := true
  /-- What ends a line. -/
  newline : String := "\n"
  /-- Whether keywords are written in upper case, otherwise in lower case. -/
  capitals : Bool := true
  deriving DecidableEq, Repr

namespace Style

/-- The keyword in this style. -/
def keyword (style : Style) (k : Keyword) : String :=
  if style.capitals then k.word else k.word.toLower

/-- The operator in this style: a word is written like a keyword. -/
def operator (style : Style) (op : BinaryOp) : String :=
  if style.capitals || !op.isLogical then op.word else op.word.toLower

/-- Ends a line, and indents the next one. -/
def indentedLine (style : Style) : String :=
  style.newline ++ String.ofList (List.replicate style.indentWidth ' ')

/-- Words on a line, and below them the items, one to a line and with `separator` between them. -/
def block (style : Style) (words separator : String) (items : NonemptyList String) : String :=
  words ++ style.indentedLine ++
    (separator ++ style.indentedLine).intercalate items.toList ++ style.newline

end Style

end SqlFormatter
