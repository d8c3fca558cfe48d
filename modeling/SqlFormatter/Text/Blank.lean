import SqlFormatter.Text.CodeRange

/-!
# SqlFormatter.Text.Blank

The Unicode property White_Space, and trimming by it. Blanks between tokens are a smaller set
(`isGap` in `SqlFormatter.Token.Lexeme`).
-/

namespace SqlFormatter

/-- The code points that are White_Space. -/
def blankRanges : List CodeRange := [
  (0x9, 0xD), (0x20, 0x20), (0x85, 0x85), (0xA0, 0xA0), (0x1680, 0x1680), (0x2000, 0x200A),
  (0x2028, 0x2029), (0x202F, 0x202F), (0x205F, 0x205F), (0x3000, 0x3000)
]

/-- Whether `c` is White_Space. -/
def isBlank (c : Char) : Bool :=
  inRanges blankRanges c

/-- The text without the blanks at its two ends. -/
def trimBlanks (text : List Char) : List Char :=
  ((text.dropWhile isBlank).reverse.dropWhile isBlank).reverse

end SqlFormatter
