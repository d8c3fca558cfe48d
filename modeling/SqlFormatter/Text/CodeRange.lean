/-!
# SqlFormatter.Text.CodeRange

Character classes given as inclusive ranges of code points. The tables of this folder are such
lists, each for one property of the Unicode character database, version 17.0.
-/

namespace SqlFormatter

/-- An inclusive range of code points, first and last. -/
abbrev CodeRange := Nat × Nat

/-- Whether the code point of `c` lies in one of the ranges. -/
def inRanges (ranges : List CodeRange) (c : Char) : Bool :=
  ranges.any fun r => r.1 ≤ c.toNat && c.toNat ≤ r.2

end SqlFormatter
