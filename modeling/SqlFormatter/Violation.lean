/-!
# SqlFormatter.Violation

The ways to break the rules that the operations of the library lay down for their callers. An
operation with such a rule checks it and returns the violation in place of a result.
-/

namespace SqlFormatter

/-- A rule for callers that was broken. -/
inductive Violation where
  /-- A file is to be placed at `base`, before the first position that is free. -/
  | baseTaken (base next : Nat)
  /-- There are not enough positions for a file of `size` bytes at `base`. -/
  | positionsExhausted (size base : Nat)
  /-- The file has no byte offset `offset`. -/
  | offsetOutside (offset size : Nat)
  /-- The position does not belong to the file, which owns those from `first` to `last`. -/
  | positionOutside (pos : Nat) (name : String) (first last : Nat)
  /-- The text to scan is not as long as the file that it is said to be. -/
  | sizeMismatch (size length : Nat)
  /-- A SELECT clause needs a column. -/
  | noColumns
  /-- A FROM clause needs a table. -/
  | noTables
  /-- A GROUP BY clause needs an expression. -/
  | noGroups
  /-- An ORDER BY clause needs an expression. -/
  | noOrders
  /-- A CASE expression needs an arm. -/
  | noArms
  /-- A comment group needs a comment. -/
  | noComments
  deriving DecidableEq, Repr

namespace Violation

/-- The text of the violation. -/
def message : Violation → String
  | baseTaken base next => s!"illegal base {base} (next base is {next})"
  | positionsExhausted size base => s!"position overflow registering {size} bytes at {base}"
  | offsetOutside offset size => s!"illegal file offset {offset} (file size {size})"
  | positionOutside pos name first last =>
    s!"position {pos} outside file {name} [{first}, {last}]"
  | sizeMismatch size length =>
    s!"file size ({size}) does not match source length ({length})"
  | noColumns => "SELECT clause without columns"
  | noTables => "FROM clause without tables"
  | noGroups => "GROUP BY clause without expressions"
  | noOrders => "ORDER BY clause without expressions"
  | noArms => "CASE expression without WHEN arms"
  | noComments => "empty comment group"

end Violation

end SqlFormatter
