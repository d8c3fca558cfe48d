import SqlFormatter.Text.Quoted

/-!
# SqlFormatter.Text.Json

JSON documents whose objects keep the order of their fields, and their text over several lines: two
spaces for each level, one item or field to a line.
-/

namespace SqlFormatter

/-- A JSON document of naturals and texts. -/
inductive Json where
  | null
  | number (n : Nat)
  | text (t : String)
  | list (items : List Json)
  | object (fields : List (String × Json))

namespace Json

/-- The characters for `c` in a JSON string. -/
def escape (c : Char) : String :=
  if c = doubleQuote ∨ c = backslash then String.ofList [backslash, c]
  else if c = '\x08' then "\\b"
  else if c = '\t' then "\\t"
  else if c = '\n' then "\\n"
  else if c = '\x0c' then "\\f"
  else if c = '\r' then "\\r"
  else if c.toNat < 0x10 then "\\u000" ++ hexDigits c.toNat
  else if c.toNat < 0x20 then "\\u00" ++ hexDigits c.toNat
  else c.toString

/-- A JSON string. -/
def quote (t : String) : String :=
  doubleQuote.toString ++ String.join (t.toList.map escape) ++ doubleQuote.toString

/-- The start of a line at the given level. -/
def lineStart (level : Nat) : String :=
  String.ofList ('\n' :: List.replicate (2 * level) ' ')

mutual

/-- The text of a document that stands at the given level. -/
def prettyAt (level : Nat) : Json → String
  | null => "null"
  | number n => toString n
  | text t => quote t
  | list [] => "[]"
  | list (item :: items) =>
    "[" ++ lineStart (level + 1) ++ item.prettyAt (level + 1) ++ moreItems level items ++
      lineStart level ++ "]"
  | object [] => "\x7b\x7d"
  | object ((name, value) :: fields) =>
    "\x7b" ++ lineStart (level + 1) ++ quote name ++ ": " ++ value.prettyAt (level + 1) ++
      moreFields level fields ++ lineStart level ++ "\x7d"

/-- The text of the items after the first of a list at the given level. -/
def moreItems (level : Nat) : List Json → String
  | [] => ""
  | item :: items =>
    "," ++ lineStart (level + 1) ++ item.prettyAt (level + 1) ++ moreItems level items

/-- The text of the fields after the first of an object at the given level. -/
def moreFields (level : Nat) : List (String × Json) → String
  | [] => ""
  | (name, value) :: fields =>
    "," ++ lineStart (level + 1) ++ quote name ++ ": " ++ value.prettyAt (level + 1) ++
      moreFields level fields

end

/-- The text of the document. -/
def pretty (j : Json) : String := j.prettyAt 0

end Json

end SqlFormatter
