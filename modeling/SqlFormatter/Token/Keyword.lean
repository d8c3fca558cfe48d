/-!
# SqlFormatter.Token.Keyword

The reserved words. A keyword is written in any mixture of cases and looked up without regard to
case; cases are those of ASCII.
-/

namespace SqlFormatter

/-- The reserved words, named as they are spelled in upper case. -/
inductive Keyword where
  | SELECT | FROM | WHERE | GROUP | ORDER | BY
  /-- Introduces an alias. -/
  | AS
  | CASE | WHEN | THEN | ELSE | END
  | AND | OR | IS | NULL
  deriving DecidableEq, Repr

namespace Keyword

/-- Every keyword. -/
def all : List Keyword :=
  [SELECT, FROM, WHERE, GROUP, ORDER, BY, AS, CASE, WHEN, THEN, ELSE, END, AND, OR, IS, NULL]

/-- The keyword in upper case. -/
def word : Keyword → String
  | SELECT => "SELECT"
  | FROM => "FROM"
  | WHERE => "WHERE"
  | GROUP => "GROUP"
  | ORDER => "ORDER"
  | BY => "BY"
  | AS => "AS"
  | CASE => "CASE"
  | WHEN => "WHEN"
  | THEN => "THEN"
  | ELSE => "ELSE"
  | END => "END"
  | AND => "AND"
  | OR => "OR"
  | IS => "IS"
  | NULL => "NULL"

/-- The keyword that `text` spells in some mixture of cases. -/
def ofText? (text : List Char) : Option Keyword :=
  all.find? fun k => k.word.toList == text.map Char.toUpper

theorem mem_all (k : Keyword) : k ∈ all := by cases k <;> decide

theorem ofText?_word (k : Keyword) : ofText? k.word.toList = some k := by cases k <;> decide

end Keyword

end SqlFormatter
