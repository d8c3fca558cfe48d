import SqlFormatter.Expr.Basic

/-!
# SqlFormatter.Expr.Range

The piece of source that an expression covers: from the first byte of its first token to just past
the last byte of its last token.
-/

namespace SqlFormatter

/-- A piece of source, from `pos` to just before `stop`. -/
structure Range where
  /-- The position of the first byte. -/
  pos : Nat
  /-- The position just past the last byte. -/
  stop : Nat
  deriving DecidableEq, Repr

/-- The range of a node that is not there. -/
def Range.absent : Range := ⟨nowhere, nowhere⟩

/-- The range of a name. -/
def Name.range (n : Name) : Range := ⟨n.pos, n.stop⟩

namespace Expr

/-- The position of the first byte. -/
def pos : Expr → Nat
  | column none name => name.pos
  | column (some table) _ => table.pos
  | literal pos _ _ => pos
  | wildcard pos => pos
  | unary opPos _ _ => opPos
  | binary x _ _ _ => x.pos
  | call function _ _ _ => function.pos
  | case pos _ _ _ _ _ => pos
  | isNull x _ _ => x.pos
  | paren lparen _ _ => lparen

/-- The position just past the last byte. -/
def stop : Expr → Nat
  | column _ name => name.stop
  | literal pos _ text => pos + byteLength text.toList
  | wildcard pos => pos + 1
  | unary _ _ x => x.stop
  | binary _ _ _ y => y.stop
  | call _ _ _ rparen => rparen + 1
  | case _ _ _ _ _ endPos => endPos + 3
  | isNull _ _ nullPos => nullPos + 4
  | paren _ _ rparen => rparen + 1

/-- The piece of source that the expression covers. -/
def range (e : Expr) : Range := ⟨e.pos, e.stop⟩

end Expr

/-- The piece of source that the arm covers. -/
def Arm.range (a : Arm) : Range := ⟨a.pos, a.result.stop⟩

/-- The piece of source that the last part of a choice covers. -/
def Otherwise.range (o : Otherwise) : Range := ⟨o.pos, o.result.stop⟩

end SqlFormatter
