import SqlFormatter.Expr.Range
import SqlFormatter.NonemptyList
import SqlFormatter.Text.Blank

/-!
# SqlFormatter.Statement.Comment

Comments with their markers, in groups: a group is a run of comments with no other token between
them.
-/

namespace SqlFormatter

/-- A comment. -/
structure Comment where
  /-- The position of the marker. -/
  pos : Nat
  /-- The text with its markers. -/
  text : String
  deriving DecidableEq, Repr

/-- The text before an end marker of a block comment, or the whole text if there is none at the
end. -/
def dropBlockEnd (text : List Char) : List Char :=
  match text.reverse with
  | '/' :: '*' :: body => body.reverse
  | _ => text

namespace Comment

/-- The piece of source that the comment covers. -/
def range (c : Comment) : Range := ⟨c.pos, c.pos + byteLength c.text.toList⟩

/-- Whether the comment has an end marker. -/
def isBlock (c : Comment) : Bool := c.text.toList.take 2 == ['/', '*']

/-- The text between the markers, without the blanks at its ends. -/
def body (c : Comment) : String :=
  String.ofList <| trimBlanks <|
    match c.text.toList with
    | '/' :: '*' :: rest => dropBlockEnd rest
    | '-' :: '-' :: rest => rest
    | '#' :: rest => rest
    | rest => rest

end Comment

/-- A run of comments with no other token between them. -/
structure CommentGroup where
  /-- The comments in order. -/
  comments : NonemptyList Comment
  deriving DecidableEq, Repr

namespace CommentGroup

/-- The group of the comments, of which there must be one. -/
def ofList (comments : List Comment) : Except Violation CommentGroup :=
  match NonemptyList.ofList? comments with
  | none => .error .noComments
  | some comments => .ok ⟨comments⟩

/-- The comments in order. -/
def toList (g : CommentGroup) : List Comment := g.comments.toList

/-- The bodies of the comments, one to a line. -/
def text (g : CommentGroup) : String := "\n".intercalate (g.toList.map Comment.body)

/-- The piece of source from the first comment to the last. -/
def range (g : CommentGroup) : Range := ⟨g.comments.first.range.pos, g.comments.last.range.stop⟩

end CommentGroup

end SqlFormatter
