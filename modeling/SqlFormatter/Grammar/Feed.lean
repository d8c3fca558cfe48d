import SqlFormatter.Statement.Comment
import SqlFormatter.Token.Scanner

/-!
# SqlFormatter.Grammar.Feed

What the grammar sees of a text: the tokens without the comments. The feed of a scanner keeps with
each token the comments before it and the scanner after it, so that a parser that stops at a token
knows all that was read by then.

Comments that are followed by an error in place of a token belong to no token and are dropped.
-/

namespace SqlFormatter

/-- A token that is no comment, and what stands around it. -/
structure Piece where
  /-- The comments between the token before and this one. -/
  comments : List Comment
  /-- The token. -/
  token : Token
  /-- The scanner behind the token. -/
  after : Scanner
  deriving Repr

/-- The group of the comments before the token, if there are any. -/
def Piece.group? (p : Piece) : Option CommentGroup :=
  (NonemptyList.ofList? p.comments).map CommentGroup.mk

/-- The tokens of a text from some place on, comments apart. -/
structure Feed where
  /-- The pieces before the end of input or the first error. -/
  pieces : List Piece
  /-- The piece of the end of input, or the error. -/
  closing : Except LexError Piece
  /-- The scanner behind all of them. -/
  last : Scanner

namespace Feed

/-- The tokens before the end of input or the first error. -/
def tokens (f : Feed) : List Token := f.pieces.map Piece.token

/-- The comment groups of all pieces, the closing one included. -/
def groups (f : Feed) : List CommentGroup :=
  f.pieces.filterMap Piece.group? ++ (f.closing.toOption.bind Piece.group?).toList

end Feed

/-- The feed from `s` on, where `before` are comments that stand just before it. -/
def Scanner.feedAfter (s : Scanner) (before : List Comment) : Feed :=
  match h : s.scan with
  | (.error e, s') => ⟨[], .error e, s'⟩
  | (.ok t, s') =>
    if ht : t.kind = .endOfInput then ⟨[], .ok ⟨before, t, s'⟩, s'⟩
    else
      have := rest_length_lt_of_scan_eq_ok h ht
      if t.kind = .comment then s'.feedAfter (before ++ [⟨t.pos, t.text⟩])
      else
        let feed := s'.feedAfter []
        { feed with pieces := ⟨before, t, s'⟩ :: feed.pieces }
termination_by s.rest.length

/-- The feed from `s` on. -/
def Scanner.feed (s : Scanner) : Feed := s.feedAfter []

/-! ### One step of a feed -/

namespace Scanner

variable {s s' : Scanner} {t : Token}

theorem feedAfter_of_error {e : LexError} (h : s.scan = (.error e, s')) (before : List Comment) :
    s.feedAfter before = ⟨[], .error e, s'⟩ := by
  rw [feedAfter]
  split
  · next h' => cases h.symm.trans h'; rfl
  · next h' => cases h.symm.trans h'

theorem feedAfter_of_endOfInput (h : s.scan = (.ok t, s')) (ht : t.kind = .endOfInput)
    (before : List Comment) : s.feedAfter before = ⟨[], .ok ⟨before, t, s'⟩, s'⟩ := by
  rw [feedAfter]
  split
  · next h' => cases h.symm.trans h'
  · next h' => cases h.symm.trans h'; rw [dif_pos ht]

theorem feedAfter_of_comment (h : s.scan = (.ok t, s')) (ht : t.kind = .comment)
    (before : List Comment) :
    s.feedAfter before = s'.feedAfter (before ++ [⟨t.pos, t.text⟩]) := by
  rw [feedAfter]
  split
  · next h' => cases h.symm.trans h'
  · next h' =>
    cases h.symm.trans h'
    rw [dif_neg (by simp [ht]), if_pos ht]

theorem feedAfter_of_token (h : s.scan = (.ok t, s')) (hend : t.kind ≠ .endOfInput)
    (hcomment : t.kind ≠ .comment) (before : List Comment) :
    s.feedAfter before =
      { s'.feed with pieces := ⟨before, t, s'⟩ :: s'.feed.pieces } := by
  rw [feedAfter]
  split
  · next h' => cases h.symm.trans h'
  · next h' =>
    cases h.symm.trans h'
    rw [dif_neg hend, if_neg hcomment]
    rfl

end Scanner

end SqlFormatter
