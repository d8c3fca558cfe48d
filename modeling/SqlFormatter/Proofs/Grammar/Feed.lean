import SqlFormatter.Grammar.Feed
import SqlFormatter.Proofs.Token.Tokenize

/-!
# SqlFormatter.Proofs.Grammar.Feed

The feed of a scanner and the tokens of `Scanner.tokenize` are two views of one text: the feed has
the tokens that are no comments, the comments in its groups, and the same error if there is one.
-/

namespace SqlFormatter

namespace Token

/-- Whether the grammar sees the token: it is no comment and not the end of input. -/
def isProper (t : Token) : Bool := t.kind != .comment && t.kind != .endOfInput

/-- The comment that the token is. -/
def comment? (t : Token) : Option Comment :=
  if t.kind = .comment then some ⟨t.pos, t.text⟩ else none

end Token

/-- The comments of the group before a piece are those of the piece. -/
theorem Piece.toList_group? (p : Piece) :
    p.group?.toList.flatMap CommentGroup.toList = p.comments := by
  unfold Piece.group?
  cases p.comments with
  | nil => rfl
  | cons c cs => simp [NonemptyList.ofList?, CommentGroup.toList, NonemptyList.toList]

namespace Feed

/-- All comments of the feed, in order. -/
def comments (f : Feed) : List Comment := f.groups.flatMap CommentGroup.toList

theorem comments_cons (p : Piece) (f : Feed) :
    ({ f with pieces := p :: f.pieces } : Feed).comments = p.comments ++ f.comments := by
  have hgroup := p.toList_group?
  cases h : p.group? with
  | none =>
    rw [h] at hgroup
    simp [comments, groups, h, ← hgroup]
  | some g =>
    rw [h] at hgroup
    simp [comments, groups, h, ← hgroup]

/-- The feed shows what came of cutting a text into tokens: the error, or the tokens, with the
comments `before` in front of those of the text. -/
def Shows (f : Feed) (before : List Comment) : Except LexError (List Token) → Prop
  | .error e => f.closing = .error e
  | .ok all =>
    (∃ p, f.closing = .ok p ∧ p.token.kind = .endOfInput) ∧
      f.tokens = all.filter Token.isProper ∧
      f.comments = before ++ all.filterMap Token.comment?

end Feed

namespace Scanner

/-- A feed shows the tokens of its text. -/
theorem shows_feedAfter (s : Scanner) (before : List Comment) :
    (s.feedAfter before).Shows before s.tokenize.1 := by
  induction s using scanInduction generalizing before with
  | error s u e hscan =>
    rw [feedAfter_of_error hscan, tokenize_of_error hscan]
    rfl
  | endOfInput s u t hscan hend =>
    rw [feedAfter_of_endOfInput hscan hend, tokenize_of_endOfInput hscan hend]
    have hgroup := (Piece.mk before t u).toList_group?
    refine ⟨⟨_, rfl, hend⟩, ?_, ?_⟩
    · simp [Feed.tokens, Token.isProper, hend]
    · simpa [Feed.comments, Feed.groups, Except.toOption, Token.comment?, hend] using hgroup
  | comment s u t hscan hcomment ih =>
    -- A comment waits for the piece that it stands in front of.
    have hrec := ih (before ++ [⟨t.pos, t.text⟩])
    rw [feedAfter_of_comment hscan hcomment, tokenize_of_token hscan (by simp [hcomment])]
    cases htokens : u.tokenize.1 with
    | error e =>
      rw [htokens] at hrec
      exact hrec
    | ok all =>
      rw [htokens] at hrec
      obtain ⟨hclosing, hproper, hcomments⟩ := hrec
      refine ⟨hclosing, ?_, ?_⟩
      · simp [hproper, Token.isProper, hcomment]
      · simp [hcomments, Token.comment?, hcomment]
  | token s u t hscan hend hcomment ih =>
    have hrec : u.feed.Shows [] u.tokenize.1 := ih []
    rw [feedAfter_of_token hscan hend hcomment, tokenize_of_token hscan hend]
    cases htokens : u.tokenize.1 with
    | error e =>
      rw [htokens] at hrec
      exact hrec
    | ok all =>
      rw [htokens] at hrec
      obtain ⟨hclosing, hproper, hcomments⟩ := hrec
      have ht : t.isProper := by simp [Token.isProper, hcomment, hend]
      refine ⟨hclosing, ?_, ?_⟩
      · rw [List.filter_cons_of_pos ht, ← hproper]
        rfl
      · rw [Feed.comments_cons, hcomments]
        simp [Token.comment?, hcomment]

end Scanner

end SqlFormatter
