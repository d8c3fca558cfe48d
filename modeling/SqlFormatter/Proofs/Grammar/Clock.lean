import SqlFormatter.Grammar.Parser
import SqlFormatter.Proofs.Token.Clock
import SqlFormatter.Proofs.Token.Tokenize

/-!
# SqlFormatter.Proofs.Grammar.Clock

A parser against time. `Scanner.feedBy` and `Parser.parseBy` are `Scanner.feedAfter` and
`Parser.parse` with a clock for the scans: a deadline may pass at any character of any of them. If
it does not pass, then nothing is different (`Scanner.feedBy_nil`, `Parser.parseBy_nil`).
-/

namespace SqlFormatter

/-! ### Feeds -/

/-- As `feedAfter`, where the clock says when the time is over in each of the scans. -/
def Scanner.feedBy (s : Scanner) (clock : Clock) (before : List Comment) : Feed :=
  match h : s.scanBy (clock.headD none) with
  | (.error e, s') => ⟨[], .error e, s'⟩
  | (.ok t, s') =>
    if ht : t.kind = .endOfInput then ⟨[], .ok ⟨before, t, s'⟩, s'⟩
    else
      have := rest_length_lt_of_scanBy_eq_ok h ht
      if t.kind = .comment then s'.feedBy clock.tail (before ++ [⟨t.pos, t.text⟩])
      else
        let feed := s'.feedBy clock.tail []
        { feed with pieces := ⟨before, t, s'⟩ :: feed.pieces }
termination_by s.rest.length

namespace Scanner

variable {s s' : Scanner} {clock : Clock} {t : Token}

theorem feedBy_of_error {e : LexError} (h : s.scanBy (clock.headD none) = (.error e, s'))
    (before : List Comment) : s.feedBy clock before = ⟨[], .error e, s'⟩ := by
  rw [feedBy]
  split
  · next h' => cases h.symm.trans h'; rfl
  · next h' => cases h.symm.trans h'

theorem feedBy_of_endOfInput (h : s.scanBy (clock.headD none) = (.ok t, s'))
    (ht : t.kind = .endOfInput) (before : List Comment) :
    s.feedBy clock before = ⟨[], .ok ⟨before, t, s'⟩, s'⟩ := by
  rw [feedBy]
  split
  · next h' => cases h.symm.trans h'
  · next h' => cases h.symm.trans h'; rw [dif_pos ht]

theorem feedBy_of_comment (h : s.scanBy (clock.headD none) = (.ok t, s'))
    (ht : t.kind = .comment) (before : List Comment) :
    s.feedBy clock before = s'.feedBy clock.tail (before ++ [⟨t.pos, t.text⟩]) := by
  rw [feedBy]
  split
  · next h' => cases h.symm.trans h'
  · next h' =>
    cases h.symm.trans h'
    rw [dif_neg (by simp [ht]), if_pos ht]

theorem feedBy_of_token (h : s.scanBy (clock.headD none) = (.ok t, s'))
    (hend : t.kind ≠ .endOfInput) (hcomment : t.kind ≠ .comment) (before : List Comment) :
    s.feedBy clock before = { s'.feedBy clock.tail [] with
      pieces := ⟨before, t, s'⟩ :: (s'.feedBy clock.tail []).pieces } := by
  rw [feedBy]
  split
  · next h' => cases h.symm.trans h'
  · next h' =>
    cases h.symm.trans h'
    rw [dif_neg hend, if_neg hcomment]

theorem feedBy_nil (s : Scanner) (before : List Comment) :
    s.feedBy [] before = s.feedAfter before := by
  induction s using scanInduction generalizing before with
  | error s s' e hscan =>
    rw [feedAfter_of_error hscan]
    exact feedBy_of_error (show s.scanBy (List.headD [] none) = _ from hscan) before
  | endOfInput s s' t hscan hend =>
    rw [feedAfter_of_endOfInput hscan hend]
    exact feedBy_of_endOfInput (show s.scanBy (List.headD [] none) = _ from hscan) hend before
  | comment s s' t hscan hcomment ih =>
    rw [feedAfter_of_comment hscan hcomment, ← ih]
    exact feedBy_of_comment (show s.scanBy (List.headD [] none) = _ from hscan) hcomment before
  | token s s' t hscan hend hcomment ih =>
    rw [feedAfter_of_token hscan hend hcomment, feed, ← ih]
    exact feedBy_of_token (show s.scanBy (List.headD [] none) = _ from hscan) hend hcomment
      before

end Scanner

/-! ### Parsers -/

namespace Parser

/-- What comes of the parser when it has read the feed, and the grammar has this to say of its
tokens. -/
def conclude (p : Parser) (feed : Feed) :
    Except Refusal Statement → Except ParseError Statement × Parser
  | .error r => (.error (r.error (feed.closing.map Piece.token)), p.stopAt feed r)
  | .ok s =>
    match feed.closing with
    | .error e => (.error (.lexical e), p.finish feed)
    | .ok _ =>
      let last := p.finish feed
      (.ok { s with comments := last.waiting }, { last with waiting := [] })

theorem parse_eq_conclude (p : Parser) :
    p.parse = p.conclude p.scanner.feed (Grammar.sentence p.scanner.feed.tokens) := by
  unfold parse conclude
  dsimp only
  cases Grammar.sentence p.scanner.feed.tokens <;> cases p.scanner.feed.closing <;> rfl

/-- As `parse`, where the clock says when the time is over in each of the scans. -/
def parseBy (p : Parser) (clock : Clock) : Except ParseError Statement × Parser :=
  let feed := p.scanner.feedBy clock []
  p.conclude feed (Grammar.sentence feed.tokens)

theorem parseBy_nil (p : Parser) : p.parseBy [] = p.parse := by
  rw [parseBy, parse_eq_conclude, Scanner.feedBy_nil]
  rfl

end Parser

end SqlFormatter
