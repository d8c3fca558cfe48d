import SqlFormatter.Grammar.Feed
import SqlFormatter.Proofs.Token.Scan

/-!
# SqlFormatter.Proofs.Grammar.Findings

What a scanner finds, scan by scan (`Scanner.Finds`): the tokens that the grammar can see, and where
a lexeme is fatal its start and its error. The feed of the scanner has just that
(`Scanner.follows_feedAfter`).
-/

namespace SqlFormatter

namespace Scanner

/-- What is found from `s` on: the tokens that are no comments, of which the last one is the end of
input; or those in front of a lexeme that no token can be made of, the start of that lexeme, and its
error. -/
inductive Finds : Scanner → List Token → Option (Nat × LexError) → Prop where
  /-- Nothing is left. -/
  | endOfInput {s s' : Scanner} {t : Token} (h : s.scan = (.ok t, s'))
      (ht : t.kind = .endOfInput) : Finds s [t] none
  /-- Behind the gap there is a fatal lexeme. -/
  | fatal {s s' : Scanner} {e : LexError} (h : s.scan = (.error e, s')) :
    Finds s [] (some (s.skipGap.pos, e))
  /-- A comment is passed over. -/
  | comment {s s' : Scanner} {t : Token} {ts : List Token} {fault : Option (Nat × LexError)}
      (h : s.scan = (.ok t, s')) (ht : t.kind = .comment) (hrest : Finds s' ts fault) :
    Finds s ts fault
  /-- Any other token is found. -/
  | token {s s' : Scanner} {t : Token} {ts : List Token} {fault : Option (Nat × LexError)}
      (h : s.scan = (.ok t, s')) (hend : t.kind ≠ .endOfInput) (hcomment : t.kind ≠ .comment)
      (hrest : Finds s' ts fault) : Finds s (t :: ts) fault

end Scanner

namespace Feed

/-- The feed has what the scanner finds, and its error names the start of the fatal lexeme. -/
structure Follows (f : Feed) (s : Scanner) : Prop where
  proper : ∀ t ∈ f.tokens, t.kind ≠ .endOfInput
  ended : ∀ p, f.closing = .ok p →
    p.token.kind = .endOfInput ∧ s.Finds (f.tokens ++ [p.token]) none
  failed : ∀ e, f.closing = .error e → s.Finds f.tokens (some (e.pos, e))

end Feed

namespace Scanner

theorem follows_feedAfter (s : Scanner) (before : List Comment) :
    (s.feedAfter before).Follows s := by
  have hnone : ∀ t ∈ ([] : List Token), t.kind ≠ .endOfInput := List.forall_mem_nil _
  induction s using scanInduction generalizing before with
  | error s u e hscan =>
    rw [feedAfter_of_error hscan]
    obtain ⟨gap, c, cs, hmeets, -, hpos⟩ := scan_eq_error hscan
    refine ⟨hnone, fun p hp => (by cases hp), fun e' he => ?_⟩
    cases he
    rw [hpos, ← hmeets.pos_skipGap]
    exact .fatal hscan
  | endOfInput s u t hscan hend =>
    rw [feedAfter_of_endOfInput hscan hend]
    refine ⟨hnone, fun p hp => ?_, fun e he => by cases he⟩
    cases hp
    exact ⟨hend, .endOfInput hscan hend⟩
  | comment s u t hscan hcomment ih =>
    rw [feedAfter_of_comment hscan hcomment]
    have hrest := ih (before ++ [⟨t.pos, t.text⟩])
    exact ⟨hrest.proper,
      fun p hp => ⟨(hrest.ended p hp).1, .comment hscan hcomment (hrest.ended p hp).2⟩,
      fun e he => .comment hscan hcomment (hrest.failed e he)⟩
  | token s u t hscan hend hcomment ih =>
    rw [feedAfter_of_token hscan hend hcomment]
    have hrest := ih []
    exact ⟨List.forall_mem_cons.2 ⟨hend, hrest.proper⟩,
      fun p hp => ⟨(hrest.ended p hp).1, .token hscan hend hcomment (hrest.ended p hp).2⟩,
      fun e he => .token hscan hend hcomment (hrest.failed e he)⟩

end Scanner

end SqlFormatter
